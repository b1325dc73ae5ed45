import Taskman.App.Processes.Rows
import Taskman.Core.Settings
import Taskman.LTS.Machine
import Mathlib.Data.Finset.Basic
import Mathlib.Data.List.Rotate

/-!
# Saved process rules

With every snapshot the page looks for processes that a saved rule is about and hands a job for
each to the action executor.  Jobs finish whenever they do and report through one list, as do jobs
that the executor rejects; what they report is read with the next snapshot.

* `ActionExecutor.tryQueue` : the lanes of the executor;
* `ProcessRules.runRule` : what a job does;
* `ProcessRules.tick` : what a snapshot changes, up to the jobs it makes;
* `ProcessRules.dispatch` : one of these jobs handed to the executor;
* `ProcessRules.step` : all of it, with jobs that finish at any time.
-/

namespace Taskman

/-! ### The executor -/

/-- What a lane answers to a job. -/
inductive Lane where
  | ready
  | full
  | disconnected
  deriving DecidableEq

/-- Why a job is not taken. -/
inductive QueueError where
  | full
  | disconnected
  deriving DecidableEq

/-- The lanes at the moment a job comes, and the one that is tried first. -/
structure ActionExecutor where
  lanes : List Lane
  nextLane : ℕ
  /-- An executor is only made with a lane. -/
  nonempty : lanes ≠ []

namespace ActionExecutor

/-- The loop of `try_queue` over the lanes in the order they are tried. -/
def tryLanes (laneCount : ℕ) : List Lane → ℕ → Except QueueError Unit
  | [], disconnected => .error (if disconnected = laneCount then .disconnected else .full)
  | .ready :: _, _ => .ok ()
  | .full :: rest, disconnected => tryLanes laneCount rest disconnected
  | .disconnected :: rest, disconnected => tryLanes laneCount rest (disconnected + 1)

/-- `try_queue`: every lane once, beginning with the next one. -/
def tryQueue (e : ActionExecutor) : Except QueueError Unit :=
  tryLanes e.lanes.length (e.lanes.rotate (e.nextLane % e.lanes.length)) 0

/-- `run_quiet`: whether the job was queued. -/
def runQuiet (e : ActionExecutor) : Bool :=
  match e.tryQueue with
  | .ok _ => true
  | .error .full => false
  | .error .disconnected => false

theorem tryLanes_eq_ok_iff {n : ℕ} {lanes : List Lane} {disconnected : ℕ} :
    tryLanes n lanes disconnected = .ok () ↔ .ready ∈ lanes := by
  induction lanes generalizing disconnected with
  | nil => simp [tryLanes]
  | cons lane lanes ih => cases lane <;> simp [tryLanes, ih]

/-- **A job is queued exactly when some lane takes it.** -/
theorem runQuiet_iff {e : ActionExecutor} : e.runQuiet = true ↔ .ready ∈ e.lanes := by
  have hiff : e.tryQueue = .ok () ↔ Lane.ready ∈ e.lanes :=
    tryLanes_eq_ok_iff.trans List.mem_rotate
  rw [← hiff, runQuiet]
  rcases e.tryQueue with (_ | _) | _ <;> simp

end ActionExecutor

namespace ProcessRules

open Processes (ProcessIdentity)

/-! ### A job -/

/-- A rule to apply to a process. -/
structure RuleJob where
  identity : ProcessIdentity
  rule : ProcessRule
  deriving DecidableEq

/-- What a job or the executor reports. -/
structure RuleResult where
  identity : ProcessIdentity
  error : Option Text
  deriving DecidableEq

/-- The platform calls of a job. -/
structure RulePlatform where
  setPriorityChecked : ℕ → Option ℤ → PriorityClass → Except TmError Unit
  systemAffinityMask : Except TmError UInt64
  setAffinityMaskChecked : ℕ → Option ℤ → UInt64 → Except TmError Unit

/-- The context of an affinity that cannot be set. -/
def AFFINITY_CONTEXT : Text := "saved process affinity".toList

/-- Why it cannot: the mask names no processor of this system. -/
def NO_PROCESSORS : Text := "saved mask has no processors available on this system".toList

/-- The priority, then the affinity; the first call that fails ends the job. -/
def applyRule (platform : RulePlatform) (job : RuleJob) : Except TmError Unit := do
  match job.rule.priority with
  | some priority =>
    platform.setPriorityChecked job.identity.pid job.identity.startEpochS priority
  | none => pure ()
  match job.rule.affinityMask with
  | some savedMask =>
    let systemMask ← platform.systemAffinityMask
    let mask := savedMask &&& systemMask
    if mask = 0 then throw (.platform AFFINITY_CONTEXT NO_PROCESSORS)
    platform.setAffinityMaskChecked job.identity.pid job.identity.startEpochS mask
  | none => pure ()

/-- The report of a job. -/
def runRule (platform : RulePlatform) (job : RuleJob) : RuleResult :=
  ⟨job.identity,
    match applyRule platform job with
    | .ok _ => none
    | .error e => some e.display⟩

/-! ### The page -/

/-- What does not change while the program runs. -/
structure RuleConfig where
  enabled : Bool
  ownPid : ℕ
  keyHost : KeyHost
  actionQueueFull : Text
  actionFailed : Text

/-- The bookkeeping of the page, the reports it has not read, and the jobs that are under way. -/
structure RuleState where
  applied : Finset ProcessIdentity := ∅
  inflight : Finset ProcessIdentity := ∅
  failures : ProcessIdentity → Option ℕ := fun _ => none
  results : List RuleResult := []
  /-- Handed to the executor and not finished. -/
  jobs : List RuleJob := []
  /-- Made with the current snapshot and not handed over yet. -/
  pending : List RuleJob := []
  /-- The failures that were shown: a pid and an error. -/
  toasts : List (ℕ × Text) := []

/-- The identity of a process whose start time is known. -/
def startedIdentity (p : ProcessEntry) : Option ProcessIdentity :=
  p.startEpochS.map fun start => ⟨p.pid, some start⟩

/-- The identities of a snapshot. -/
def live (snapshot : Snapshot) : Finset ProcessIdentity :=
  (snapshot.processes.filterMap startedIdentity).toFinset

/-- What the page remembers is limited to the processes of the snapshot. -/
def RuleState.prune (snapshot : Snapshot) (s : RuleState) : RuleState :=
  { s with
    applied := s.applied.filter (· ∈ live snapshot)
    inflight := s.inflight.filter (· ∈ live snapshot)
    failures := fun x => if x ∈ live snapshot then s.failures x else none }

/-- One report read. -/
def RuleState.record (s : RuleState) (r : RuleResult) : RuleState :=
  match r.error with
  | some error =>
    let failures := min ((s.failures r.identity).getD 0 + 1) 255
    { s with
      inflight := s.inflight.erase r.identity
      failures := Function.update s.failures r.identity (some failures)
      toasts := if failures = 3 then s.toasts ++ [(r.identity.pid, error)] else s.toasts }
  | none =>
    { s with
      inflight := s.inflight.erase r.identity
      failures := Function.update s.failures r.identity none
      applied := insert r.identity s.applied }

/-- A saved rule is about a process. -/
def ruleOf (cfg : RuleConfig) (rules : OrdMap Text ProcessRule) (p : ProcessEntry) :
    Option RuleJob :=
  if p.pid = cfg.ownPid then none
  else
    match p.startEpochS, p.exePath with
    | some start, some path =>
      match rules[processRuleKey cfg.keyHost path]? with
      | some rule => if rule.isEmpty then none else some ⟨⟨p.pid, some start⟩, rule⟩
      | none => none
    | _, _ => none

/-- A process is done with: its rule was applied, is being applied, or failed three times. -/
def RuleState.Settled (s : RuleState) (x : ProcessIdentity) : Prop :=
  x ∈ s.applied ∨ x ∈ s.inflight ∨ 3 ≤ (s.failures x).getD 0

instance (s : RuleState) (x : ProcessIdentity) : Decidable (s.Settled x) :=
  inferInstanceAs (Decidable (_ ∨ _ ∨ _))

/-- The jobs of a snapshot. -/
def due (cfg : RuleConfig) (rules : OrdMap Text ProcessRule) (s : RuleState) (snapshot : Snapshot) :
    List RuleJob :=
  (snapshot.processes.filterMap (ruleOf cfg rules)).filter fun job => ¬ s.Settled job.identity

/-- The reports read with a snapshot. -/
def RuleState.read (snapshot : Snapshot) (s : RuleState) : RuleState :=
  s.results.foldl RuleState.record { s.prune snapshot with results := [] }

/-- `apply_saved_process_rules`, up to the jobs of the snapshot. -/
def tick (cfg : RuleConfig) (snapshot : Snapshot) (rules : OrdMap Text ProcessRule)
    (s : RuleState) : RuleState :=
  if !cfg.enabled then s
  else { s.read snapshot with pending := due cfg rules (s.read snapshot) snapshot }

/-- A job is queued. -/
def RuleState.queue (s : RuleState) (job : RuleJob) (rest : List RuleJob) : RuleState :=
  { s with
    inflight := insert job.identity s.inflight
    jobs := s.jobs ++ [job]
    pending := rest }

/-- A job is rejected: it is reported as failed. -/
def RuleState.reject (s : RuleState) (job : RuleJob) (rest : List RuleJob) (error : Text) :
    RuleState :=
  { s with
    inflight := (insert job.identity s.inflight).erase job.identity
    results := s.results ++ [⟨job.identity, some error⟩]
    pending := rest }

/-- The next job handed to the executor, if there is one. -/
def dispatch (cfg : RuleConfig) (executor : Option ActionExecutor) (s : RuleState) (job : RuleJob)
    (rest : List RuleJob) : RuleState :=
  match executor with
  | some e => if e.runQuiet then s.queue job rest else s.reject job rest cfg.actionQueueFull
  | none => s.reject job rest cfg.actionFailed

/-- **A job that is handed over is queued or rejected.** -/
theorem dispatch_cases (cfg : RuleConfig) (executor : Option ActionExecutor) (s : RuleState)
    (job : RuleJob) (rest : List RuleJob) :
    dispatch cfg executor s job rest = s.queue job rest ∨
      ∃ error, dispatch cfg executor s job rest = s.reject job rest error := by
  unfold dispatch
  split
  · split_ifs
    · exact Or.inl rfl
    · exact Or.inr ⟨_, rfl⟩
  · exact Or.inr ⟨_, rfl⟩

/-- What can happen next to the rules. -/
inductive Action where
  /-- A snapshot, with the rules saved at that time. -/
  | tick (snapshot : Snapshot) (rules : OrdMap Text ProcessRule)
  /-- The executor takes or rejects the next job. -/
  | dispatch (executor : Option ActionExecutor)
  /-- A job finishes. -/
  | finish (index : ℕ) (platform : RulePlatform)

/-- The next snapshot comes once all jobs of the last one are handed over; jobs finish at any
time. -/
def step (cfg : RuleConfig) (s : RuleState) : Action → Option RuleState
  | .tick snapshot rules => if s.pending = [] then some (tick cfg snapshot rules s) else none
  | .dispatch executor =>
    match s.pending with
    | [] => none
    | job :: rest => some (dispatch cfg executor s job rest)
  | .finish index platform =>
    match s.jobs[index]? with
    | none => none
    | some job =>
      some { s with
        jobs := s.jobs.eraseIdx index
        results := s.results ++ [runRule platform job] }

end ProcessRules

end Taskman
