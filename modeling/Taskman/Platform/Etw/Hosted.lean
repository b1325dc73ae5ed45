import Taskman.LTS.Machine
import Mathlib.Data.List.Basic
import Mathlib.Algebra.Order.Group.Nat

/-!
# Traces the broker hosts

The broker starts a trace on the first request for it and stops it when the requests stop coming.  A
trace lives in a slot; with each new one goes a watchdog thread, which sleeps to the earliest moment
the trace can be idle and stops it, or sleeps on.  The four traces differ in when a request replaces
the trace, restarts it in place or returns early, and so in when it stamps the time.

* `HostedTrace.request` : one request, for each of the four traces;
* `HostedTrace.wake` : a watchdog looks at the slot;
* `HostedTrace.Watched` : a trace has one watchdog and does not outlive its last request;
* `HostedTrace.Stamped` : the requests that stamp the time, or meet a trace stamped just now;
* `HostedTrace.Inv` : the watchdog of a trace wakes before the trace has been idle for too long;
* `HostedTrace.idles_of_stamped` : **idle traces are stopped, and active ones are not as long as
  every request stamps the time**.

Times are in nanoseconds.
-/

namespace Taskman.Etw

/-- Which trace. -/
inductive HostedKind where
  /-- Per-process network traffic. -/
  | network
  /-- Per-process disk traffic. -/
  | disk
  /-- The modules of a process. -/
  | modules
  /-- Code samples in the modules of a process. -/
  | samples
  deriving DecidableEq

namespace HostedKind

/-- How long the network trace runs without a request, in nanoseconds. -/
def NET_TRACE_IDLE : ℕ := 30 * 1000000000

/-- How long a module trace runs without a request. -/
def MODULE_TRACE_IDLE : ℕ := 30 * 1000000000

/-- How long a code-sample trace runs without a request. -/
def PROFILE_TRACE_IDLE : ℕ := 30 * 1000000000

/-- How long a trace is kept after the last request. -/
def idle : HostedKind → ℕ
  | .network | .disk => NET_TRACE_IDLE
  | .modules => MODULE_TRACE_IDLE
  | .samples => PROFILE_TRACE_IDLE

/-- Whether a watchdog leaves a later trace in the slot to its own watchdog. -/
def checksGeneration : HostedKind → Bool
  | .network | .disk => false
  | .modules | .samples => true

end HostedKind

/-- A trace in its slot. -/
structure ActiveTrace (κ : Type*) where
  /-- What is traced: the role, the process and its start. -/
  target : κ
  generation : ℕ
  lastRequest : ℕ
  running : Bool := true
  /-- When the trace was last asked for, whatever the answer was. -/
  requested : ℕ
  deriving DecidableEq

/-- A watchdog sleeps; it belongs to one generation of the trace. -/
structure Watchdog where
  generation : ℕ
  wakesAt : ℕ
  deriving DecidableEq

/-- The slot of one trace, and the threads that watch it. -/
structure HostedTrace (κ : Type*) where
  now : ℕ := 0
  slot : Option (ActiveTrace κ) := none
  /-- `TRACE_GENERATION` -/
  generation : ℕ := 1
  watchdogs : List Watchdog := []
  deriving DecidableEq

namespace HostedTrace

/-- A request, and what it meets outside.  A request for the modules of a process that is answered
without the trace is none for the trace. -/
structure Request (κ : Type*) where
  target : κ
  /-- The modules that code samples are charged to can be listed, and are not too many. -/
  listed : Bool
  /-- The process is the one that is asked about. -/
  exists_ : Bool
  /-- A session can be started. -/
  starts : Bool
  /-- The rundown has settled. -/
  settled : Bool
  /-- The process still is the one that is asked about after the answer is read. -/
  revalidates : Bool
  /-- The window can be taken. -/
  window : Bool
  deriving DecidableEq

variable {κ : Type*}

section Definitions

variable [DecidableEq κ]

/-- A new trace in the slot, and its watchdog. -/
def install (s : HostedTrace κ) (target : κ) (generation : ℕ) : HostedTrace κ :=
  { s with
    slot := some { target, generation, lastRequest := s.now, requested := s.now }
    watchdogs := s.watchdogs ++ [⟨generation, s.now⟩] }

/-- The request is noted in the slot. -/
def stamp (s : HostedTrace κ) : HostedTrace κ :=
  { s with slot := s.slot.map fun t => { t with lastRequest := s.now } }

/-- `process_network_sample`; a restart in place that succeeds stamps the time. -/
def processNetworkSample (s : HostedTrace κ) (r : Request κ) : HostedTrace κ :=
  match s.slot with
  | some t =>
    if t.running then s.stamp
    else if r.starts then { s with slot := some { t with running := true } }.stamp
    else s
  | none => if r.starts then (s.install r.target 0).stamp else s

/-- `process_disk_sample`; a restart in place returns at once. -/
def processDiskSample (s : HostedTrace κ) (r : Request κ) : HostedTrace κ :=
  match s.slot with
  | some t =>
    if t.running then s.stamp
    else if r.starts then { s with slot := some { t with running := true } }
    else s
  | none => if r.starts then s.install r.target 0 else s

/-- The slot holds a running trace of the process. -/
def sameTarget (s : HostedTrace κ) (target : κ) : Bool :=
  s.slot.any fun t => t.target = target && t.running

/-- `protected_process_modules` -/
def protectedProcessModules (s : HostedTrace κ) (r : Request κ) : HostedTrace κ :=
  if !r.exists_ then s
  else if !s.sameTarget r.target then
    let s := { s with slot := none }
    if r.starts then { s.install r.target s.generation with generation := s.generation + 1 } else s
  else
    let s := s.stamp
    if !r.settled then s
    else if !r.revalidates then { s with slot := none }
    else s

/-- `sample_process_module_code`; a new trace whose first window fails is dropped. -/
def sampleProcessModuleCode (s : HostedTrace κ) (r : Request κ) : HostedTrace κ :=
  if s.sameTarget r.target then s.stamp
  else
    let s := { s with slot := none }
    if r.starts then
      if r.window then { s.install r.target s.generation with generation := s.generation + 1 }
      else { s with generation := s.generation + 1 }
    else s

/-- The request for code samples: a module list that fails is the answer, before the trace is
looked at. -/
def processModuleCodeSamples (s : HostedTrace κ) (r : Request κ) : HostedTrace κ :=
  if !r.listed then s else s.sampleProcessModuleCode r

/-- One request for a trace. -/
def request (kind : HostedKind) (s : HostedTrace κ) (r : Request κ) : HostedTrace κ :=
  match kind with
  | .network => s.processNetworkSample r
  | .disk => s.processDiskSample r
  | .modules => s.protectedProcessModules r
  | .samples => s.processModuleCodeSamples r

/-- The request is for the trace in the slot. -/
def isFor (kind : HostedKind) (r : Request κ) (t : ActiveTrace κ) : Bool :=
  match kind with
  | .network | .disk => true
  | .modules | .samples => t.target = r.target

/-- Remembers that the trace was asked for. -/
def noteRequest (kind : HostedKind) (s : HostedTrace κ) (r : Request κ) : HostedTrace κ :=
  { s with slot := s.slot.map fun t => if isFor kind r t then { t with requested := s.now } else t }

/-- A watchdog looks at the slot; what is left of it, and the slot then. -/
def wake (kind : HostedKind) (s : HostedTrace κ) (w : Watchdog) : Option Watchdog × HostedTrace κ :=
  match s.slot with
  | none => (none, s)
  | some t =>
    if kind.checksGeneration && t.generation != w.generation then (none, s)
    else
      let idle := s.now - t.lastRequest
      if kind.idle ≤ idle then (none, { s with slot := none })
      else (some { w with wakesAt := s.now + (kind.idle - idle) }, s)

/-- What can happen next to a hosted trace. -/
inductive Action (κ : Type*) where
  /-- Time passes. -/
  | advance (ns : ℕ)
  /-- The session of the trace ends. -/
  | ends
  | request (r : Request κ)
  /-- A watchdog has its turn. -/
  | wake (index : ℕ)
  deriving DecidableEq

/-- A watchdog whose sleep is over has its turn within `late`. -/
def step (kind : HostedKind) (late : ℕ) (s : HostedTrace κ) : Action κ → Option (HostedTrace κ)
  | .advance ns =>
    if ∀ w ∈ s.watchdogs, s.now + ns ≤ w.wakesAt + late then some { s with now := s.now + ns }
    else none
  | .ends => some { s with slot := s.slot.map fun t => { t with running := false } }
  | .request r => some ((s.noteRequest kind r).request kind r)
  | .wake index =>
    match s.watchdogs.drop index with
    | [] => none
    | w :: post =>
      let (left, s) := s.wake kind w
      some { s with watchdogs := s.watchdogs.take index ++ left.toList ++ post }

/-! ### What is promised -/

/-- The watchdog would stop the trace. -/
def covers (kind : HostedKind) (t : ActiveTrace κ) (w : Watchdog) : Bool :=
  !kind.checksGeneration || t.generation == w.generation

/-- A trace has exactly one watchdog that will stop it, and does not outlive its last request by
more than the idle period and a wake-up. -/
structure Watched (kind : HostedKind) (late : ℕ) (s : HostedTrace κ) : Prop where
  one : ∀ t ∈ s.slot, s.watchdogs.countP (covers kind t) = 1
  not_late : ∀ t ∈ s.slot, s.now ≤ t.requested + kind.idle + late

/-- No watchdog stops a trace before it has been idle since the last request for it. -/
def NotEarly (kind : HostedKind) (late : ℕ) (s : HostedTrace κ) : Action κ → Prop
  | .wake index => ∀ s' ∈ step kind late s (.wake index), s'.slot = none →
      ∀ t ∈ s.slot, t.requested + kind.idle ≤ s.now
  | _ => True

/-- A request for a trace that was stamped before does not meet an ended network session it cannot
restart, an ended disk session, a process that is gone, or a module list that fails. -/
def Stamped (kind : HostedKind) (s : HostedTrace κ) : Action κ → Prop
  | .request r => ∀ t ∈ s.slot, t.lastRequest < s.now →
      match kind with
      | .network => t.running = true ∨ r.starts = true
      | .disk => t.running = true
      | .modules => t.target = r.target → r.exists_ = true
      | .samples => t.target = r.target → r.listed = true
  | _ => True

instance (kind : HostedKind) (late : ℕ) (s : HostedTrace κ) :
    ∀ a, Decidable (NotEarly kind late s a)
  | .wake index =>
    inferInstanceAs (Decidable (∀ s' ∈ step kind late s (.wake index), s'.slot = none →
      ∀ t ∈ s.slot, t.requested + kind.idle ≤ s.now))
  | .advance _ | .ends | .request _ => inferInstanceAs (Decidable True)

instance (s : HostedTrace κ) : ∀ (kind : HostedKind) (a : Action κ), Decidable (Stamped kind s a)
  | .network, .request r =>
    inferInstanceAs (Decidable (∀ t ∈ s.slot, t.lastRequest < s.now →
      t.running = true ∨ r.starts = true))
  | .disk, .request _ =>
    inferInstanceAs (Decidable (∀ t ∈ s.slot, t.lastRequest < s.now → t.running = true))
  | .modules, .request r =>
    inferInstanceAs (Decidable (∀ t ∈ s.slot, t.lastRequest < s.now → t.target = r.target →
      r.exists_ = true))
  | .samples, .request r =>
    inferInstanceAs (Decidable (∀ t ∈ s.slot, t.lastRequest < s.now → t.target = r.target →
      r.listed = true))
  | _, .advance _ | _, .ends | _, .wake _ => inferInstanceAs (Decidable True)

end Definitions

/-! ### One watchdog for each trace -/

/-- What holds between any two steps. -/
structure Inv (kind : HostedKind) (late : ℕ) (s : HostedTrace κ) : Prop where
  one : ∀ t ∈ s.slot, s.watchdogs.countP (covers kind t) = 1
  /-- Where a watchdog stops any trace, none is left over. -/
  lone : kind.checksGeneration = false → s.slot = none → s.watchdogs = []
  positive : 0 < s.generation
  below : (∀ w ∈ s.watchdogs, w.generation < s.generation) ∧
    ∀ t ∈ s.slot, t.generation < s.generation
  stamped : ∀ t ∈ s.slot, t.lastRequest ≤ t.requested ∧ t.lastRequest ≤ s.now
  /-- The watchdog of a trace wakes before the trace has been idle for too long. -/
  due : ∀ t ∈ s.slot, ∀ w ∈ s.watchdogs, covers kind t w = true →
    w.wakesAt ≤ t.lastRequest + kind.idle
  timely : ∀ w ∈ s.watchdogs, s.now ≤ w.wakesAt + late

section Step

variable {kind : HostedKind} {late : ℕ} {s s' : HostedTrace κ}

theorem Inv.start : Inv kind late ({} : HostedTrace κ) := by
  constructor <;> simp

theorem Inv.watched (h : Inv kind late s) : Watched kind late s := by
  refine ⟨h.one, fun t ht => ?_⟩
  have hpos : 0 < s.watchdogs.countP (covers kind t) := by
    rw [h.one t ht]
    exact Nat.one_pos
  obtain ⟨w, hw, hcovers⟩ := List.countP_pos_iff.mp hpos
  have hdue := h.due t ht w hw hcovers
  have htimely := h.timely w hw
  have hstamped := (h.stamped t ht).1
  omega

/-- The trace is changed in ways its watchdog does not see. -/
theorem Inv.slot (h : Inv kind late s) {slot : Option (ActiveTrace κ)}
    (hslot : ∀ t' ∈ slot, ∃ t ∈ s.slot, t'.generation = t.generation ∧
      t.lastRequest ≤ t'.lastRequest ∧ t'.lastRequest ≤ t'.requested ∧ t'.lastRequest ≤ s.now)
    (hnone : kind.checksGeneration = false → slot = none → s.slot = none) :
    Inv kind late { s with slot := slot } := by
  have hcovers : ∀ {t t' : ActiveTrace κ}, t'.generation = t.generation →
      covers kind t' = covers kind t := fun hgen => by
    funext w
    rw [covers, covers, hgen]
  refine ⟨fun t' ht' => ?_, fun hc hn => h.lone hc (hnone hc hn), h.positive,
    ⟨h.below.1, fun t' ht' => ?_⟩, fun t' ht' => ?_, fun t' ht' w hw hcov => ?_, h.timely⟩
  · obtain ⟨t, ht, hgen, -⟩ := hslot t' ht'
    rw [hcovers hgen]
    exact h.one t ht
  · obtain ⟨t, ht, hgen, -⟩ := hslot t' ht'
    rw [hgen]
    exact h.below.2 t ht
  · obtain ⟨t, ht, -, -, hrequested, hnow⟩ := hslot t' ht'
    exact ⟨hrequested, hnow⟩
  · obtain ⟨t, ht, hgen, hle, -⟩ := hslot t' ht'
    rw [hcovers hgen] at hcov
    exact (h.due t ht w hw hcov).trans (Nat.add_le_add_right hle _)

/-- A new trace is put into the slot, with its watchdog. -/
theorem Inv.install (h : Inv kind late s) (target : κ) {generation next : ℕ}
    (hown : kind.checksGeneration = true → s.generation ≤ generation)
    (hfree : kind.checksGeneration = false → s.slot = none) (hnext : generation < next)
    (hold : s.generation ≤ next) :
    Inv kind late { s.install target generation with generation := next } := by
  have hothers : ∀ t : ActiveTrace κ, t.generation = generation →
      ∀ w ∈ s.watchdogs, covers kind t w = false := by
    intro t hgen w hw
    cases hchecks : kind.checksGeneration with
    | true =>
      have hlt := h.below.1 w hw
      have hle := hown hchecks
      simp only [covers, hchecks, hgen, Bool.not_true, Bool.false_or, beq_eq_false_iff_ne]
      omega
    | false =>
      rw [h.lone hchecks (hfree hchecks)] at hw
      cases hw
  have hnew : ∀ t : ActiveTrace κ, t.generation = generation →
      covers kind t ⟨generation, s.now⟩ = true := fun t hgen => by simp [covers, hgen]
  constructor
  case one =>
    intro t ht
    have hgen : t.generation = generation := by cases ht; rfl
    have hzero : s.watchdogs.countP (covers kind t) = 0 :=
      List.countP_eq_zero.mpr fun w hw => by simp [hothers t hgen w hw]
    simp only [HostedTrace.install, List.countP_append, hzero, List.countP_singleton, hnew t hgen,
      if_pos]
  case lone => exact fun _ hnone => nomatch hnone
  case positive => exact h.positive.trans_le hold
  case below =>
    refine ⟨fun w hw => ?_, ?_⟩
    · rcases List.mem_append.mp hw with hw | hw
      · exact (h.below.1 w hw).trans_le hold
      · rw [List.mem_singleton.mp hw]
        exact hnext
    · rintro t ⟨⟩
      exact hnext
  case stamped =>
    rintro t ⟨⟩
    exact ⟨le_rfl, le_rfl⟩
  case due =>
    rintro t ht w hw hcov
    have hgen : t.generation = generation := by cases ht; rfl
    rcases List.mem_append.mp hw with hw | hw
    · rw [hothers t hgen w hw] at hcov
      cases hcov
    · cases ht
      rw [List.mem_singleton.mp hw]
      exact Nat.le_add_right _ _
  case timely =>
    intro w hw
    rcases List.mem_append.mp hw with hw | hw
    · exact h.timely w hw
    · rw [List.mem_singleton.mp hw]
      exact Nat.le_add_right _ _

theorem Inv.stamp (h : Inv kind late s) (hrequested : ∀ t ∈ s.slot, t.requested = s.now) :
    Inv kind late s.stamp := by
  refine h.slot (fun t' ht' => ?_) fun _ hnone => by simpa using hnone
  obtain ⟨t, ht, rfl⟩ := Option.map_eq_some_iff.mp ht'
  exact ⟨t, ht, rfl, (h.stamped t ht).2, (hrequested t ht).ge, le_rfl⟩

theorem Inv.clear (h : Inv kind late s) (hchecks : kind.checksGeneration = true) :
    Inv kind late { s with slot := (none : Option (ActiveTrace κ)) } :=
  h.slot (fun _ ht => nomatch ht) fun hfalse => by rw [hchecks] at hfalse; cases hfalse

theorem Inv.running (h : Inv kind late s) (running : Bool) :
    Inv kind late { s with slot := s.slot.map fun t => { t with running } } := by
  refine h.slot (fun t' ht' => ?_) fun _ hnone => by simpa using hnone
  obtain ⟨t, ht, rfl⟩ := Option.map_eq_some_iff.mp ht'
  exact ⟨t, ht, rfl, le_rfl, h.stamped t ht⟩

theorem Inv.generation (h : Inv kind late s) {next : ℕ} (hnext : s.generation ≤ next) :
    Inv kind late { s with generation := next } :=
  { h with
    positive := h.positive.trans_le hnext
    below := ⟨fun w hw => (h.below.1 w hw).trans_le hnext,
      fun t ht => (h.below.2 t ht).trans_le hnext⟩ }

theorem Inv.processNetworkSample (h : Inv .network late s) (r : Request κ)
    (hrequested : ∀ t ∈ s.slot, t.requested = s.now) :
    Inv .network late (s.processNetworkSample r) := by
  unfold HostedTrace.processNetworkSample
  split
  · next t hslot =>
    split
    · exact h.stamp hrequested
    · split
      · have hrunning := h.running true
        rw [hslot] at hrunning
        refine hrunning.stamp ?_
        rintro t' ⟨⟩
        exact hrequested t hslot
      · exact h
  · next hslot =>
    split
    · refine Inv.stamp ?_ ?_
      · exact h.install r.target nofun (fun _ => hslot) h.positive le_rfl
      · rintro t ⟨⟩
        rfl
    · exact h

theorem Inv.processDiskSample (h : Inv .disk late s) (r : Request κ)
    (hrequested : ∀ t ∈ s.slot, t.requested = s.now) :
    Inv .disk late (s.processDiskSample r) := by
  unfold HostedTrace.processDiskSample
  split
  · next t hslot =>
    split
    · exact h.stamp hrequested
    · split
      · have hrunning := h.running true
        rw [hslot] at hrunning
        exact hrunning
      · exact h
  · next hslot =>
    split
    · exact h.install r.target nofun (fun _ => hslot) h.positive le_rfl
    · exact h

section Request

variable [DecidableEq κ]

theorem Inv.noteRequest (h : Inv kind late s) (r : Request κ) :
    Inv kind late (s.noteRequest kind r) := by
  refine h.slot (fun t' ht' => ?_) fun _ hnone => by simpa using hnone
  obtain ⟨t, ht, rfl⟩ := Option.map_eq_some_iff.mp ht'
  obtain ⟨hrequested, hnow⟩ := h.stamped t ht
  refine ⟨t, ht, ?_⟩
  split
  · exact ⟨rfl, le_rfl, hnow, hnow⟩
  · exact ⟨rfl, le_rfl, hrequested, hnow⟩

/-- The trace a request is for was asked for now. -/
theorem requested_noteRequest (s : HostedTrace κ) {r : Request κ} {t : ActiveTrace κ}
    (ht : t ∈ (s.noteRequest kind r).slot) (hfor : isFor kind r t = true) :
    t.requested = s.now := by
  obtain ⟨u, -, rfl⟩ := Option.map_eq_some_iff.mp ht
  by_cases hu : isFor kind r u = true
  · rw [if_pos hu]
  · rw [if_neg hu] at hfor
    exact absurd hfor hu

/-- The trace of the process in the slot was asked for now. -/
theorem Inv.stamp_of_sameTarget (h : Inv kind late s) {target : κ}
    (hsame : s.sameTarget target = true)
    (hrequested : ∀ t ∈ s.slot, t.target = target → t.requested = s.now) :
    Inv kind late s.stamp := by
  refine h.stamp fun t ht => hrequested t ht ?_
  rw [sameTarget, Option.mem_def.mp ht, Option.any_some] at hsame
  simp only [Bool.and_eq_true, decide_eq_true_eq] at hsame
  exact hsame.1

theorem Inv.protectedProcessModules (h : Inv .modules late s) (r : Request κ)
    (hrequested : ∀ t ∈ s.slot, t.target = r.target → t.requested = s.now) :
    Inv .modules late (s.protectedProcessModules r) := by
  unfold HostedTrace.protectedProcessModules
  have hcleared := h.clear rfl
  split
  · exact h
  · split
    · split
      · exact hcleared.install r.target (fun _ => le_rfl) nofun (Nat.lt_succ_self _)
          (Nat.le_succ _)
      · exact hcleared
    · next hsame =>
      have hstamped := h.stamp_of_sameTarget (by simpa using hsame) hrequested
      dsimp only
      split
      · exact hstamped
      · split
        · exact hstamped.clear rfl
        · exact hstamped

theorem Inv.sampleProcessModuleCode (h : Inv .samples late s) (r : Request κ)
    (hrequested : ∀ t ∈ s.slot, t.target = r.target → t.requested = s.now) :
    Inv .samples late (s.sampleProcessModuleCode r) := by
  unfold HostedTrace.sampleProcessModuleCode
  have hcleared := h.clear rfl
  split
  · next hsame => exact h.stamp_of_sameTarget hsame hrequested
  · dsimp only
    split
    · split
      · exact hcleared.install r.target (fun _ => le_rfl) nofun (Nat.lt_succ_self _)
          (Nat.le_succ _)
      · exact hcleared.generation (Nat.le_succ _)
    · exact hcleared

theorem Inv.processModuleCodeSamples (h : Inv .samples late s) (r : Request κ)
    (hrequested : ∀ t ∈ s.slot, t.target = r.target → t.requested = s.now) :
    Inv .samples late (s.processModuleCodeSamples r) := by
  unfold HostedTrace.processModuleCodeSamples
  split
  · exact h
  · exact h.sampleProcessModuleCode r hrequested

theorem Inv.request (h : Inv kind late s) (r : Request κ) :
    Inv kind late ((s.noteRequest kind r).request kind r) := by
  have hnoted := h.noteRequest r
  have hrequested : ∀ t ∈ (s.noteRequest kind r).slot, isFor kind r t = true →
      t.requested = s.now := fun _ ht => requested_noteRequest s ht
  cases kind with
  | network => exact hnoted.processNetworkSample r fun t ht => hrequested t ht rfl
  | disk => exact hnoted.processDiskSample r fun t ht => hrequested t ht rfl
  | modules =>
    exact hnoted.protectedProcessModules r fun t ht hfor => hrequested t ht (decide_eq_true hfor)
  | samples =>
    exact hnoted.processModuleCodeSamples r fun t ht hfor => hrequested t ht (decide_eq_true hfor)

end Request

/-- The slot is empty, and some of the watchdogs are left. -/
theorem Inv.emptied (h : Inv kind late s) {watchdogs : List Watchdog}
    (hlone : kind.checksGeneration = false → watchdogs = [])
    (hleft : watchdogs ⊆ s.watchdogs) :
    Inv kind late { s with slot := (none : Option (ActiveTrace κ)), watchdogs } where
  one := fun _ ht => nomatch ht
  lone := fun hchecks _ => hlone hchecks
  positive := h.positive
  below := ⟨fun w hw => h.below.1 w (hleft hw), fun _ ht => nomatch ht⟩
  stamped := fun _ ht => nomatch ht
  due := fun _ ht => nomatch ht
  timely := fun w hw => h.timely w (hleft hw)

/-- A watchdog of another trace is gone. -/
theorem Inv.gone (h : Inv kind late s) {pre post : List Watchdog} {w : Watchdog}
    {t : ActiveTrace κ} (hslot : s.slot = some t) (hsplit : s.watchdogs = pre ++ w :: post)
    (hother : covers kind t w = false) : Inv kind late { s with watchdogs := pre ++ post } := by
  have hleft : pre ++ post ⊆ s.watchdogs := by
    rw [hsplit]
    exact ((List.sublist_cons_self w post).append_left pre).subset
  constructor
  case one =>
    intro t' ht'
    cases hslot.symm.trans ht'
    have hone := h.one t hslot
    rw [hsplit, List.countP_append, List.countP_cons_of_neg (by simp [hother])] at hone
    rw [List.countP_append]
    exact hone
  case lone => exact fun _ hnone => nomatch hslot.symm.trans hnone
  case positive => exact h.positive
  case below => exact ⟨fun w' hw' => h.below.1 w' (hleft hw'), h.below.2⟩
  case stamped => exact h.stamped
  case due => exact fun t' ht' w' hw' => h.due t' ht' w' (hleft hw')
  case timely => exact fun w' hw' => h.timely w' (hleft hw')

/-- The watchdog of the trace sleeps on, to the moment the trace can be idle. -/
theorem Inv.asleep (h : Inv kind late s) {pre post : List Watchdog} {w : Watchdog}
    {t : ActiveTrace κ} (hslot : s.slot = some t) (hsplit : s.watchdogs = pre ++ w :: post)
    (hidle : s.now - t.lastRequest < kind.idle) :
    Inv kind late
      { s with
        watchdogs :=
          pre ++ { w with wakesAt := s.now + (kind.idle - (s.now - t.lastRequest)) } :: post } := by
  have hold : ∀ w' ∈ pre ++ { w with wakesAt := s.now + (kind.idle - (s.now - t.lastRequest)) } ::
      post, w' ∈ s.watchdogs ∨
        w' = { w with wakesAt := s.now + (kind.idle - (s.now - t.lastRequest)) } := by
    intro w' hw'
    rw [hsplit]
    simp only [List.mem_append, List.mem_cons] at hw' ⊢
    tauto
  have hw : w ∈ s.watchdogs := by
    rw [hsplit]
    exact List.mem_append_right _ List.mem_cons_self
  constructor
  case one =>
    intro t' ht'
    have hone := h.one t' ht'
    rw [hsplit, List.countP_append, List.countP_cons] at hone
    rw [List.countP_append, List.countP_cons]
    exact hone
  case lone => exact fun _ hnone => nomatch hslot.symm.trans hnone
  case positive => exact h.positive
  case below =>
    refine ⟨fun w' hw' => ?_, h.below.2⟩
    rcases hold w' hw' with hmem | rfl
    · exact h.below.1 w' hmem
    · exact h.below.1 w hw
  case stamped => exact h.stamped
  case due =>
    intro t' ht' w' hw' hcov
    cases hslot.symm.trans ht'
    rcases hold w' hw' with hmem | rfl
    · exact h.due t hslot w' hmem hcov
    · have hnow := (h.stamped t hslot).2
      dsimp only
      omega
  case timely =>
    intro w' hw'
    rcases hold w' hw' with hmem | rfl
    · exact h.timely w' hmem
    · dsimp only
      omega

/-- Where a watchdog stops any trace, it is the only one. -/
theorem Inv.alone (h : Inv kind late s) {pre post : List Watchdog} {w : Watchdog}
    (hchecks : kind.checksGeneration = false) (hsplit : s.watchdogs = pre ++ w :: post) :
    pre ++ post = [] := by
  cases hslot : s.slot with
  | none =>
    have hnil := h.lone hchecks hslot
    rw [hsplit] at hnil
    simp at hnil
  | some t =>
    have hone := h.one t hslot
    have hall : ∀ w' ∈ s.watchdogs, covers kind t w' = true := fun w' _ => by
      simp [covers, hchecks]
    rw [List.countP_eq_length.mpr hall, hsplit] at hone
    simp only [List.length_append, List.length_cons] at hone
    rw [List.append_eq_nil_iff, ← List.length_eq_zero_iff, ← List.length_eq_zero_iff]
    omega

@[simp] theorem wake_watchdogs (s : HostedTrace κ) (w : Watchdog) :
    (s.wake kind w).2.watchdogs = s.watchdogs := by
  unfold HostedTrace.wake
  split
  · rfl
  · dsimp only
    split
    · rfl
    · split <;> rfl

/-- A watchdog wakes up. -/
theorem Inv.wake (h : Inv kind late s) {pre post : List Watchdog} {w : Watchdog}
    (hsplit : s.watchdogs = pre ++ w :: post) :
    Inv kind late
      { (s.wake kind w).2 with watchdogs := pre ++ (s.wake kind w).1.toList ++ post } := by
  have hleft : pre ++ post ⊆ s.watchdogs := by
    rw [hsplit]
    exact ((List.sublist_cons_self w post).append_left pre).subset
  have hemptied : Inv kind late
      { s with slot := (none : Option (ActiveTrace κ)), watchdogs := pre ++ post } :=
    h.emptied (fun hchecks => h.alone hchecks hsplit) hleft
  unfold HostedTrace.wake
  split
  · next hslot =>
    rw [← hslot] at hemptied
    simpa using hemptied
  · next t hslot =>
    split
    · next hother =>
      have hgone := h.gone hslot hsplit (by simpa [covers] using hother)
      simpa using hgone
    · dsimp only
      split
      · simpa using hemptied
      · next hidle =>
        have hasleep := h.asleep hslot hsplit (not_le.mp hidle)
        simpa using hasleep

section Run

variable [DecidableEq κ]

/-- What a watchdog that has its turn finds. -/
theorem step_wake {index : ℕ} (h : step kind late s (.wake index) = some s') :
    ∃ pre w post, s.watchdogs = pre ++ w :: post ∧
      s' = { (s.wake kind w).2 with watchdogs := pre ++ (s.wake kind w).1.toList ++ post } := by
  unfold step at h
  dsimp only at h
  split at h
  · cases h
  · next w post hdrop =>
    refine ⟨s.watchdogs.take index, w, post, ?_, ?_⟩
    · rw [← hdrop, List.take_append_drop]
    · rw [wake_watchdogs] at h
      exact (Option.some.inj h).symm

theorem Inv.step (h : Inv kind late s) {a : Action κ} (hs : step kind late s a = some s') :
    Inv kind late s' := by
  cases a with
  | advance ns =>
    obtain ⟨htimely, ⟨⟩⟩ := Option.ite_none_right_eq_some.mp hs
    exact
      { h with
        stamped := fun t ht => ⟨(h.stamped t ht).1, (h.stamped t ht).2.trans (Nat.le_add_right _ _)⟩
        timely := htimely }
  | ends =>
    cases hs
    exact h.running false
  | request r =>
    cases hs
    exact h.request r
  | wake index =>
    obtain ⟨pre, w, post, hsplit, rfl⟩ := step_wake hs
    exact h.wake hsplit

end Run

/-! ### Requests stamp the time -/

/-- The trace was last stamped when it was last asked for. -/
def Kept (s : HostedTrace κ) : Prop :=
  ∀ t ∈ s.slot, t.requested = t.lastRequest

/-- A watchdog that stops a trace finds it idle. -/
theorem idle_of_wake {w : Watchdog} (hnow : ∀ t ∈ s.slot, t.lastRequest ≤ s.now)
    (hnone : (s.wake kind w).2.slot = none) :
    ∀ t ∈ s.slot, t.lastRequest + kind.idle ≤ s.now := by
  intro t ht
  have hle := hnow t ht
  unfold HostedTrace.wake at hnone
  rw [Option.mem_def.mp ht] at hnone
  dsimp only at hnone
  split at hnone
  · exact nomatch hnone.symm.trans (Option.mem_def.mp ht)
  · split at hnone
    · next hidle => omega
    · exact nomatch hnone.symm.trans (Option.mem_def.mp ht)

theorem kept_install (s : HostedTrace κ) (target : κ) (generation next : ℕ) :
    Kept { s.install target generation with generation := next } := by
  rintro t ⟨⟩
  rfl

theorem kept_stamp (hrequested : ∀ t ∈ s.slot, t.requested = s.now) : Kept s.stamp := by
  intro t' ht'
  obtain ⟨t, ht, rfl⟩ := Option.map_eq_some_iff.mp ht'
  exact hrequested t ht

theorem kept_processNetworkSample {r : Request κ} (hrequested : ∀ t ∈ s.slot, t.requested = s.now)
    (hmeets : ∀ t ∈ s.slot, t.lastRequest < s.now → t.running = true ∨ r.starts = true)
    (hnow : ∀ t ∈ s.slot, t.lastRequest ≤ s.now) : Kept (s.processNetworkSample r) := by
  unfold processNetworkSample
  split
  · next t hslot =>
    split
    · exact kept_stamp hrequested
    · next hended =>
      split
      · refine kept_stamp ?_
        rintro t' ⟨⟩
        exact hrequested t hslot
      · next hfails =>
        intro t' ht'
        cases hslot.symm.trans ht'
        have hold : ¬ t.lastRequest < s.now := fun hlt => by
          rcases hmeets t hslot hlt with hruns | hstarts
          · exact hended hruns
          · exact hfails hstarts
        exact (hrequested t hslot).trans (le_antisymm (not_lt.mp hold) (hnow t hslot))
  · next hslot =>
    split
    · refine kept_stamp ?_
      rintro t ⟨⟩
      rfl
    · intro t ht
      exact nomatch hslot.symm.trans ht

theorem kept_processDiskSample {r : Request κ} (hrequested : ∀ t ∈ s.slot, t.requested = s.now)
    (hmeets : ∀ t ∈ s.slot, t.lastRequest < s.now → t.running = true)
    (hnow : ∀ t ∈ s.slot, t.lastRequest ≤ s.now) : Kept (s.processDiskSample r) := by
  unfold processDiskSample
  split
  · next t hslot =>
    split
    · exact kept_stamp hrequested
    · next hended =>
      have hkept : t.requested = t.lastRequest := by
        have hold : ¬ t.lastRequest < s.now := fun hlt => hended (hmeets t hslot hlt)
        exact (hrequested t hslot).trans (le_antisymm (not_lt.mp hold) (hnow t hslot))
      split
      · rintro t' ⟨⟩
        exact hkept
      · intro t' ht'
        cases hslot.symm.trans ht'
        exact hkept
  · next hslot =>
    split
    · exact kept_install s r.target 0 s.generation
    · intro t ht
      exact nomatch hslot.symm.trans ht

section Process

variable [DecidableEq κ]

theorem kept_stamp_of_sameTarget {target : κ} (hsame : s.sameTarget target = true)
    (hrequested : ∀ t ∈ s.slot, t.target = target → t.requested = s.now) : Kept s.stamp := by
  refine kept_stamp fun t ht => hrequested t ht ?_
  rw [sameTarget, Option.mem_def.mp ht, Option.any_some] at hsame
  simp only [Bool.and_eq_true, decide_eq_true_eq] at hsame
  exact hsame.1

theorem kept_protectedProcessModules {r : Request κ}
    (hrequested : ∀ t ∈ s.slot, t.target = r.target → t.requested = s.now)
    (hmeets : r.exists_ = false → Kept s) : Kept (s.protectedProcessModules r) := by
  unfold protectedProcessModules
  split
  · next hgone => exact hmeets (by simpa using hgone)
  · split
    · dsimp only
      split
      · exact kept_install { s with slot := none } r.target s.generation (s.generation + 1)
      · exact fun _ ht => nomatch ht
    · next hsame =>
      have hstamped := kept_stamp_of_sameTarget (by simpa using hsame) hrequested
      dsimp only
      split
      · exact hstamped
      · split
        · exact fun _ ht => nomatch ht
        · exact hstamped

theorem kept_sampleProcessModuleCode {r : Request κ}
    (hrequested : ∀ t ∈ s.slot, t.target = r.target → t.requested = s.now) :
    Kept (s.sampleProcessModuleCode r) := by
  unfold sampleProcessModuleCode
  split
  · next hsame => exact kept_stamp_of_sameTarget hsame hrequested
  · dsimp only
    split
    · split
      · exact kept_install { s with slot := none } r.target s.generation (s.generation + 1)
      · exact fun _ ht => nomatch ht
    · exact fun _ ht => nomatch ht

theorem kept_processModuleCodeSamples {r : Request κ}
    (hrequested : ∀ t ∈ s.slot, t.target = r.target → t.requested = s.now)
    (hmeets : r.listed = false → Kept s) : Kept (s.processModuleCodeSamples r) := by
  unfold processModuleCodeSamples
  split
  · next hfails => exact hmeets (by simpa using hfails)
  · exact kept_sampleProcessModuleCode hrequested

/-- Any trace after the note is a trace before, asked for now if the request is for it. -/
theorem of_mem_noteRequest {r : Request κ} {t' : ActiveTrace κ}
    (ht' : t' ∈ (s.noteRequest kind r).slot) :
    ∃ t ∈ s.slot, t'.target = t.target ∧ t'.running = t.running ∧
      t'.lastRequest = t.lastRequest ∧ (isFor kind r t = false → t' = t) := by
  obtain ⟨t, ht, rfl⟩ := Option.map_eq_some_iff.mp ht'
  refine ⟨t, ht, ?_⟩
  split
  · next hfor => exact ⟨rfl, rfl, rfl, fun hother => absurd hfor (by simp [hother])⟩
  · exact ⟨rfl, rfl, rfl, fun _ => rfl⟩

/-- A request for the process of a trace that was stamped before leaves nothing to be stamped where
there is no such trace. -/
theorem Kept.noteRequest_of_met (h : Kept s) (hinv : Inv kind late s) {r : Request κ}
    (hmet : ∀ t ∈ s.slot, t.lastRequest < s.now → ¬ isFor kind r t = true) :
    Kept (s.noteRequest kind r) := by
  intro t' ht'
  have hle := ((hinv.noteRequest r).stamped t' ht').2
  obtain ⟨t, ht, rfl⟩ := Option.map_eq_some_iff.mp ht'
  by_cases hfor : isFor kind r t = true
  · have hold : ¬ t.lastRequest < s.now := fun hlt => hmet t ht hlt hfor
    have hnow := (hinv.stamped t ht).2
    rw [if_pos hfor]
    exact (le_antisymm (not_lt.mp hold) hnow)
  · rw [if_neg hfor]
    exact h t ht

theorem Kept.request (h : Kept s) (hinv : Inv kind late s) {r : Request κ}
    (hmeets : Stamped kind s (.request r)) : Kept ((s.noteRequest kind r).request kind r) := by
  have hrequested : ∀ t ∈ (s.noteRequest kind r).slot, isFor kind r t = true →
      t.requested = s.now := fun _ ht => requested_noteRequest s ht
  have hnow : ∀ t ∈ (s.noteRequest kind r).slot, t.lastRequest ≤ s.now :=
    fun t ht => ((hinv.noteRequest r).stamped t ht).2
  cases kind with
  | network =>
    refine kept_processNetworkSample (fun t ht => hrequested t ht rfl) (fun t' ht' hlt => ?_) hnow
    obtain ⟨t, ht, -, hrunning, hlast, -⟩ := of_mem_noteRequest ht'
    rw [hrunning]
    rw [hlast] at hlt
    exact hmeets t ht hlt
  | disk =>
    refine kept_processDiskSample (fun t ht => hrequested t ht rfl) (fun t' ht' hlt => ?_) hnow
    obtain ⟨t, ht, -, hrunning, hlast, -⟩ := of_mem_noteRequest ht'
    rw [hrunning]
    rw [hlast] at hlt
    exact hmeets t ht hlt
  | modules =>
    refine kept_protectedProcessModules (fun t ht hfor => hrequested t ht (decide_eq_true hfor))
      fun hgone => h.noteRequest_of_met hinv fun t ht hlt hfor => ?_
    have hexists := hmeets t ht hlt (of_decide_eq_true hfor)
    rw [hgone] at hexists
    cases hexists
  | samples =>
    refine kept_processModuleCodeSamples (fun t ht hfor => hrequested t ht (decide_eq_true hfor))
      fun hfails => h.noteRequest_of_met hinv fun t ht hlt hfor => ?_
    have hlisted := hmeets t ht hlt (of_decide_eq_true hfor)
    rw [hfails] at hlisted
    cases hlisted

theorem Kept.step (h : Kept s) (hinv : Inv kind late s) {a : Action κ} (ha : Stamped kind s a)
    (hs : step kind late s a = some s') : Kept s' := by
  cases a with
  | advance ns =>
    obtain ⟨-, ⟨⟩⟩ := Option.ite_none_right_eq_some.mp hs
    exact h
  | ends =>
    cases hs
    intro t' ht'
    obtain ⟨t, ht, rfl⟩ := Option.map_eq_some_iff.mp ht'
    exact h t ht
  | request r =>
    cases hs
    exact h.request hinv ha
  | wake index =>
    obtain ⟨pre, w, post, -, rfl⟩ := step_wake hs
    intro t ht
    dsimp only at ht
    unfold wake at ht
    split at ht
    · exact h t ht
    · split at ht
      · exact h t ht
      · dsimp only at ht
        split at ht
        · exact nomatch ht
        · exact h t ht

/-- A watchdog stops a trace that was stamped when it was last asked for. -/
theorem Kept.notEarly (h : Kept s) (hinv : Inv kind late s) (a : Action κ) :
    NotEarly kind late s a := by
  cases a with
  | advance | ends | request => trivial
  | wake index =>
    intro s' hs' hnone t ht
    obtain ⟨pre, w, post, -, rfl⟩ := step_wake hs'
    rw [h t ht]
    exact idle_of_wake (fun t ht => (hinv.stamped t ht).2) hnone t ht

end Process

end Step

/-! ### Whole runs -/

section Runs

variable [DecidableEq κ] {kind : HostedKind} {late : ℕ} {as : List (Action κ)}

/-- **Idle traces are stopped, whatever the requests meet.** -/
theorem throughout_watched :
    Machine.Throughout (step kind late) (Watched kind late) ({} : HostedTrace κ) as :=
  fun _ _ _ hrun => (Machine.invariant (fun _ _ _ h hs => h.step hs) Inv.start hrun).watched

/-- **Idle traces are stopped, and no trace is stopped that is not idle, in every run whose requests
stamp the time.** -/
theorem idles_of_stamped (hstamped : Machine.Along (step kind late) (Stamped kind) {} as) :
    Machine.Throughout (step kind late) (Watched kind late) {} as ∧
      Machine.Along (step kind late) (NotEarly kind late) {} as := by
  refine ⟨throughout_watched, ?_⟩
  have hstart : Inv kind late ({} : HostedTrace κ) ∧ Kept ({} : HostedTrace κ) :=
    ⟨Inv.start, fun _ ht => nomatch ht⟩
  exact hstamped.of_invariant (I := fun s => Inv kind late s ∧ Kept s)
    (fun s a s' h ha hs => ⟨h.1.step hs, h.2.step h.1 ha hs⟩)
    (fun s a h _ => h.2.notEarly h.1 a) hstart

end Runs

/-! ### A disk trace that is restarted -/

/-- Whatever a request may meet, it meets. -/
def answered : Request Unit := ⟨(), true, true, true, true, true, true⟩

/-- A second. -/
def second : ℕ := 1000000000

/-- The disk trace is started, its session ends, and twenty seconds later a request restarts it. -/
def restarted : List (Action Unit) :=
  [.request answered, .wake 0, .ends, .advance (20 * second), .request answered,
    .advance (10 * second), .wake 0]

/-- The same for the network trace, until it idles out. -/
def idledOut : List (Action Unit) :=
  restarted ++ [.advance (20 * second), .wake 0]

theorem idles_of_stamped_idledOut :
    (∃ s ∈ Machine.exec (step .network 0) ({} : HostedTrace Unit) idledOut, s.slot = none) ∧
      Machine.Throughout (step .network 0) (Watched .network 0) {} idledOut ∧
      Machine.Along (step .network 0) (NotEarly .network 0) {} idledOut :=
  ⟨by decide +kernel, idles_of_stamped (by decide +kernel)⟩

/-- The watchdog stops the disk trace ten seconds after the request. -/
theorem not_idles_restarted :
    (∃ s ∈ Machine.exec (step .disk 0) ({} : HostedTrace Unit) restarted, s.slot = none) ∧
      ¬ Machine.Along (step .disk 0) (NotEarly .disk 0) {} restarted := by
  constructor <;> decide +kernel

end HostedTrace

end Taskman.Etw
