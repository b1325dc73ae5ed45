import Taskman.Core.Engine
import Mathlib.Data.List.Forall2

/-!
# What makes the engine sample

The collector keeps a record of the samples it is asked for (`SystemCollector.recording`), so a run
of the engine shows every attempt.  Next to it, `sampleCause` reads off the state before a step
whether the engine has a reason to sample: a deadline that has expired while it runs, a `Refresh`, a
`SampleNow`, or the `Start` of a paused engine.

* `step_effect` : one step takes one sample if it has a cause, and none otherwise;
* `sampling_law` : **the attempts of a run are its causes, one for one; the tick count and the
  published snapshot are those of the successful ones**;
* `answered_iff` : **a `SampleNow` is answered unless it was received before `Start`**.
-/

namespace Taskman

/-- One call of the collector's `sample`. -/
structure Attempt where
  time : ℕ
  result : Except TmError Snapshot
  deriving DecidableEq

/-- The snapshot of a successful attempt. -/
def Attempt.snapshot (a : Attempt) : Option Snapshot :=
  match a.result with
  | .ok snap => some snap
  | .error _ => none

variable {σ : Type*}

/-- The collector, keeping a record of the samples it was asked for, newest first. -/
def SystemCollector.recording (api : SystemCollector σ) :
    SystemCollector (σ × List Attempt) where
  factory := (api.factory, [])
  sample c now := ((api.sample c.1 now).1, ((api.sample c.1 now).2,
    ⟨now, (api.sample c.1 now).1⟩ :: c.2))
  setDemand c d := (api.setDemand c.1 d, c.2)
  setBackground c b := (api.setBackground c.1 b, c.2)

/-- Why the engine samples. -/
inductive SampleCause where
  /-- A cadence deadline has expired while running. -/
  | deadline
  | refresh
  | sampleNow (reply : ℕ)
  /-- The start of an engine that was paused before. -/
  | start
  deriving DecidableEq

/-- A `SampleNow` the engine has received. -/
structure SampleRequest where
  reply : ℕ
  time : ℕ
  /-- The engine had not been started. -/
  parked : Bool
  deriving DecidableEq

namespace EngineSystem

/-- The cause the next step has for a sample, if any. -/
def sampleCause (s : EngineSystem σ) : EngineAction → Option SampleCause
  | .engine =>
    match s.phase with
    | .parked pending =>
      match s.queue with
      | .start :: _ => if pending.paused then some .start else none
      | _ => none
    | .looping l =>
      match l.point with
      | .top => if s.shared.state = .running ∧ l.nextDue ≤ s.now then some .deadline else none
      | .waiting _ =>
        match s.queue with
        | .refresh :: _ => some .refresh
        | .sampleNow reply :: _ => some (.sampleNow reply)
        | _ => none
    | .stopped => none
  | _ => none

/-- The `SampleNow` the next step receives, if any. -/
def requestReceived (s : EngineSystem σ) : EngineAction → Option SampleRequest
  | .engine =>
    match s.phase, s.queue with
    | .parked _, .sampleNow reply :: _ => some ⟨reply, s.now, true⟩
    | .looping l, .sampleNow reply :: _ =>
      match l.point with
      | .top => none
      | .waiting _ => some ⟨reply, s.now, false⟩
    | _, _ => none
  | _ => none

/-- The record of the collector, while there is one. -/
def record (s : EngineSystem (σ × List Attempt)) : List Attempt :=
  match s.phase with
  | .looping l => l.collector.state.2
  | _ => []

end EngineSystem

/-- The engine, with what has been seen of it so far, newest first. -/
structure ObservedEngine (σ : Type*) where
  sys : EngineSystem (σ × List Attempt)
  attempts : List Attempt := []
  causes : List (SampleCause × ℕ) := []
  received : List SampleRequest := []
  deriving DecidableEq

namespace ObservedEngine

variable (api : SystemCollector σ)

/-- The attempts a step has added to the collector's record. -/
def newAttempts (s t : EngineSystem (σ × List Attempt)) : List Attempt :=
  t.record.take (t.record.length - s.record.length)

/-- A step of the engine, observed. -/
def step (o : ObservedEngine σ) (a : EngineAction) : Option (ObservedEngine σ) :=
  (o.sys.step api.recording a).map fun t =>
    { sys := t
      attempts := newAttempts o.sys t ++ o.attempts
      causes := (o.sys.sampleCause a).toList.map (·, o.sys.now) ++ o.causes
      received := (o.sys.requestReceived a).toList ++ o.received }

/-- A spawned engine, parked or at once in its loop. -/
def spawned (interval : ℕ) (startImmediately : Bool) : ObservedEngine σ where
  sys := if startImmediately then EngineSystem.spawn api.recording interval
    else EngineSystem.spawnLazy interval

end ObservedEngine

/-! ### One sample -/

/-- What an attempt publishes: a failed one nothing. -/
def Attempt.Publishes (a : Attempt) (shared shared' : Shared) : Prop :=
  match a.result with
  | .ok snap => shared'.latest = some snap ∧ shared'.tickCount = shared.tickCount + 1
  | .error _ => shared'.latest = shared.latest ∧ shared'.tickCount = shared.tickCount

variable {api : SystemCollector σ}

/-- **A sample is one attempt**, made now, and publishes what the attempt yields. -/
theorem healthSample_recording (api : SystemCollector σ) (c : LiveCollector (σ × List Attempt))
    (shared : Shared) (now : ℕ) :
    ∃ a : Attempt, a.time = now ∧ a.result = (api.sample c.state.1 now).1 ∧
      (healthSample api.recording c shared now).1.state.2 = a :: c.state.2 ∧
      a.Publishes shared (healthSample api.recording c shared now).2.1 ∧
      (healthSample api.recording c shared now).2.2 = a.snapshot := by
  refine ⟨⟨now, (api.sample c.state.1 now).1⟩, rfl, rfl, ?_⟩
  unfold healthSample SystemCollector.recording Attempt.Publishes Attempt.snapshot
  dsimp only
  split <;> rename_i heq <;> obtain ⟨hr, rfl⟩ := Prod.mk.inj heq <;> rw [hr] <;>
    exact ⟨rfl, ⟨rfl, rfl⟩, rfl⟩

/-- A sample stops nothing. -/
theorem healthSample_state_eq (api : SystemCollector σ) (c : LiveCollector σ) (shared : Shared)
    (now : ℕ) :
    (healthSample api c shared now).2.1.state = shared.state ∨
      (healthSample api c shared now).2.1.state = .paused := by
  unfold healthSample
  split
  · exact Or.inl rfl
  · exact Or.inr rfl
  · exact Or.inl rfl

/-! ### One step -/

/-- The replies a caused attempt sends. -/
def repliesOf (cause : SampleCause) (a : Attempt) : List (ℕ × Snapshot) :=
  match cause with
  | .sampleNow reply => a.snapshot.toList.map (reply, ·)
  | _ => []

namespace EngineSystem

/-- What a step does about sampling: with a cause, one attempt is made now and published; without
one nothing is sampled, published or replied. -/
def SampleEffect (api : SystemCollector σ) (s t : EngineSystem (σ × List Attempt)) :
    Option SampleCause → Prop
  | none => (t.record = s.record ∨ t.phase = .stopped) ∧ t.shared.latest = s.shared.latest ∧
      t.shared.tickCount = s.shared.tickCount ∧ t.replies = s.replies
  | some cause => ∃ a : Attempt, a.time = s.now ∧ (∃ c, a.result = (api.sample c s.now).1) ∧
      t.record = a :: s.record ∧ a.Publishes s.shared t.shared ∧
      t.replies = repliesOf cause a ++ s.replies

theorem buildCollector_record (api : SystemCollector σ) (p : Pending) :
    (buildCollector api.recording p).state.2 = [] := by
  obtain ⟨demand, background, paused⟩ := p
  cases demand <;> cases background <;> rfl

/-- Entering the loop samples only where the engine was paused before. -/
theorem enterLoop_effect (api : SystemCollector σ) {s : EngineSystem (σ × List Attempt)}
    {p : Pending} (hs : s.phase = .parked p) :
    SampleEffect api s (s.enterLoop api.recording p) (if p.paused then some .start else none) := by
  have hrec := buildCollector_record api p
  have hnil : s.record = [] := by simp only [record, hs]
  unfold enterLoop
  split_ifs with hp
  · obtain ⟨a, ht, hres, hr, hpub, -⟩ := healthSample_recording api
      (buildCollector api.recording p) { s.shared with state := .running } s.now
    refine ⟨a, ht, ⟨_, hres⟩, ?_, ?_, rfl⟩
    · simp only [record, hr, hrec, hs]
    · unfold Attempt.Publishes at hpub ⊢
      split at hpub <;> exact hpub
  · refine ⟨Or.inl ?_, rfl, rfl, rfl⟩
    rw [hnil]
    exact hrec

theorem parkedRecv_effect (api : SystemCollector σ) {s : EngineSystem (σ × List Attempt)}
    {p : Pending} (hs : s.phase = .parked p) (cmd : EngineCmd) :
    SampleEffect api s (s.parkedRecv api.recording p cmd)
      (if cmd = .start ∧ p.paused then some .start else none) := by
  by_cases hcmd : cmd = .start
  · subst hcmd
    have h := enterLoop_effect api hs
    simpa only [true_and, parkedRecv] using h
  · rw [if_neg fun h => hcmd h.1]
    have hrec : ∀ q : Pending, EngineSystem.record
        ({ s with phase := .parked q } : EngineSystem (σ × List Attempt)) = s.record := by
      intro q
      simp only [record, hs]
    cases cmd with
    | start => exact absurd rfl hcmd
    | setInterval i => exact ⟨Or.inl rfl, rfl, rfl, rfl⟩
    | shutdown => exact ⟨Or.inr rfl, rfl, rfl, rfl⟩
    | refresh => exact ⟨Or.inl rfl, rfl, rfl, rfl⟩
    | sampleNow r => exact ⟨Or.inl rfl, rfl, rfl, rfl⟩
    | _ => exact ⟨Or.inl (hrec _), rfl, rfl, rfl⟩

/-- The top of the loop samples where a deadline has expired while running. -/
theorem loopTop_effect (api : SystemCollector σ) {s : EngineSystem (σ × List Attempt)}
    {l : SamplingLoop (σ × List Attempt)} (hs : s.phase = .looping l) :
    SampleEffect api s (s.loopTop api.recording l)
      (if s.shared.state = .running ∧ l.nextDue ≤ s.now then some .deadline else none) := by
  unfold loopTop
  split_ifs with hdue
  · obtain ⟨a, ht, hres, hr, hpub, -⟩ := healthSample_recording api l.collector s.shared
      s.now
    refine ⟨a, ht, ⟨_, hres⟩, ?_, hpub, rfl⟩
    simp only [record, hr, hs]
  · refine ⟨Or.inl ?_, rfl, rfl, rfl⟩
    simp only [record, hs]

/-- The cause a received command is for a sample of the running loop. -/
def commandCause : EngineCmd → Option SampleCause
  | .refresh => some .refresh
  | .sampleNow reply => some (.sampleNow reply)
  | _ => none

theorem loopRecv_effect (api : SystemCollector σ) {s : EngineSystem (σ × List Attempt)}
    {l : SamplingLoop (σ × List Attempt)} (hs : s.phase = .looping l) (cmd : EngineCmd) :
    SampleEffect api s (s.loopRecv api.recording l cmd) (commandCause cmd) := by
  obtain ⟨a, ht, hres, hr, hpub, hsnap⟩ := healthSample_recording api l.collector s.shared
    s.now
  cases cmd with
  | refresh =>
    refine ⟨a, ht, ⟨_, hres⟩, ?_, hpub, rfl⟩
    simp only [loopRecv, record, hr, hs]
  | sampleNow reply =>
    refine ⟨a, ht, ⟨_, hres⟩, ?_, hpub, ?_⟩
    · simp only [loopRecv, record, hr, hs]
    · simp only [loopRecv, hsnap, repliesOf]
      cases a.snapshot <;> rfl
  | shutdown => exact ⟨Or.inr rfl, rfl, rfl, rfl⟩
  | resume =>
    unfold loopRecv
    split_ifs
    · exact ⟨Or.inl (by simp only [record, hs]), rfl, rfl, rfl⟩
    · exact ⟨Or.inl (by simp only [record, hs]), rfl, rfl, rfl⟩
  | _ => exact ⟨Or.inl (by simp only [loopRecv, record, hs, LiveCollector.setDemand,
      LiveCollector.setBackground, SystemCollector.recording]), rfl, rfl, rfl⟩

/-- A sent command reaches the queue, and a new interval the shared state; nothing else. -/
theorem handleSend_frame (s : EngineSystem σ) (cmd : EngineCmd) :
    (s.handleSend cmd).phase = s.phase ∧ (s.handleSend cmd).replies = s.replies ∧
      (s.handleSend cmd).shared.latest = s.shared.latest ∧
      (s.handleSend cmd).shared.tickCount = s.shared.tickCount ∧
      (s.handleSend cmd).shared.state = s.shared.state := by
  unfold handleSend
  cases cmd <;> cases hp : s.phase <;> simp [hp]

/-- The moves of the engine thread. -/
inductive Move (api : SystemCollector σ) (s t : EngineSystem σ) : Prop
  | parkedRecv (p : Pending) (cmd : EngineCmd) (queue : List EngineCmd)
      (hp : s.phase = .parked p) (hq : s.queue = cmd :: queue)
      (ht : t = EngineSystem.parkedRecv api { s with queue := queue } p cmd)
  | top (l : SamplingLoop σ) (hp : s.phase = .looping l) (hl : l.point = .top)
      (ht : t = s.loopTop api l)
  | loopRecv (l : SamplingLoop σ) (wakeAt : ℕ) (cmd : EngineCmd) (queue : List EngineCmd)
      (hp : s.phase = .looping l) (hl : l.point = .waiting wakeAt) (hq : s.queue = cmd :: queue)
      (ht : t = EngineSystem.loopRecv api { s with queue := queue } l cmd)
  | timeout (l : SamplingLoop σ) (wakeAt : ℕ) (hp : s.phase = .looping l)
      (hl : l.point = .waiting wakeAt) (hq : s.queue = [])
      (ht : t = { s with phase := .looping { l with point := .top } })
  | disconnected (hp : ∀ l, s.phase = .looping l → l.point ≠ .top) (hq : s.queue = [])
      (ht : t = s.stop)

theorem move_of_engineMove {s t : EngineSystem σ} (h : s.engineMove api = some t) :
    Move api s t := by
  obtain ⟨p | l | _, shared, queue, now, connected, replies⟩ := s
  · rcases queue with _ | ⟨cmd, queue⟩
    · simp only [engineMove] at h
      split_ifs at h
      exact .disconnected nofun rfl (Option.some.inj h).symm
    · exact .parkedRecv p cmd queue rfl rfl (Option.some.inj h).symm
  · obtain ⟨c, lastTick, nextDue, _ | wakeAt⟩ := l
    · exact .top _ rfl rfl (Option.some.inj h).symm
    · rcases queue with _ | ⟨cmd, queue⟩
      · simp only [engineMove] at h
        split_ifs at h
        · refine .disconnected ?_ rfl (Option.some.inj h).symm
          rintro l ⟨⟩
          exact nofun
        · exact .timeout _ wakeAt rfl rfl rfl (Option.some.inj h).symm
      · exact .loopRecv _ wakeAt cmd queue rfl rfl rfl (Option.some.inj h).symm
  · cases h

/-- With nothing received there is no cause but an expired deadline. -/
theorem sampleCause_of_queue_nil {s : EngineSystem σ} (hq : s.queue = [])
    (hp : ∀ l, s.phase = .looping l → l.point ≠ .top) : s.sampleCause .engine = none := by
  unfold sampleCause
  dsimp only
  rcases hph : s.phase with p | l | _
  · rw [hq]
  · dsimp only
    rcases hl : l.point with _ | w
    · exact absurd hl (hp l hph)
    · rw [hq]
  · rfl

/-- **One step takes one sample if it has a cause, and none otherwise.** -/
theorem step_effect {s t : EngineSystem (σ × List Attempt)} {a : EngineAction}
    (h : s.step api.recording a = some t) : SampleEffect api s t (s.sampleCause a) := by
  -- what leaves the phase and the published values alone takes no sample
  have hquiet : ∀ u : EngineSystem (σ × List Attempt), u.phase = s.phase →
      u.shared.latest = s.shared.latest → u.shared.tickCount = s.shared.tickCount →
      u.replies = s.replies → SampleEffect api s u none := by
    intro u hp hl ht hr
    exact ⟨Or.inl (by rw [record, record, hp]), hl, ht, hr⟩
  cases a with
  | send cmd =>
    obtain ⟨-, ht⟩ := Option.ite_none_right_eq_some.mp h
    obtain rfl := Option.some.inj ht
    obtain ⟨hp, hr, hl, ht, -⟩ := handleSend_frame s cmd
    exact hquiet _ hp hl ht hr
  | dropHandles =>
    obtain rfl := Option.some.inj h
    exact hquiet _ rfl rfl rfl rfl
  | elapse dt =>
    obtain rfl := Option.some.inj h
    exact hquiet _ rfl rfl rfl rfl
  | engine =>
    -- the thread receives while parked, comes to the top of its loop, receives in the loop, finds
    -- its deadline expired, or finds no handle left
    rcases move_of_engineMove h with ⟨p, cmd, queue, hp, hq, rfl⟩ | ⟨l, hp, hl, rfl⟩ |
      ⟨l, w, cmd, queue, hp, hl, hq, rfl⟩ | ⟨l, w, hp, hl, hq, rfl⟩ | ⟨hp, hq, rfl⟩
    · have heff := parkedRecv_effect api
        (s := { s with queue := queue }) hp cmd
      have hcause : s.sampleCause .engine =
          if cmd = .start ∧ p.paused then some .start else none := by
        unfold sampleCause
        rw [hp, hq]
        cases cmd <;> simp
      rw [hcause]
      exact heff
    · have heff := loopTop_effect api hp
      have hcause : s.sampleCause .engine =
          if s.shared.state = .running ∧ l.nextDue ≤ s.now then some .deadline else none := by
        unfold sampleCause
        rw [hp]
        dsimp only
        rw [hl]
      rw [hcause]
      exact heff
    · have heff := loopRecv_effect api
        (s := { s with queue := queue }) hp cmd
      have hcause : s.sampleCause .engine = commandCause cmd := by
        unfold sampleCause
        rw [hp]
        dsimp only
        rw [hl, hq]
        cases cmd <;> rfl
      rw [hcause]
      exact heff
    · rw [sampleCause_of_queue_nil hq (by
        intro l' hl'
        rw [hp] at hl'
        obtain rfl := EnginePhase.looping.inj hl'
        rw [hl]
        exact nofun)]
      exact ⟨Or.inl (by simp only [record, hp]), rfl, rfl, rfl⟩
    · rw [sampleCause_of_queue_nil hq hp]
      exact ⟨Or.inr rfl, rfl, rfl, rfl⟩

/-! ### Stopping -/

/-- A live thread leaves the mode alone, runs or pauses. -/
def Keeps (s t : EngineSystem σ) : Prop :=
  t.phase ≠ .stopped ∧ (t.shared.state = s.shared.state ∨ t.shared.state = .running ∨
    t.shared.state = .paused)

theorem keeps_of_sample {s t : EngineSystem σ} (hp : t.phase ≠ .stopped) (c : LiveCollector σ)
    (now : ℕ) (ht : t.shared.state = (healthSample api c s.shared now).2.1.state) :
    Keeps s t := by
  refine ⟨hp, ?_⟩
  rcases healthSample_state_eq api c s.shared now with hst | hst
  · exact Or.inl (ht.trans hst)
  · exact Or.inr (Or.inr (ht.trans hst))

theorem stops_or_keeps {s t : EngineSystem σ} (h : Move api s t) :
    (t.phase = .stopped ∧ t.shared.state = .stopped) ∨ Keeps s t := by
  -- only a Shutdown, parked or in the loop, and the loss of all handles end the thread
  rcases h with ⟨p, cmd, queue, hp, -, rfl⟩ | ⟨l, -, -, rfl⟩ | ⟨l, w, cmd, queue, -, -, -, rfl⟩ |
    ⟨l, w, -, -, -, rfl⟩ | ⟨-, -, rfl⟩
  · have hparked : s.phase ≠ .stopped := by
      rw [hp]
      exact nofun
    cases cmd with
    | start =>
      right
      simp only [parkedRecv, enterLoop]
      split_ifs
      · exact ⟨nofun, Or.inr (Or.inr rfl)⟩
      · exact ⟨nofun, Or.inr (Or.inl rfl)⟩
    | shutdown => exact Or.inl ⟨rfl, rfl⟩
    | setInterval i => exact Or.inr ⟨hparked, Or.inl rfl⟩
    | refresh => exact Or.inr ⟨hparked, Or.inl rfl⟩
    | sampleNow r => exact Or.inr ⟨hparked, Or.inl rfl⟩
    | _ => exact Or.inr ⟨nofun, Or.inl rfl⟩
  · right
    unfold loopTop
    split_ifs
    · exact keeps_of_sample nofun l.collector s.now rfl
    · exact ⟨nofun, Or.inl rfl⟩
  · cases cmd with
    | shutdown => exact Or.inl ⟨rfl, rfl⟩
    | pause => exact Or.inr ⟨nofun, Or.inr (Or.inr rfl)⟩
    | resume =>
      right
      unfold loopRecv
      split_ifs
      · exact ⟨nofun, Or.inl rfl⟩
      · exact ⟨nofun, Or.inr (Or.inl rfl)⟩
    | refresh => exact Or.inr (keeps_of_sample nofun l.collector s.now rfl)
    | sampleNow r => exact Or.inr (keeps_of_sample nofun l.collector s.now rfl)
    | _ => exact Or.inr ⟨nofun, Or.inl rfl⟩
  · exact Or.inr ⟨nofun, Or.inl rfl⟩
  · exact Or.inl ⟨rfl, rfl⟩

/-- The engine is stopped only once its thread has left the loop. -/
def StopsLast (s : EngineSystem σ) : Prop := s.shared.state = .stopped ↔ s.phase = .stopped

theorem StopsLast.step {s t : EngineSystem σ} (hs : StopsLast s) {a : EngineAction}
    (h : s.step api a = some t) :
    StopsLast t ∧ (s.shared.state = .stopped → t.shared.state = .stopped) := by
  cases a with
  | send cmd =>
    obtain ⟨-, ht⟩ := Option.ite_none_right_eq_some.mp h
    obtain rfl := Option.some.inj ht
    obtain ⟨hp, -, -, -, hst⟩ := handleSend_frame s cmd
    unfold StopsLast at hs ⊢
    rw [hp, hst]
    exact ⟨hs, id⟩
  | dropHandles =>
    obtain rfl := Option.some.inj h
    exact ⟨hs, id⟩
  | elapse dt =>
    obtain rfl := Option.some.inj h
    exact ⟨hs, id⟩
  | engine =>
    -- a thread that moves has not left its loop
    have hlive : s.shared.state ≠ .stopped := by
      intro hst
      have h' : s.engineMove api = some t := h
      rw [engineMove, hs.mp hst] at h'
      cases h'
    refine ⟨?_, fun hst => absurd hst hlive⟩
    rcases stops_or_keeps (move_of_engineMove h) with ⟨hp, hst⟩ | ⟨hp, hkeep⟩
    · exact ⟨fun _ => hp, fun _ => hst⟩
    · refine ⟨fun hst => ?_, fun hp' => absurd hp' hp⟩
      rw [hst] at hkeep
      rcases hkeep with hsame | hrun | hpause
      · exact absurd hsame.symm hlive
      · cases hrun
      · cases hpause

end EngineSystem

namespace ObservedEngine

open EngineSystem

theorem newAttempts_none {s t : EngineSystem (σ × List Attempt)} (h : SampleEffect api s t none) :
    newAttempts s t = [] := by
  rcases h.1 with hr | hp
  · rw [newAttempts, hr, Nat.sub_self, List.take_zero]
  · simp [newAttempts, record, hp]

theorem newAttempts_some {s t : EngineSystem (σ × List Attempt)} {a : Attempt}
    (h : t.record = a :: s.record) : newAttempts s t = [a] := by
  rw [newAttempts, h, List.length_cons, Nat.add_sub_cancel_left]
  rfl

/-- The snapshots of the successful attempts, newest first. -/
def successes (o : ObservedEngine σ) : List Snapshot := o.attempts.filterMap Attempt.snapshot

/-- What every run keeps: attempts and causes in step, and what is published is what succeeded. -/
structure Sound (o : ObservedEngine σ) : Prop where
  paired : o.attempts.map Attempt.time = o.causes.map Prod.snd
  count : o.sys.shared.tickCount = o.successes.length
  latest : o.sys.shared.latest = o.successes.head?
  stopsLast : StopsLast o.sys

theorem Sound.step {o o' : ObservedEngine σ} (ho : o.Sound) {a : EngineAction}
    (h : o.step api a = some o') : o'.Sound := by
  obtain ⟨t, ht, rfl⟩ := Option.map_eq_some_iff.mp h
  have heff := step_effect ht
  have hstop := (ho.stopsLast.step ht).1
  rcases hc : o.sys.sampleCause a with _ | cause
  · rw [hc] at heff
    have hnew := newAttempts_none heff
    obtain ⟨-, hl, htick, -⟩ := heff
    refine ⟨?_, ?_, ?_, hstop⟩
    · simpa [hnew, hc] using ho.paired
    · simpa [hnew, successes, htick] using ho.count
    · simpa [hnew, successes, hl] using ho.latest
  · rw [hc] at heff
    obtain ⟨x, hx, -, hrec, hpub, -⟩ := heff
    -- the attempt is the newest of the log, its cause the newest of the causes
    have hnew := newAttempts_some hrec
    refine ⟨?_, ?_, ?_, hstop⟩
    · simpa [hnew, hc, hx] using ho.paired
    · have := ho.count
      unfold Attempt.Publishes at hpub
      simp only [successes] at this ⊢
      rcases hres : x.result with e | snap <;> rw [hres] at hpub <;>
        simp [hnew, Attempt.snapshot, hres, hpub.2, this]
    · have := ho.latest
      unfold Attempt.Publishes at hpub
      simp only [successes] at this ⊢
      rcases hres : x.result with e | snap <;> rw [hres] at hpub <;>
        simp [hnew, Attempt.snapshot, hres, hpub.1, this]

theorem sound_spawned (api : SystemCollector σ) (interval : ℕ) (now : Bool) :
    (spawned api interval now).Sound := by
  cases now
  · exact ⟨rfl, rfl, rfl, by simp [spawned, spawnLazy, StopsLast]⟩
  · exact ⟨rfl, rfl, rfl, by simp [spawned, spawn, enterLoop, StopsLast]⟩

/-- One step, seen from outside. -/
def StepLaw (o o' : ObservedEngine σ) (a : EngineAction) : Prop :=
  match o.sys.sampleCause a with
  | none => o'.attempts = o.attempts ∧ o'.sys.shared.latest = o.sys.shared.latest ∧
      o'.sys.shared.tickCount = o.sys.shared.tickCount
  | some _ => ∃ x : Attempt, o'.attempts = x :: o.attempts ∧ x.time = o.sys.now ∧
      x.Publishes o.sys.shared o'.sys.shared

theorem stepLaw {o o' : ObservedEngine σ} {a : EngineAction} (h : o.step api a = some o') :
    StepLaw o o' a := by
  obtain ⟨t, ht, rfl⟩ := Option.map_eq_some_iff.mp h
  have heff := step_effect ht
  unfold StepLaw
  rcases hc : o.sys.sampleCause a with _ | cause
  · rw [hc] at heff
    refine ⟨?_, heff.2.1, heff.2.2.1⟩
    rw [newAttempts_none heff, List.nil_append]
  · rw [hc] at heff
    obtain ⟨x, hx, -, hrec, hpub, -⟩ := heff
    refine ⟨x, ?_, hx, hpub⟩
    rw [newAttempts_some hrec, List.singleton_append]

theorem Sound.run {o o' : ObservedEngine σ} (ho : o.Sound) {as : List EngineAction}
    (h : Machine.exec (ObservedEngine.step api) o as = some o') : o'.Sound :=
  Machine.invariant (fun _ _ _ hs hstep => Sound.step hs hstep) ho h

theorem stopped_run {o o' : ObservedEngine σ} (ho : o.Sound) {as : List EngineAction}
    (h : Machine.exec (step api) o as = some o') (hst : o.sys.shared.state = .stopped) :
    o'.sys.shared.state = .stopped := by
  have hinv : ∀ (s : ObservedEngine σ) (a : EngineAction) (s' : ObservedEngine σ),
      s.Sound ∧ s.sys.shared.state = .stopped → s.step api a = some s' →
      s'.Sound ∧ s'.sys.shared.state = .stopped := by
    rintro s a s' ⟨hs, hstate⟩ hstep
    obtain ⟨t, ht, rfl⟩ := Option.map_eq_some_iff.mp hstep
    exact ⟨hs.step hstep, (hs.stopsLast.step ht).2 hstate⟩
  exact (Machine.invariant hinv ⟨ho, hst⟩ h).2

/-! ### The sampling law -/

/-- **In every run the attempts are the causes, one for one; the tick count and the published
snapshot are those of the successful attempts; and a stopped engine stays stopped.** -/
theorem sampling_law (api : SystemCollector σ) (interval : ℕ) (startImmediately : Bool)
    {as : List EngineAction} {o : ObservedEngine σ}
    (hrun : Machine.exec (step api) (spawned api interval startImmediately) as = some o) :
    o.attempts.map Attempt.time = o.causes.map Prod.snd ∧
      o.sys.shared.tickCount = o.successes.length ∧
      o.sys.shared.latest = o.successes.head? ∧
      (∀ a o', o.step api a = some o' → StepLaw o o' a) ∧
      (∀ bs o', Machine.exec (step api) o bs = some o' → o.sys.shared.state = .stopped →
        o'.sys.shared.state = .stopped) := by
  have hsound := (sound_spawned api interval startImmediately).run hrun
  exact ⟨hsound.paired, hsound.count, hsound.latest, fun _ _ h => stepLaw h,
    fun _ _ h => stopped_run hsound h⟩

/-- A collector whose samples succeed; it counts them. -/
def countingCollector : SystemCollector ℕ where
  factory := 0
  sample n _ := (.ok { processes := [], system := ⟨n⟩ }, n + 1)
  setDemand n _ := n
  setBackground n _ := n

/-- Started, two deadlines of one second, a refresh while paused, and the end. -/
def tickingRun : List EngineAction :=
  [.send .start, .engine, .engine, .elapse (10 ^ 9), .engine, .engine, .send .pause, .engine,
    .engine, .send .refresh, .engine, .engine, .send .shutdown, .engine]

theorem sampling_law_ticking :
    ∃ o : ObservedEngine ℕ,
      Machine.exec (step countingCollector) (spawned countingCollector (10 ^ 9) false) tickingRun =
        some o ∧
      o.causes.map Prod.fst = [.refresh, .deadline, .deadline] ∧
      o.sys.shared.tickCount = o.successes.length := by
  have hcauses : (Machine.exec (step countingCollector) (spawned countingCollector (10 ^ 9) false)
      tickingRun).map (fun o => o.causes.map Prod.fst) =
        some [.refresh, .deadline, .deadline] := by decide +kernel
  obtain ⟨o, ho, hcauses⟩ := Option.map_eq_some_iff.mp hcauses
  exact ⟨o, ho, hcauses, (sampling_law countingCollector (10 ^ 9) false ho).2.1⟩

/-! ### Answers -/

/-- The reply was sent for the request: its snapshot is that of an attempt no earlier than it. -/
def AnsweredBy (attempts : List Attempt) (req : SampleRequest) (reply : ℕ × Snapshot) : Prop :=
  reply.1 = req.reply ∧ ∃ x ∈ attempts, x.result = .ok reply.2 ∧ req.time ≤ x.time

/-- Every `SampleNow` received so far has been sent exactly one snapshot. -/
def Answered (o : ObservedEngine σ) : Prop :=
  ∃ replies, replies.Perm o.sys.replies ∧
    List.Forall₂ (AnsweredBy o.attempts) o.received replies

/-- The collector's samples succeed. -/
def Succeeds (api : SystemCollector σ) : Prop :=
  ∀ c now, ∃ snap, (api.sample c now).1 = .ok snap

/-- A `SampleNow` is received by the running loop, with a sample as its answer, or by a parked
engine. -/
theorem requestReceived_spec (s : EngineSystem σ) (a : EngineAction) :
    (∃ reply, s.sampleCause a = some (.sampleNow reply) ∧
      s.requestReceived a = some ⟨reply, s.now, false⟩) ∨
    ((∀ reply, s.sampleCause a ≠ some (.sampleNow reply)) ∧
      ∀ req ∈ s.requestReceived a, req.parked = true) := by
  rcases a with cmd | _ | _ | dt
  · exact Or.inr ⟨nofun, nofun⟩
  · exact Or.inr ⟨nofun, nofun⟩
  · obtain ⟨p | l | _, shared, queue, now, connected, replies⟩ := s
    · right
      rcases queue with _ | ⟨cmd, queue⟩
      · exact ⟨nofun, nofun⟩
      · refine ⟨fun reply => ?_, ?_⟩
        · cases cmd <;> simp [sampleCause]
        · cases cmd <;> simp [requestReceived]
    · obtain ⟨c, lastTick, nextDue, _ | wakeAt⟩ := l
      · right
        refine ⟨fun reply => by simp [sampleCause], ?_⟩
        rcases queue with _ | ⟨cmd, queue⟩
        · exact nofun
        · cases cmd <;> exact nofun
      · rcases queue with _ | ⟨cmd, queue⟩
        · exact Or.inr ⟨nofun, nofun⟩
        · cases cmd with
          | sampleNow reply => exact Or.inl ⟨reply, rfl, rfl⟩
          | _ => exact Or.inr ⟨nofun, nofun⟩
    · exact Or.inr ⟨nofun, nofun⟩
  · exact Or.inr ⟨nofun, nofun⟩

theorem AnsweredBy.mono {xs ys : List Attempt} (hsub : xs ⊆ ys) {req : SampleRequest}
    {reply : ℕ × Snapshot} (h : AnsweredBy xs req reply) : AnsweredBy ys req reply := by
  obtain ⟨hid, x, hx, hres, htime⟩ := h
  exact ⟨hid, x, hsub hx, hres, htime⟩

/-- The requests of the running engine have their replies, in order. -/
def RunningAnswered (o : ObservedEngine σ) : Prop :=
  List.Forall₂ (AnsweredBy o.attempts) (o.received.filter fun req => !req.parked) o.sys.replies

theorem RunningAnswered.step (hok : Succeeds api) {o o' : ObservedEngine σ}
    (ho : o.RunningAnswered) {a : EngineAction} (h : ObservedEngine.step api o a = some o') :
    o'.RunningAnswered := by
  obtain ⟨t, ht, rfl⟩ := Option.map_eq_some_iff.mp h
  have heff := step_effect ht
  -- replies that were right stay right when the log of attempts grows
  have hold : List.Forall₂ (AnsweredBy (newAttempts o.sys t ++ o.attempts))
      (o.received.filter fun req => !req.parked) o.sys.replies :=
    ho.imp fun _ _ hreq => hreq.mono (List.subset_append_right _ _)
  unfold RunningAnswered
  dsimp only
  rcases requestReceived_spec o.sys a with ⟨reply, hc, hreq⟩ | ⟨hc, hreq⟩
  · rw [hc] at heff
    obtain ⟨x, hx, ⟨c, hres⟩, hrec, -, hreplies⟩ := heff
    -- the sample of the request succeeds, so it is answered with its snapshot
    obtain ⟨snap, hsnap⟩ := hok c o.sys.now
    rw [hsnap] at hres
    have hnew : x ∈ newAttempts o.sys t := by
      rw [newAttempts_some hrec]
      exact List.mem_singleton_self x
    have hreply : t.replies = (reply, snap) :: o.sys.replies := by
      simp [hreplies, repliesOf, Attempt.snapshot, hres]
    have hfilter : ((o.sys.requestReceived a).toList ++ o.received).filter
        (fun req => !req.parked) = ⟨reply, o.sys.now, false⟩ ::
          o.received.filter fun req => !req.parked := by
      simp [hreq]
    rw [hreply, hfilter]
    exact .cons ⟨rfl, x, List.mem_append_left _ hnew, hres, hx.ge⟩ hold
  · have hfilter : ((o.sys.requestReceived a).toList ++ o.received).filter
        (fun req => !req.parked) = o.received.filter fun req => !req.parked := by
      rcases hr : o.sys.requestReceived a with _ | req
      · rfl
      · simp [hreq req hr]
    -- no other cause of a sample sends a reply
    have hreplies : t.replies = o.sys.replies := by
      rcases hcause : o.sys.sampleCause a with _ | cause
      · rw [hcause] at heff
        exact heff.2.2.2
      · rw [hcause] at heff
        obtain ⟨x, -, -, -, -, hr⟩ := heff
        rw [hr]
        cases cause with
        | sampleNow reply => exact absurd hcause (hc reply)
        | _ => rfl
    rw [hreplies, hfilter]
    exact hold

/-- **A `SampleNow` is answered unless the engine received it before `Start`.** -/
theorem answered_iff (hok : Succeeds api) (interval : ℕ) (startImmediately : Bool)
    {as : List EngineAction} {o : ObservedEngine σ}
    (hrun : Machine.exec (step api) (spawned api interval startImmediately) as = some o) :
    o.Answered ↔ ∀ req ∈ o.received, req.parked = false := by
  have hstart : (spawned api interval startImmediately).RunningAnswered := by
    cases startImmediately <;> exact .nil
  have hans : o.RunningAnswered :=
    Machine.invariant (fun _ _ _ hs hstep => RunningAnswered.step hok hs hstep) hstart hrun
  constructor
  · -- There are as many replies as requests of the running engine, so no other was answered.
    rintro ⟨replies, hperm, hall⟩
    have hlen : (o.received.filter fun req => !req.parked).length = o.received.length := by
      rw [hans.length_eq, hall.length_eq, hperm.length_eq]
    intro req hreq
    have := List.length_filter_eq_length_iff.mp hlen req hreq
    simpa using this
  · intro hnone
    have hfilter : (o.received.filter fun req => !req.parked) = o.received :=
      List.filter_eq_self.mpr fun req hreq => by simp [hnone req hreq]
    unfold RunningAnswered at hans
    rw [hfilter] at hans
    exact ⟨o.sys.replies, List.Perm.refl _, hans⟩

theorem succeeds_countingCollector : Succeeds countingCollector := fun _ _ => ⟨_, rfl⟩

/-- Two requests of a running engine. -/
def answeredRun : List EngineAction :=
  [.send .start, .send (.sampleNow 7), .engine, .engine, .engine, .send (.sampleNow 8), .engine,
    .engine]

theorem answered_iff_running :
    ∃ o : ObservedEngine ℕ,
      Machine.exec (step countingCollector) (spawned countingCollector (10 ^ 9) false) answeredRun =
        some o ∧ o.received.map SampleRequest.reply = [8, 7] ∧ o.Answered := by
  have hreceived : (Machine.exec (step countingCollector)
      (spawned countingCollector (10 ^ 9) false) answeredRun).map ObservedEngine.received =
        some [⟨8, 0, false⟩, ⟨7, 0, false⟩] := by decide +kernel
  obtain ⟨o, ho, hreceived⟩ := Option.map_eq_some_iff.mp hreceived
  refine ⟨o, ho, by rw [hreceived]; rfl, ?_⟩
  rw [answered_iff succeeds_countingCollector (10 ^ 9) false ho, hreceived]
  decide

/-- A request, `Start`, the first sample, and the end. -/
def lostRun : List EngineAction :=
  [.send (.sampleNow 7), .send .start, .engine, .engine, .engine, .send .shutdown, .engine]

/-- A `SampleNow` sent before `Start` has no answer when the engine has sampled and stopped. -/
theorem sampleNow_lost :
    ∃ o : ObservedEngine ℕ,
      Machine.exec (step countingCollector) (spawned countingCollector (10 ^ 9) false) lostRun =
        some o ∧
      o.sys.shared.state = .stopped ∧ o.sys.shared.tickCount = 1 ∧ ¬ o.Answered := by
  have hrun : (Machine.exec (step countingCollector) (spawned countingCollector (10 ^ 9) false)
      lostRun).map
        (fun o => (o.sys.shared.state, o.sys.shared.tickCount, o.received, o.sys.replies)) =
        some (.stopped, 1, [⟨7, 0, true⟩], []) := by decide +kernel
  obtain ⟨o, ho, hrun⟩ := Option.map_eq_some_iff.mp hrun
  obtain ⟨hstate, htick, hreceived, hreplies⟩ := by simpa only [Prod.mk.injEq] using hrun
  refine ⟨o, ho, hstate, htick, ?_⟩
  rintro ⟨replies, hperm, hall⟩
  rw [hreplies] at hperm
  obtain rfl := hperm.eq_nil
  rw [hreceived] at hall
  cases hall

end ObservedEngine

end Taskman
