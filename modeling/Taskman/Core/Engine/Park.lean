import Taskman.Core.Engine

/-!
# Configuration across the park

Commands that configure the engine may be sent while it is parked or while its loop runs.  The
queue of the engine is read as a promise: `promised` is the configuration the engine has once it
has received what is in the queue.  The thread's moves keep the promise and a sent command changes
it by that command alone (`EngineConfig.apply`), wherever the engine is when it receives it.

* `promised_engine`, `promised_send` : one move of the thread, and one command sent;
* `settles` : the thread, left alone, comes to wait with an empty queue;
* `configured_before_or_after_start` : **sending commands before `Start` leaves what sending them
  after it leaves**.
-/

namespace Taskman

/-- The commands that configure the engine. -/
inductive ConfigCmd where
  | setDemand (demand : TelemetryDemand)
  | setBackground (background : Bool)
  | setInterval (interval : ℕ)
  | pause
  | resume
  deriving DecidableEq

/-- A command that configures, as a command of the engine. -/
def ConfigCmd.cmd : ConfigCmd → EngineCmd
  | setDemand d => .setDemand d
  | setBackground b => .setBackground b
  | setInterval i => .setInterval i
  | pause => .pause
  | resume => .resume

/-- What configuring the engine is about; `paused` is kept only where `mode` says that the mode is
the commands' alone. -/
structure EngineConfig where
  demand : Option TelemetryDemand
  background : Option Bool
  interval : ℕ
  paused : Bool
  deriving DecidableEq

/-- What a command asks for. -/
def EngineConfig.apply (mode : Bool) (g : EngineConfig) : EngineCmd → EngineConfig
  | .setDemand d => { g with demand := some d }
  | .setBackground b => { g with background := some b }
  | .setInterval i => { g with interval := i }
  | .pause => { g with paused := mode }
  | .resume => { g with paused := false }
  | _ => g

/-- The command configures the engine or starts it. -/
def EngineCmd.Configures (cmd : EngineCmd) : Prop := cmd = .start ∨ ∃ c : ConfigCmd, c.cmd = cmd

variable {σ : Type*} {api : SystemCollector σ} {mode : Bool}

/-- A sample of this collector never finds the platform unsupported. -/
def Supported (api : SystemCollector σ) : Prop :=
  ∀ state now what, (api.sample state now).1 ≠ .error (.unsupported what)

/-- A sample of this collector always finds the platform unsupported. -/
def Unsupported (api : SystemCollector σ) : Prop :=
  ∀ state now, ∃ what, (api.sample state now).1 = .error (.unsupported what)

/-- The engine is paused. -/
def EngineState.isPaused : EngineState → Bool
  | .paused => true
  | _ => false

namespace EngineSystem

/-- The configuration in force. -/
def config (mode : Bool) (s : EngineSystem σ) : EngineConfig :=
  match s.phase with
  | .parked p => ⟨p.demand, p.background, s.shared.interval, mode && p.paused⟩
  | .looping l => ⟨l.collector.demand, l.collector.background, s.shared.interval,
      mode && s.shared.state.isPaused⟩
  | .stopped => ⟨none, none, s.shared.interval, false⟩

/-- The configuration once the queue has been received. -/
def promised (mode : Bool) (s : EngineSystem σ) : EngineConfig :=
  s.queue.foldl (EngineConfig.apply mode) (s.config mode)

/-! ### A sample -/

theorem healthSample_frame (api : SystemCollector σ) (c : LiveCollector σ) (shared : Shared)
    (now : ℕ) :
    (healthSample api c shared now).1.demand = c.demand ∧
      (healthSample api c shared now).1.background = c.background ∧
      (healthSample api c shared now).2.1.interval = shared.interval := by
  unfold healthSample
  split <;> exact ⟨rfl, rfl, rfl⟩

/-- A collector with support leaves the mode alone. -/
theorem healthSample_state (h : Supported api) (c : LiveCollector σ) (shared : Shared) (now : ℕ) :
    (healthSample api c shared now).2.1.state = shared.state := by
  unfold healthSample
  split
  · rfl
  · rename_i what _ heq
    exact absurd (congrArg Prod.fst heq) (h _ _ what)
  · rfl

/-- A collector without support pauses the engine. -/
theorem healthSample_paused (h : Unsupported api) (c : LiveCollector σ) (shared : Shared)
    (now : ℕ) : (healthSample api c shared now).2.1.state = .paused := by
  obtain ⟨what, hw⟩ := h c.state now
  unfold healthSample
  split
  · rename_i heq
    rw [heq] at hw
    cases hw
  · rfl
  · rename_i hne heq
    rw [heq] at hw
    simp only [Except.error.injEq] at hw
    exact absurd hw (hne what)

theorem mode_healthSample (hm : mode = true → Supported api) (c : LiveCollector σ)
    (shared : Shared) (now : ℕ) :
    (mode && (healthSample api c shared now).2.1.state.isPaused) =
      (mode && shared.state.isPaused) := by
  cases mode with
  | false => rfl
  | true => rw [healthSample_state (hm rfl)]

/-! ### The moves keep the promise -/

theorem buildCollector_frame (api : SystemCollector σ) (p : Pending) :
    (buildCollector api p).demand = p.demand ∧
      (buildCollector api p).background = p.background := by
  obtain ⟨demand, background, paused⟩ := p
  cases demand <;> cases background <;> exact ⟨rfl, rfl⟩

/-- Entering the loop puts what was pending in force. -/
theorem config_enterLoop (s : EngineSystem σ) (p : Pending) :
    (s.enterLoop api p).config mode =
      ⟨p.demand, p.background, s.shared.interval, mode && p.paused⟩ := by
  obtain ⟨hd, hb⟩ := buildCollector_frame api p
  obtain ⟨hsd, hsb, hsi⟩ := healthSample_frame api (buildCollector api p)
    { s.shared with state := .running } s.now
  unfold enterLoop config
  cases hp : p.paused with
  | false => simp [hd, hb, EngineState.isPaused]
  | true => simp [hsd, hsb, hsi, hd, hb, EngineState.isPaused]

theorem config_parkedRecv {s : EngineSystem σ} {p : Pending}
    (hs : s.phase = .parked p) {cmd : EngineCmd} (hc : cmd.Configures) :
    (s.parkedRecv api p cmd).config mode = (s.config mode).apply mode cmd := by
  rcases hc with rfl | ⟨c, rfl⟩
  · rw [parkedRecv, config_enterLoop]
    simp [config, hs, EngineConfig.apply]
  · cases c <;> simp [ConfigCmd.cmd, parkedRecv, config, hs, EngineConfig.apply]

/-- A command received in the loop takes effect. -/
theorem config_loopRecv {s : EngineSystem σ} {l : SamplingLoop σ} (hs : s.phase = .looping l)
    {cmd : EngineCmd} (hc : cmd.Configures) :
    (s.loopRecv api l cmd).config mode = (s.config mode).apply mode cmd := by
  rcases hc with rfl | ⟨c, rfl⟩
  · simp only [loopRecv, config, hs, EngineConfig.apply]
  · cases c with
    | resume =>
      by_cases hr : s.shared.state = .running <;>
        simp [ConfigCmd.cmd, loopRecv, config, hs, EngineConfig.apply, hr, EngineState.isPaused]
    | pause => simp [ConfigCmd.cmd, loopRecv, config, hs, EngineConfig.apply, EngineState.isPaused]
    | _ => simp only [ConfigCmd.cmd, loopRecv, config, hs, EngineConfig.apply,
        LiveCollector.setDemand, LiveCollector.setBackground]

/-- The top of the loop changes no configuration. -/
theorem config_loopTop (hm : mode = true → Supported api) {s : EngineSystem σ}
    {l : SamplingLoop σ} (hs : s.phase = .looping l) :
    (s.loopTop api l).config mode = s.config mode := by
  obtain ⟨hd, hb, hi⟩ := healthSample_frame api l.collector s.shared s.now
  have hp := mode_healthSample hm l.collector s.shared s.now
  unfold loopTop
  split_ifs with hdue
  · simp only [config, hs, hd, hb, hi, hp]
  · simp only [config, hs]

theorem promised_cons {s : EngineSystem σ} {cmd : EngineCmd} {queue : List EngineCmd}
    (hq : s.queue = cmd :: queue) {t : EngineSystem σ} (ht : t.queue = queue)
    (hc : t.config mode = (s.config mode).apply mode cmd) :
    t.promised mode = s.promised mode := by
  rw [promised, promised, hq, ht, List.foldl_cons, hc]

theorem parkedRecv_queue {s : EngineSystem σ} {p : Pending} {cmd : EngineCmd}
    (hc : cmd.Configures) : (s.parkedRecv api p cmd).queue = s.queue := by
  rcases hc with rfl | ⟨c, rfl⟩
  · rfl
  · cases c <;> rfl

theorem loopRecv_queue {s : EngineSystem σ} {l : SamplingLoop σ} {cmd : EngineCmd}
    (hc : cmd.Configures) : (s.loopRecv api l cmd).queue = s.queue := by
  rcases hc with rfl | ⟨c, rfl⟩
  · rfl
  · cases c with
    | resume =>
      simp only [ConfigCmd.cmd, loopRecv]
      split_ifs <;> rfl
    | _ => rfl

/-- What the thread can do while handles exist and only configure or start the engine: receive the
next command, take the top of the loop, or time out. -/
theorem engineMove_cases {s s' : EngineSystem σ} (hconn : s.connected = true)
    (hstep : s.engineMove api = some s') :
    (∃ p cmd queue, s.phase = .parked p ∧ s.queue = cmd :: queue ∧
      s' = parkedRecv api { s with queue := queue } p cmd) ∨
    (∃ l cmd queue wakeAt, s.phase = .looping l ∧ l.point = .waiting wakeAt ∧
      s.queue = cmd :: queue ∧ s' = loopRecv api { s with queue := queue } l cmd) ∨
    (∃ l, s.phase = .looping l ∧ l.point = .top ∧ s' = s.loopTop api l) ∨
    (∃ l, s.phase = .looping l ∧ s' = { s with phase := .looping { l with point := .top } } ∧
      ∃ wakeAt, l.point = .waiting wakeAt ∧ s.queue = []) := by
  unfold engineMove at hstep
  cases hp : s.phase with
  | stopped =>
    rw [hp] at hstep
    cases hstep
  | parked p =>
    cases hq : s.queue with
    | nil => simp [hp, hq, hconn] at hstep
    | cons cmd queue =>
      simp only [hp, hq, Option.some.injEq] at hstep
      exact .inl ⟨p, cmd, queue, rfl, rfl, hstep.symm⟩
  | looping l =>
    cases hl : l.point with
    | top =>
      simp only [hp, hl, Option.some.injEq] at hstep
      exact .inr (.inr (.inl ⟨l, rfl, hl, hstep.symm⟩))
    | waiting wakeAt =>
      cases hq : s.queue with
      | cons cmd queue =>
        simp only [hp, hl, hq, Option.some.injEq] at hstep
        exact .inr (.inl ⟨l, cmd, queue, wakeAt, rfl, hl, rfl, hstep.symm⟩)
      | nil =>
        simp only [hp, hl, hq] at hstep
        rw [if_neg (by simp [hconn]), Option.ite_none_right_eq_some, Option.some.injEq] at hstep
        exact .inr (.inr (.inr ⟨l, rfl, hstep.2.symm, wakeAt, hl, rfl⟩))

/-- **A move of the thread keeps the promise.** -/
theorem promised_engine (hm : mode = true → Supported api) {s s' : EngineSystem σ}
    (hconn : s.connected = true) (hq : ∀ cmd ∈ s.queue, cmd.Configures)
    (hstep : s.engineMove api = some s') : s'.promised mode = s.promised mode := by
  rcases engineMove_cases hconn hstep with ⟨p, cmd, queue, hp, hqueue, rfl⟩ |
    ⟨l, cmd, queue, wakeAt, hl, -, hqueue, rfl⟩ | ⟨l, hl, -, rfl⟩ | ⟨l, hl, rfl, -⟩
  · have hc : cmd.Configures := hq cmd (hqueue ▸ List.mem_cons_self)
    refine promised_cons hqueue (parkedRecv_queue hc) ?_
    rw [config_parkedRecv (by exact hp) hc]
    rfl
  · have hc : cmd.Configures := hq cmd (hqueue ▸ List.mem_cons_self)
    refine promised_cons hqueue (loopRecv_queue hc) ?_
    rw [config_loopRecv (by exact hl) hc]
    rfl
  · rw [promised, promised, config_loopTop hm hl]
    rfl
  · simp only [promised, config, hl]

/-- A change of the interval alone shows only until the next interval command. -/
theorem foldl_apply_interval (mode : Bool) (q : List EngineCmd) (g : EngineConfig) (i : ℕ) :
    ∃ j, q.foldl (EngineConfig.apply mode) { g with interval := i } =
      { q.foldl (EngineConfig.apply mode) g with interval := j } := by
  induction q generalizing g i with
  | nil => exact ⟨i, rfl⟩
  | cons cmd q ih =>
    simp only [List.foldl_cons]
    cases cmd with
    | setInterval k => exact ⟨_, rfl⟩
    | setDemand d => exact ih { g with demand := some d } i
    | setBackground b => exact ih { g with background := some b } i
    | pause => exact ih { g with paused := mode } i
    | resume => exact ih { g with paused := false } i
    | start => exact ih g i
    | refresh => exact ih g i
    | sampleNow r => exact ih g i
    | shutdown => exact ih g i

/-- **A command that is sent changes the promise as the command says.** -/
theorem promised_send {s : EngineSystem σ} (hs : s.phase ≠ .stopped) (cmd : EngineCmd) :
    (s.handleSend cmd).promised mode = (s.promised mode).apply mode cmd := by
  have hother : ∀ t : EngineSystem σ, t.phase ≠ .stopped →
      promised mode { t with queue := t.queue ++ [cmd] } = (t.promised mode).apply mode cmd := by
    intro t _
    simp only [promised, List.foldl_append, List.foldl_cons, List.foldl_nil]
    rfl
  cases cmd with
  | setInterval i =>
    have hsend : s.handleSend (.setInterval i) = { s with
        shared := { s.shared with interval := i }
        queue := s.queue ++ [.setInterval i] } := by
      unfold handleSend
      cases hp : s.phase with
      | stopped => exact absurd hp hs
      | _ => rfl
    have hconf : config mode { s with
        shared := { s.shared with interval := i }
        queue := s.queue ++ [.setInterval i] } = { s.config mode with interval := i } := by
      unfold config
      cases s.phase <;> rfl
    obtain ⟨j, hj⟩ := foldl_apply_interval mode s.queue (s.config mode) i
    rw [hsend, promised, hconf]
    simp only [List.foldl_append, List.foldl_cons, List.foldl_nil, hj]
    rfl
  | _ =>
    rw [← hother s hs]
    unfold handleSend
    cases hp : s.phase with
    | stopped => exact absurd hp hs
    | _ => simp only [hp]

/-! ### Runs -/

/-- The commands sent in a run, in order. -/
def sent (as : List EngineAction) : List EngineCmd :=
  as.filterMap fun
    | .send cmd => some cmd
    | _ => none

/-- A handle exists, and only configuring and starting commands are on their way to a thread that
is parked, or in its loop and running or paused. -/
structure Live (s : EngineSystem σ) : Prop where
  connected : s.connected = true
  queue : ∀ cmd ∈ s.queue, cmd.Configures
  phase : (∃ p, s.phase = .parked p) ∨
    ∃ l, s.phase = .looping l ∧ (s.shared.state = .running ∨ s.shared.state = .paused)

theorem Live.state {s : EngineSystem σ} (h : Live s) {l : SamplingLoop σ}
    (hl : s.phase = .looping l) : s.shared.state = .running ∨ s.shared.state = .paused := by
  rcases h.phase with ⟨p, hp⟩ | ⟨l', -, hst⟩
  · rw [hl] at hp
    cases hp
  · exact hst

theorem healthSample_running_or_paused (c : LiveCollector σ) {shared : Shared} (now : ℕ)
    (h : shared.state = .running ∨ shared.state = .paused) :
    (healthSample api c shared now).2.1.state = .running ∨
      (healthSample api c shared now).2.1.state = .paused := by
  unfold healthSample
  split
  · exact h
  · exact Or.inr rfl
  · exact h

theorem live_enterLoop {s : EngineSystem σ} {p : Pending} (hc : s.connected = true)
    (hq : ∀ cmd ∈ s.queue, cmd.Configures) : Live (s.enterLoop api p) := by
  refine ⟨hc, hq, Or.inr ⟨_, rfl, ?_⟩⟩
  unfold enterLoop
  cases p.paused with
  | false => exact Or.inl rfl
  | true => exact Or.inr rfl

theorem live_engine {s s' : EngineSystem σ} (h : Live s) (hstep : s.engineMove api = some s') :
    Live s' := by
  rcases engineMove_cases h.connected hstep with ⟨p, cmd, queue, hp, hqueue, rfl⟩ |
    ⟨l, cmd, queue, wakeAt, hl, -, hqueue, rfl⟩ | ⟨l, hl, -, rfl⟩ | ⟨l, hl, rfl, -⟩
  · have hc : cmd.Configures := h.queue cmd (hqueue ▸ List.mem_cons_self)
    have hrest : ∀ c ∈ queue, c.Configures :=
      fun c hm => h.queue c (hqueue ▸ List.mem_cons_of_mem cmd hm)
    rcases hc with rfl | ⟨c, rfl⟩
    · exact live_enterLoop h.connected hrest
    · cases c <;> exact ⟨h.connected, hrest, Or.inl ⟨_, by first | rfl | exact hp⟩⟩
  · have hc : cmd.Configures := h.queue cmd (hqueue ▸ List.mem_cons_self)
    have hrest : ∀ c ∈ queue, c.Configures :=
      fun c hm => h.queue c (hqueue ▸ List.mem_cons_of_mem cmd hm)
    have hstate := h.state hl
    rcases hc with rfl | ⟨c, rfl⟩
    · exact ⟨h.connected, hrest, Or.inr ⟨_, rfl, hstate⟩⟩
    · cases c with
      | resume =>
        simp only [ConfigCmd.cmd, loopRecv]
        split_ifs with hr
        · exact ⟨h.connected, hrest, Or.inr ⟨_, rfl, hstate⟩⟩
        · exact ⟨h.connected, hrest, Or.inr ⟨_, rfl, Or.inl rfl⟩⟩
      | pause => exact ⟨h.connected, hrest, Or.inr ⟨_, rfl, Or.inr rfl⟩⟩
      | _ => exact ⟨h.connected, hrest, Or.inr ⟨_, rfl, hstate⟩⟩
  · refine ⟨h.connected, h.queue, Or.inr ⟨_, rfl, ?_⟩⟩
    unfold loopTop
    split_ifs
    · exact healthSample_running_or_paused l.collector s.now (h.state hl)
    · exact h.state hl
  · exact ⟨h.connected, h.queue, Or.inr ⟨_, rfl, h.state hl⟩⟩

theorem live_send {s : EngineSystem σ} (h : Live s) {cmd : EngineCmd} (hc : cmd.Configures) :
    Live (s.handleSend cmd) ∧ (s.handleSend cmd).phase = s.phase ∧
      (s.handleSend cmd).queue = s.queue ++ [cmd] ∧
      (s.handleSend cmd).shared.state = s.shared.state := by
  have hns : s.phase ≠ .stopped := by
    rcases h.phase with ⟨p, hp⟩ | ⟨l, hl, -⟩
    · rw [hp]
      simp
    · rw [hl]
      simp
  have hqueue : (s.handleSend cmd).queue = s.queue ++ [cmd] ∧
      (s.handleSend cmd).phase = s.phase ∧ (s.handleSend cmd).connected = s.connected ∧
      (s.handleSend cmd).shared.state = s.shared.state := by
    unfold handleSend
    cases hp : s.phase with
    | stopped => exact absurd hp hns
    | _ => cases cmd <;> simp [hp]
  obtain ⟨h1, h2, h3, h4⟩ := hqueue
  refine ⟨⟨h3.trans h.connected, ?_, ?_⟩, h2, h1, h4⟩
  · rw [h1]
    intro c hm
    rcases List.mem_append.mp hm with hm | hm
    · exact h.queue c hm
    · rw [List.mem_singleton.mp hm]
      exact hc
  · rw [h2, h4]
    exact h.phase

/-- What may happen while the engine is being configured: configuring commands are sent, the thread
moves and time passes. -/
def Configuring (as : List EngineAction) : Prop :=
  .dropHandles ∉ as ∧ ∀ cmd ∈ sent as, cmd.Configures

theorem Configuring.tail {a : EngineAction} {as : List EngineAction} (h : Configuring (a :: as)) :
    Configuring as := by
  refine ⟨fun hd => h.1 (List.mem_cons_of_mem a hd), fun cmd hc => h.2 cmd ?_⟩
  cases a <;> simp [sent] at hc ⊢ <;> tauto

/-- **A whole run**: the promise at its end is the promise at its start with every sent command
applied in turn. -/
theorem promised_exec (hm : mode = true → Supported api) {s s' : EngineSystem σ}
    {as : List EngineAction} (hlive : Live s) (has : Configuring as)
    (hrun : Machine.exec (step api) s as = some s') :
    Live s' ∧ s'.promised mode = (sent as).foldl (EngineConfig.apply mode) (s.promised mode) := by
  induction as generalizing s with
  | nil =>
    cases hrun
    exact ⟨hlive, rfl⟩
  | cons a as ih =>
    obtain ⟨t, ht, hrest⟩ := Machine.exec_cons_eq_some.mp hrun
    cases a with
    | send cmd =>
      simp only [step, hlive.connected, if_true, Option.some.injEq] at ht
      subst ht
      have hns : s.phase ≠ .stopped := by
        rcases hlive.phase with ⟨p, hp⟩ | ⟨l, hl, -⟩
        · simp [hp]
        · simp [hl]
      have hc : cmd.Configures := has.2 cmd (by simp [sent])
      have h := ih (live_send hlive hc).1 has.tail hrest
      rwa [promised_send hns] at h
    | dropHandles => exact absurd List.mem_cons_self has.1
    | engine =>
      have h := ih (live_engine hlive ht) has.tail hrest
      rwa [promised_engine hm hlive.connected hlive.queue ht] at h
    | elapse dt =>
      simp only [step, Option.some.injEq] at ht
      subst ht
      have hlive' : Live { s with now := s.now + dt } :=
        ⟨hlive.connected, hlive.queue, hlive.phase⟩
      have h := ih hlive' has.tail hrest
      exact h

/-! ### Collectors without support -/

/-- The engine of a collector without support only waits while paused. -/
def WaitsPaused (s : EngineSystem σ) : Prop :=
  ∀ l, s.phase = .looping l →
    (∀ wakeAt, l.point = .waiting wakeAt → s.shared.state = .paused) ∧
    (l.point = .top → s.shared.state = .running → l.nextDue ≤ s.now)

theorem waitsPaused_engine (hu : Unsupported api) {s s' : EngineSystem σ} (h : Live s)
    (hw : WaitsPaused s) (hstep : s.engineMove api = some s') : WaitsPaused s' := by
  rcases engineMove_cases h.connected hstep with ⟨p, cmd, queue, hp, hqueue, rfl⟩ |
    ⟨l, cmd, queue, wakeAt, hl, hpoint, hqueue, rfl⟩ | ⟨l, hl, hpoint, rfl⟩ |
    ⟨l, hl, rfl, wakeAt, hpoint, -⟩
  · have hc : cmd.Configures := h.queue cmd (hqueue ▸ List.mem_cons_self)
    rcases hc with rfl | ⟨c, rfl⟩
    · intro l' hl'
      simp only [parkedRecv, enterLoop, EnginePhase.looping.injEq] at hl'
      subst hl'
      exact ⟨fun w hw => (nomatch hw), fun _ _ => le_rfl⟩
    · intro l' hl'
      cases c <;> simp [ConfigCmd.cmd, parkedRecv, hp] at hl'
  · have hc : cmd.Configures := h.queue cmd (hqueue ▸ List.mem_cons_self)
    have hpaused := (hw l hl).1 wakeAt hpoint
    intro l' hl'
    rcases hc with rfl | ⟨c, rfl⟩
    · simp only [loopRecv, EnginePhase.looping.injEq] at hl'
      subst hl'
      exact ⟨fun w hw => (nomatch hw), fun _ hr => by simp [loopRecv, hpaused] at hr⟩
    · cases c with
      | resume =>
        simp only [ConfigCmd.cmd, loopRecv, hpaused, reduceCtorEq, if_false,
          EnginePhase.looping.injEq] at hl' ⊢
        subst hl'
        exact ⟨fun w hw => (nomatch hw), fun _ _ => le_rfl⟩
      | _ =>
        simp only [ConfigCmd.cmd, loopRecv, EnginePhase.looping.injEq] at hl'
        subst hl'
        exact ⟨fun w hw => (nomatch hw),
          fun _ hr => by simp [ConfigCmd.cmd, loopRecv, hpaused] at hr⟩
  · have hpaused : (s.loopTop api l).shared.state = .paused := by
      unfold loopTop
      split_ifs with hdue
      · exact healthSample_paused hu l.collector s.shared s.now
      · rcases h.state hl with hr | hst
        · exact absurd ⟨hr, (hw l hl).2 hpoint hr⟩ hdue
        · exact hst
    intro l' hl'
    refine ⟨fun w _ => hpaused, fun _ hr => ?_⟩
    rw [hpaused] at hr
    cases hr
  · have hpaused := (hw l hl).1 wakeAt hpoint
    intro l' hl'
    refine ⟨fun w _ => hpaused, fun _ hr => ?_⟩
    simp [hpaused] at hr

theorem waitsPaused_exec (hu : Unsupported api) {s s' : EngineSystem σ}
    {as : List EngineAction} (hlive : Live s) (hw : WaitsPaused s) (has : Configuring as)
    (hrun : Machine.exec (step api) s as = some s') : WaitsPaused s' := by
  induction as generalizing s with
  | nil =>
    cases hrun
    exact hw
  | cons a as ih =>
    obtain ⟨t, ht, hrest⟩ := Machine.exec_cons_eq_some.mp hrun
    cases a with
    | send cmd =>
      simp only [step, hlive.connected, if_true, Option.some.injEq] at ht
      subst ht
      obtain ⟨hl, hphase, -, hstate⟩ := live_send hlive (has.2 cmd (by simp [sent]))
      have hnow : (s.handleSend cmd).now = s.now := by
        unfold handleSend
        cases cmd <;> cases hp : s.phase <;> simp [hp]
      refine ih hl ?_ has.tail hrest
      intro l hl
      rw [hphase] at hl
      rw [hstate, hnow]
      exact hw l hl
    | dropHandles => exact absurd List.mem_cons_self has.1
    | engine => exact ih (live_engine hlive ht) (waitsPaused_engine hu hlive hw ht) has.tail hrest
    | elapse dt =>
      simp only [step, Option.some.injEq] at ht
      subst ht
      have hlive' : Live { s with now := s.now + dt } :=
        ⟨hlive.connected, hlive.queue, hlive.phase⟩
      refine ih hlive' ?_ has.tail hrest
      intro l hl
      obtain ⟨h1, h2⟩ := hw l hl
      exact ⟨h1, fun hp hr => (h2 hp hr).trans (Nat.le_add_right _ _)⟩

/-! ### The thread left alone -/

/-- The thread waits in its loop and has received everything. -/
def Settled (s : EngineSystem σ) : Prop :=
  s.queue = [] ∧ ∃ l wakeAt, s.phase = .looping l ∧ l.point = .waiting wakeAt

/-- Some number of moves of the thread settles the engine. -/
def Settles (api : SystemCollector σ) (s : EngineSystem σ) : Prop :=
  ∃ n t, Machine.exec (step api) s (List.replicate n .engine) = some t ∧ Settled t

theorem Settles.of_engine {s t : EngineSystem σ} (hstep : s.engineMove api = some t)
    (h : Settles api t) : Settles api s := by
  obtain ⟨n, u, hrun, hu⟩ := h
  refine ⟨n + 1, u, ?_, hu⟩
  rw [List.replicate_succ, Machine.exec_cons_eq_some]
  exact ⟨t, hstep, hrun⟩

theorem loopTop_waiting (api : SystemCollector σ) (s : EngineSystem σ) (l : SamplingLoop σ) :
    ∃ l' wakeAt, (s.loopTop api l).phase = .looping l' ∧ l'.point = .waiting wakeAt :=
  ⟨_, _, rfl, rfl⟩

/-- After a command the loop is back at its top. -/
theorem loopRecv_top (api : SystemCollector σ) (s : EngineSystem σ) (l : SamplingLoop σ)
    {cmd : EngineCmd} (hc : cmd.Configures) :
    ∃ l', (s.loopRecv api l cmd).phase = .looping l' ∧ l'.point = .top := by
  rcases hc with rfl | ⟨c, rfl⟩
  · exact ⟨_, rfl, rfl⟩
  · cases c with
    | resume =>
      simp only [ConfigCmd.cmd, loopRecv]
      split_ifs <;> exact ⟨_, rfl, rfl⟩
    | _ => exact ⟨_, rfl, rfl⟩

/-- In its loop the thread receives what is in the queue, one turn for each command. -/
theorem settles_looping {q : List EngineCmd} : ∀ {s : EngineSystem σ} {l : SamplingLoop σ},
    Live s → s.phase = .looping l → s.queue = q → Settles api s := by
  induction q with
  | nil =>
    intro s l _ hl hq
    cases hp : l.point with
    | waiting wakeAt => exact ⟨0, s, rfl, hq, l, wakeAt, hl, hp⟩
    | top =>
      have hmove : s.engineMove api = some (s.loopTop api l) := by
        simp only [engineMove, hl, hp]
      exact .of_engine hmove ⟨0, _, rfl, hq, loopTop_waiting api s l⟩
  | cons cmd q ih =>
    have hwait : ∀ {s : EngineSystem σ} {l : SamplingLoop σ} {wakeAt : ℕ}, Live s →
        s.phase = .looping l → s.queue = cmd :: q → l.point = .waiting wakeAt →
        Settles api s := by
      intro s l wakeAt hlive hl hq hp
      have hc : cmd.Configures := hlive.queue cmd (hq ▸ List.mem_cons_self)
      have hmove : s.engineMove api = some (loopRecv api { s with queue := q } l cmd) := by
        simp only [engineMove, hl, hp, hq]
      obtain ⟨l', hl', -⟩ := loopRecv_top api { s with queue := q } l hc
      exact .of_engine hmove (ih (live_engine hlive hmove) hl' (loopRecv_queue hc))
    intro s l hlive hl hq
    cases hp : l.point with
    | waiting wakeAt => exact hwait hlive hl hq hp
    | top =>
      have hmove : s.engineMove api = some (s.loopTop api l) := by
        simp only [engineMove, hl, hp]
      obtain ⟨l', wakeAt, hl', hp'⟩ := loopTop_waiting api s l
      exact .of_engine hmove (hwait (live_engine hlive hmove) hl' hq hp')

/-- **The thread settles** from its loop, and from the park once `Start` is on its way. -/
theorem settles {q : List EngineCmd} : ∀ {s : EngineSystem σ}, Live s → s.queue = q →
    (∀ p, s.phase = .parked p → .start ∈ q) → Settles api s := by
  induction q with
  | nil =>
    intro s hlive hq hstart
    rcases hlive.phase with ⟨p, hp⟩ | ⟨l, hl, -⟩
    · exact absurd (hstart p hp) List.not_mem_nil
    · exact settles_looping hlive hl hq
  | cons cmd q ih =>
    intro s hlive hq hstart
    rcases hlive.phase with ⟨p, hp⟩ | ⟨l, hl, -⟩
    · have hmove : s.engineMove api = some (parkedRecv api { s with queue := q } p cmd) := by
        simp only [engineMove, hp, hq]
      have hlive' := live_engine hlive hmove
      rcases hlive.queue cmd (hq ▸ List.mem_cons_self) with rfl | ⟨c, rfl⟩
      · exact .of_engine hmove (settles_looping hlive' rfl rfl)
      · refine .of_engine hmove (ih hlive' (parkedRecv_queue (Or.inr ⟨c, rfl⟩)) fun _ _ => ?_)
        rcases List.mem_cons.mp (hstart p hp) with hstart | hstart
        · cases c <;> cases hstart
        · exact hstart
    · exact settles_looping hlive hl hq

/-- While the thread stays parked, a `Start` that was sent is still in the queue. -/
theorem start_queued {s s' : EngineSystem σ} {as : List EngineAction} (hlive : Live s)
    (has : Configuring as) (hstart : ∀ p, s.phase = .parked p → .start ∈ s.queue ++ sent as)
    (hrun : Machine.exec (step api) s as = some s') :
    ∀ p, s'.phase = .parked p → .start ∈ s'.queue := by
  induction as generalizing s with
  | nil =>
    cases hrun
    intro p hp
    simpa [sent] using hstart p hp
  | cons a as ih =>
    obtain ⟨t, ht, hrest⟩ := Machine.exec_cons_eq_some.mp hrun
    cases a with
    | send cmd =>
      simp only [step, hlive.connected, if_true, Option.some.injEq] at ht
      subst ht
      obtain ⟨hlive', hphase, hqueue, -⟩ := live_send hlive (has.2 cmd (by simp [sent]))
      refine ih hlive' has.tail (fun p hp => ?_) hrest
      rw [hqueue, List.append_assoc]
      exact hstart p (hphase ▸ hp)
    | dropHandles => exact absurd List.mem_cons_self has.1
    | engine =>
      refine ih (live_engine hlive ht) has.tail (fun p hp => ?_) hrest
      rcases engineMove_cases hlive.connected ht with ⟨p₀, cmd, queue, hp₀, hqueue, rfl⟩ |
        ⟨l, cmd, queue, _, hl, -, hqueue, rfl⟩ | ⟨l, -, -, rfl⟩ | ⟨l, -, rfl, -⟩
      · have hc : cmd.Configures := hlive.queue cmd (hqueue ▸ List.mem_cons_self)
        have hmem := hstart p₀ hp₀
        rcases hc with rfl | ⟨c, rfl⟩
        · cases hp
        · rw [parkedRecv_queue (Or.inr ⟨c, rfl⟩)]
          rw [hqueue, List.cons_append] at hmem
          rcases List.mem_cons.mp hmem with hmem | hmem
          · cases c <;> cases hmem
          · exact hmem
      · have hc : cmd.Configures := hlive.queue cmd (hqueue ▸ List.mem_cons_self)
        obtain ⟨l', hl', -⟩ := loopRecv_top api { s with queue := queue } l hc
        rw [hl'] at hp
        cases hp
      · cases hp
      · cases hp
    | elapse dt =>
      simp only [step, Option.some.injEq] at ht
      subst ht
      have hlive' : Live { s with now := s.now + dt } :=
        ⟨hlive.connected, hlive.queue, hlive.phase⟩
      exact ih hlive' has.tail hstart hrest

/-! ### Before and after `Start` -/

/-- What configuring and starting an engine leaves. -/
structure Outcome where
  demand : Option TelemetryDemand
  background : Option Bool
  interval : ℕ
  state : EngineState
  deriving DecidableEq

/-- The outcome of an engine that is in its loop. -/
def outcome (s : EngineSystem σ) : Option Outcome :=
  match s.phase with
  | .looping l => some ⟨l.collector.demand, l.collector.background, s.shared.interval,
      s.shared.state⟩
  | _ => none

/-- Sending exactly `cmds`, in this order and at any time, to a fresh lazy engine leaves `o`: the
thread settles whenever it is left alone, and whenever it has settled the outcome is `o`. -/
def Leaves (api : SystemCollector σ) (interval : ℕ) (cmds : List EngineCmd) (o : Outcome) : Prop :=
  ∀ as s, sent as = cmds → .dropHandles ∉ as →
    Machine.exec (step api) (spawnLazy interval) as = some s →
    Settles api s ∧ (Settled s → s.outcome = some o)

theorem live_spawnLazy (interval : ℕ) : Live (spawnLazy interval : EngineSystem σ) :=
  ⟨rfl, fun _ h => absurd h List.not_mem_nil, Or.inl ⟨_, rfl⟩⟩

theorem outcome_of_settled (mode : Bool) {s : EngineSystem σ} (hs : Settled s) :
    s.outcome = some ⟨(s.promised mode).demand, (s.promised mode).background,
      (s.promised mode).interval, s.shared.state⟩ := by
  obtain ⟨hq, l, wakeAt, hl, -⟩ := hs
  simp only [outcome, promised, hq, hl, List.foldl_nil, config]

theorem state_of_settled {s : EngineSystem σ} (hlive : Live s) (hs : Settled s) :
    s.shared.state = if (s.promised true).paused then .paused else .running := by
  obtain ⟨hq, l, wakeAt, hl, -⟩ := hs
  simp only [promised, hq, hl, List.foldl_nil, config]
  rcases hlive.state hl with hr | hr <;> simp [hr, EngineState.isPaused]

/-- The outcome of commands of which one is `Start`. -/
theorem leaves_of_commands (hapi : Supported api ∨ Unsupported api) (interval : ℕ) :
    ∃ outcomeOf : EngineConfig → EngineConfig → Outcome, ∀ cmds : List EngineCmd,
      (∀ cmd ∈ cmds, cmd.Configures) → .start ∈ cmds →
      Leaves api interval cmds
        (outcomeOf (cmds.foldl (EngineConfig.apply true) ⟨none, none, interval, false⟩)
          (cmds.foldl (EngineConfig.apply false) ⟨none, none, interval, false⟩)) := by
  have no_mode : false = true → Supported api := fun h => absurd h Bool.false_ne_true
  have hrun : ∀ {cmds as} {s : EngineSystem σ}, (∀ cmd ∈ cmds, cmd.Configures) → .start ∈ cmds →
      sent as = cmds → .dropHandles ∉ as →
      Machine.exec (step api) (spawnLazy interval) as = some s → Configuring as ∧ Live s ∧
        Settles api s := by
    intro cmds as s hc hstart hsent hdrop hexec
    have has : Configuring as := ⟨hdrop, hsent ▸ hc⟩
    have hlive := (promised_exec no_mode (live_spawnLazy interval) has hexec).1
    refine ⟨has, hlive, settles hlive rfl ?_⟩
    refine start_queued (live_spawnLazy interval) has (fun _ _ => ?_) hexec
    exact List.mem_append_right _ (hsent ▸ hstart)
  rcases hapi with hsup | hunsup
  · refine ⟨fun g _ => ⟨g.demand, g.background, g.interval, if g.paused then .paused else .running⟩,
      fun cmds hc hstart as s hsent hdrop hexec => ?_⟩
    obtain ⟨has, hlive, hsettles⟩ := hrun hc hstart hsent hdrop hexec
    refine ⟨hsettles, fun hs => ?_⟩
    have hprom := (promised_exec (fun _ : true = true => hsup) (live_spawnLazy interval) has
      hexec).2
    rw [outcome_of_settled true hs, state_of_settled hlive hs, hprom, hsent]
    rfl
  · refine ⟨fun _ g => ⟨g.demand, g.background, g.interval, .paused⟩,
      fun cmds hc hstart as s hsent hdrop hexec => ?_⟩
    obtain ⟨has, hlive, hsettles⟩ := hrun hc hstart hsent hdrop hexec
    refine ⟨hsettles, fun hs => ?_⟩
    have hprom := (promised_exec no_mode (live_spawnLazy interval) has hexec).2
    have hw : WaitsPaused s := waitsPaused_exec hunsup (live_spawnLazy interval)
      (fun l hl => (nomatch hl)) has hexec
    have hpaused : s.shared.state = .paused := by
      obtain ⟨-, l, wakeAt, hl, hp⟩ := hs
      exact (hw l hl).1 wakeAt hp
    rw [outcome_of_settled false hs, hpaused, hprom, hsent]
    rfl

/-- `Start` asks for no configuration, so its place among the commands does not matter. -/
theorem foldl_apply_start (cs : List EngineCmd) (g : EngineConfig) :
    (cs ++ [EngineCmd.start]).foldl (EngineConfig.apply mode) g =
      (EngineCmd.start :: cs).foldl (EngineConfig.apply mode) g := by
  rw [List.foldl_append]
  rfl

/-- **Configuring a parked engine and then starting it leaves what starting it and then configuring
it leaves**, whenever the commands are sent and received: the same demand and background mode at
the collector, and the same interval and mode of the engine. -/
theorem configured_before_or_after_start (hapi : Supported api ∨ Unsupported api) (interval : ℕ)
    (cs : List ConfigCmd) :
    ∃ o, Leaves api interval (cs.map ConfigCmd.cmd ++ [.start]) o ∧
      Leaves api interval (.start :: cs.map ConfigCmd.cmd) o := by
  obtain ⟨outcomeOf, h⟩ := leaves_of_commands hapi interval
  have hc : ∀ cmd ∈ cs.map ConfigCmd.cmd, cmd.Configures := by
    intro cmd hm
    obtain ⟨c, -, rfl⟩ := List.mem_map.mp hm
    exact Or.inr ⟨c, rfl⟩
  refine ⟨_, h (cs.map ConfigCmd.cmd ++ [.start]) ?_ (by simp), ?_⟩
  · intro cmd hm
    rcases List.mem_append.mp hm with hm | hm
    · exact hc cmd hm
    · exact Or.inl (List.mem_singleton.mp hm)
  · rw [foldl_apply_start, foldl_apply_start]
    refine h (.start :: cs.map ConfigCmd.cmd) ?_ List.mem_cons_self
    intro cmd hm
    rcases List.mem_cons.mp hm with rfl | hm
    · exact Or.inl rfl
    · exact hc cmd hm

/-- A collector that always samples an empty process table and keeps what it is told. -/
def emptyCollector : SystemCollector (TelemetryDemand × Bool) where
  factory := (⟨0⟩, false)
  sample c _ := (.ok { processes := [] }, c)
  setDemand c d := (d, c.2)
  setBackground c b := (c.1, b)

theorem supported_emptyCollector : Supported emptyCollector := by
  intro state now what h
  cases h

/-- A pause taken back, a demand and an interval, before and after `Start`. -/
theorem configured_before_or_after_start_emptyCollector :
    ∃ o, Leaves emptyCollector 1000
        [.pause, .setDemand ⟨3⟩, .resume, .setInterval 5, .setBackground true, .pause, .start] o ∧
      Leaves emptyCollector 1000
        [.start, .pause, .setDemand ⟨3⟩, .resume, .setInterval 5, .setBackground true, .pause] o :=
  configured_before_or_after_start (Or.inl supported_emptyCollector) 1000
    [.pause, .setDemand ⟨3⟩, .resume, .setInterval 5, .setBackground true, .pause]

example : (Machine.exec (step emptyCollector) (spawnLazy 1000)
    [.send .pause, .engine, .send .start, .send (.setInterval 5), .engine, .engine, .engine,
      .engine]).bind outcome = some ⟨none, none, 5, .paused⟩ := by decide +kernel

end EngineSystem

end Taskman
