import Taskman.LTS.Fair

/-!
# The broker's accept loop

One thread of the core service accepts clients on a pipe instance, arms the next instance and hands
the client to a worker.  A second thread waits for a stop request, raises a flag and wakes the first
by connecting to the instance it listens on; it waits until there is such an instance.

* `AcceptLoop.step` : the loop, the stop thread, and what clients and the system do meanwhile;
* `AcceptLoop.Inv` : where the two threads stand to each other;
* `AcceptLoop.Counted` : what the failure counter has counted;
* `accept_loop` : **the loop gives up only after sixteen real failures in a row, and a stop request
  ends it**.
-/

namespace Taskman

namespace AcceptLoop

/-- How many workers serve the clients. -/
def workerCount : ℕ := 2

/-- How many connected clients may wait for a worker. -/
def workQueueCap : ℕ := 16

/-- Consecutive failures tolerated before the broker gives up. -/
def maxConsecutiveAcceptFailures : ℕ := 16

/-- A pipe instance. -/
inductive Instance where
  /-- The next opener is connected, also before the server calls `ConnectNamedPipe`. -/
  | listening
  | connected
  /-- The client closed its handle before the server accepted it. -/
  | vanished
  | broken
  deriving DecidableEq

/-- `AcceptOutcome`. -/
inductive AcceptOutcome where
  | connected
  | clientVanished
  | failed
  deriving DecidableEq

/-- The answer of `create_pipe_instance`. -/
inductive Created where
  | armed
  | busy
  | failed
  deriving DecidableEq

/-- What the loop finds out about a client. -/
inductive Client where
  /-- Its process or image could not be resolved. -/
  | unresolved
  | unexpected
  | gui

/-- What an accept can fail with. -/
inductive Error where
  | create
  | connect
  | channelClosed
  deriving DecidableEq

/-- Where the accept loop is. -/
inductive LoopAt where
  | test
  /-- `listener.take()`, or a new instance. -/
  | take
  /-- Asleep for `PIPE_REARM_BACKOFF`. -/
  | backoff
  | announce
  /-- In `connect_pipe`. -/
  | accept
  | retract (accepted : AcceptOutcome)
  | recheck (accepted : AcceptOutcome)
  | rearm (accepted : AcceptOutcome)
  | settle (accepted : AcceptOutcome)
  | identify
  | leave
  | ended (error : Option Error)
  deriving DecidableEq

/-- Where the stop thread is. -/
inductive StopAt where
  | receive
  | store
  /-- Waiting for the listener. -/
  | wait
  /-- In `open_client_pipe`. -/
  | wake
  | finished
  deriving DecidableEq

/-- What the loop meets on its pipe. -/
inductive Event where
  | connected
  | vanished
  | busy
  | failure
  deriving DecidableEq

/-- The accept loop, its pipe instances, the work queue and the service around it. -/
structure State where
  stopRequested : Bool := false
  stopped : Bool := false
  listenerReady : Bool := false
  listener : Option Instance := some .listening
  /-- The instance that is being accepted. -/
  pipe : Option Instance := none
  consecutiveFailures : ℕ := 0
  queued : ℕ := 0
  /-- Worker threads that have not died. -/
  workers : ℕ := workerCount
  loop : LoopAt := .test
  stop : StopAt := .receive
  /-- All that was met; nothing reads this. -/
  history : List Event := []

/-- The two variables of the loop that hold an instance. -/
inductive Slot where
  | listener
  | pipe
  deriving DecidableEq

/-- What can happen next in the loop, in the service or at the other ends of the pipe. -/
inductive Action where
  | requestStop
  | opens (slot : Slot)
  | closes (slot : Slot)
  | breaks (slot : Slot)
  /-- A worker takes a client from the queue. -/
  | serve
  | workerDies
  /-- The stop thread goes on; `opened` says whether its `CreateFileW` succeeds. -/
  | stop (opened : Bool)
  /-- The loop goes on; `created` and `client` are what it is told if it asks. -/
  | loop (created : Created) (client : Client)

/-- The threads that have to take their steps for a stop to come through. -/
inductive Thread where
  | stop
  | loop

/-- The thread an action belongs to. -/
def Action.thread : Action → Option Thread
  | .stop _ => some .stop
  | .loop _ _ => some .loop
  | _ => none

namespace State

/-- The instance in a slot. -/
def slot (s : State) : Slot → Option Instance
  | .listener => s.listener
  | .pipe => s.pipe

/-- An instance put into a slot. -/
def setSlot (s : State) : Slot → Instance → State
  | .listener, i => { s with listener := some i }
  | .pipe, i => { s with pipe := some i }

/-- A client can connect to one of the instances. -/
def Listening (s : State) : Prop := s.pipe = some .listening ∨ s.listener = some .listening

/-- A client connects to the instance that listens. -/
def connect (s : State) : State :=
  if s.pipe = some .listening then s.setSlot .pipe .connected
  else if s.listener = some .listening then s.setSlot .listener .connected
  else s

/-- A real failure is counted, and the loop gives up or goes on. -/
def fail (s : State) (error : Error) : State :=
  { s with
    pipe := none
    consecutiveFailures := s.consecutiveFailures + 1
    history := s.history ++ [.failure]
    loop := if maxConsecutiveAcceptFailures ≤ s.consecutiveFailures + 1 then .ended (some error)
      else .test }

/-- Holders of the receiving end of the work queue: the workers, and `run_broker` itself. -/
def receivers (s : State) : ℕ := s.workers + 1

end State

/-- What `connect_pipe` returns; on an instance that still listens it blocks. -/
def Instance.accepted : Instance → Option AcceptOutcome
  | .listening => none
  | .connected => some .connected
  | .vanished => some .clientVanished
  | .broken => some .failed

/-- `create_pipe_instance(..).ok()`. -/
def Created.armedInstance : Created → Option Instance
  | .armed => some .listening
  | _ => none

/-- What a refused instance adds to the history. -/
def Created.events : Created → List Event
  | .armed => []
  | .busy => [.busy]
  | .failed => [.failure]

/-- The next step of the accept loop. -/
def loopStep (created : Created) (client : Client) (s : State) : Option State :=
  match s.loop with
  | .test => some { s with loop := if s.stopped then .leave else .take }
  | .take =>
    match s.listener with
    | some pipe => some { s with pipe := some pipe, listener := none, loop := .announce }
    | none =>
      match created with
      | .armed => some { s with pipe := some .listening, loop := .announce }
      -- every instance is held: back-pressure, not a fault
      | .busy => some { s with history := s.history ++ [.busy], loop := .backoff }
      | .failed => some (s.fail .create)
  | .backoff => some { s with loop := .test }
  | .announce => some { s with listenerReady := true, loop := .accept }
  | .accept =>
    (s.pipe.bind Instance.accepted).map fun accepted => { s with loop := .retract accepted }
  | .retract accepted => some { s with listenerReady := false, loop := .recheck accepted }
  | .recheck accepted => some { s with loop := if s.stopped then .leave else .rearm accepted }
  -- a failure to arm the next instance here is not counted: the next turn tries again
  | .rearm accepted =>
    some { s with
      listener := created.armedInstance
      history := s.history ++ created.events
      loop := .settle accepted }
  | .settle .connected =>
    some { s with
      consecutiveFailures := 0
      history := s.history ++ [.connected]
      loop := .identify }
  | .settle .clientVanished =>
    some { s with
      pipe := none
      consecutiveFailures := 0
      history := s.history ++ [.vanished]
      loop := .test }
  | .settle .failed => some (s.fail .connect)
  | .identify =>
    match client with
    | .unresolved | .unexpected => some { s with pipe := none, loop := .test }
    | .gui =>
      if s.receivers = 0 then some { s with loop := .ended (some .channelClosed) }
      else if s.queued < workQueueCap then
        some { s with pipe := none, queued := s.queued + 1, loop := .test }
      else some { s with pipe := none, loop := .test }
  | .leave => some { s with listenerReady := true, loop := .ended none }
  | .ended _ => none

/-- The next step of the stop thread. -/
def stopStep (opened : Bool) (s : State) : Option State :=
  match s.stop with
  | .receive => if s.stopRequested then some { s with stop := .store } else none
  | .store => some { s with stopped := true, stop := .wait }
  | .wait => if s.listenerReady then some { s with stop := .wake } else none
  | .wake => some { (if opened then s.connect else s) with stop := .finished }
  | .finished => none

/-- One step, where it is enabled. -/
def step (s : State) : Action → Option State
  | .requestStop => some { s with stopRequested := true }
  | .opens slot =>
    if s.slot slot = some .listening then some (s.setSlot slot .connected) else none
  | .closes slot =>
    if s.slot slot = some .connected then some (s.setSlot slot .vanished) else none
  | .breaks slot => if (s.slot slot).isSome then some (s.setSlot slot .broken) else none
  | .serve => if 0 < s.workers ∧ 0 < s.queued then some { s with queued := s.queued - 1 } else none
  | .workerDies => if 0 < s.workers then some { s with workers := s.workers - 1 } else none
  | .stop opened => stopStep opened s
  | .loop created client => loopStep created client s

/-- Opening the pipe connects to an instance that listens: `CreateFileW` on it does not fail. -/
def OpensListening (s : State) (a : Action) : Prop :=
  a = .stop false → s.stop = .wake → ¬ s.Listening

/-! ### Where the threads stand -/

/-- The loop has announced its listener, or has left. -/
def LoopAt.announced : LoopAt → Bool
  | .accept | .retract _ | .ended none => true
  | _ => false

/-- There is an instance to be accepted. -/
def LoopAt.holdsPipe : LoopAt → Bool
  | .announce | .accept => true
  | _ => false

/-- The loop waits for no other client once the flag is up. -/
def LoopAt.closing : LoopAt → Bool
  | .accept | .retract _ | .recheck _ | .leave | .ended _ => true
  | _ => false

/-- The stop request has been stored. -/
def StopAt.raised : StopAt → Bool
  | .receive | .store => false
  | _ => true

/-- The loop was woken after it. -/
def StopAt.woken : StopAt → Bool
  | .wake | .finished => true
  | _ => false

/-- What holds between the loop, its pipe and the stop request. -/
structure Inv (s : State) : Prop where
  ready : s.listenerReady = s.loop.announced
  pipe : s.loop.holdsPipe → s.pipe.isSome
  stopped : s.stopped = s.stop.raised
  closing : s.stop.woken → s.loop.closing
  woken : s.stop = .finished → s.loop = .accept → s.pipe ≠ some .listening

theorem inv_start : Inv {} where
  ready := rfl
  pipe h := by cases h
  stopped := rfl
  closing h := by cases h
  woken h := by cases h

theorem StopAt.raised_of_woken {p : StopAt} (h : p.woken) : p.raised := by
  cases p <;> first | rfl | cases h

theorem LoopAt.closing_of_announced {l : LoopAt} (h : l.announced) : l.closing := by
  cases l <;> first | rfl | cases h

theorem loopStep_stop {s s' : State} {created : Created} {client : Client}
    (hs : loopStep created client s = some s') :
    s'.stop = s.stop ∧ s'.stopped = s.stopped ∧ s'.stopRequested = s.stopRequested := by
  cases hl : s.loop <;> simp only [loopStep, hl] at hs <;>
    grind [State.fail, Option.map_eq_some_iff]

theorem loopStep_ready {s s' : State} {created : Created} {client : Client}
    (hready : s.listenerReady = s.loop.announced) (hs : loopStep created client s = some s') :
    s'.listenerReady = s'.loop.announced := by
  cases hl : s.loop <;> rw [hl] at hready <;> simp only [loopStep, hl] at hs <;>
    grind [State.fail, Option.map_eq_some_iff, LoopAt.announced]

theorem loopStep_pipe {s s' : State} {created : Created} {client : Client}
    (hpipe : s.loop.holdsPipe → s.pipe.isSome) (hs : loopStep created client s = some s') :
    s'.loop.holdsPipe → s'.pipe.isSome := by
  cases hl : s.loop <;> rw [hl] at hpipe <;> simp only [loopStep, hl] at hs <;>
    grind [State.fail, Option.map_eq_some_iff, LoopAt.holdsPipe]

theorem loopStep_closing {s s' : State} {created : Created} {client : Client}
    (hstopped : s.stopped) (hclosing : s.loop.closing)
    (hs : loopStep created client s = some s') : s'.loop.closing := by
  cases hl : s.loop <;> rw [hl] at hclosing <;> simp only [loopStep, hl] at hs <;>
    grind [Option.map_eq_some_iff, LoopAt.closing]

theorem loopStep_accept {s s' : State} {created : Created} {client : Client}
    (hs : loopStep created client s = some s') (haccept : s'.loop = .accept) :
    s.loop = .announce := by
  cases hl : s.loop <;> simp only [loopStep, hl] at hs <;>
    grind [State.fail, Option.map_eq_some_iff]

theorem Inv.loopStep {s s' : State} {created : Created} {client : Client} (h : Inv s)
    (hs : loopStep created client s = some s') : Inv s' := by
  obtain ⟨hstop, hflag, -⟩ := loopStep_stop hs
  have hclosing : s.stop.woken → s'.loop.closing := fun hw =>
    loopStep_closing (h.stopped ▸ StopAt.raised_of_woken hw) (h.closing hw) hs
  refine ⟨loopStep_ready h.ready hs, loopStep_pipe h.pipe hs, ?_, ?_, ?_⟩
  · rw [hflag, hstop, h.stopped]
  · rwa [hstop]
  · intro hfinished haccept
    -- a thread that has woken the loop finds it closing, so it does not announce again
    have hw : s.loop.closing := h.closing (by rw [← hstop, hfinished]; rfl)
    rw [loopStep_accept hs haccept] at hw
    cases hw

theorem Inv.stopStep {s s' : State} {opened : Bool} (h : Inv s)
    (hopen : OpensListening s (.stop opened))
    (hs : stopStep opened s = some s') : Inv s' := by
  obtain ⟨hready, hpipe, hstopped, hclosing, hwoken⟩ := h
  unfold OpensListening State.Listening at hopen
  constructor <;> cases hl : s.stop <;> simp only [AcceptLoop.stopStep, hl] at hs <;>
    grind [State.connect, State.setSlot, LoopAt.closing_of_announced, StopAt.raised, StopAt.woken]

theorem Inv.step {s s' : State} {a : Action} (h : Inv s) (hopen : OpensListening s a)
    (hs : step s a = some s') : Inv s' := by
  cases a with
  | stop opened => exact h.stopStep hopen hs
  | loop created client => exact h.loopStep hs
  | requestStop =>
    obtain rfl := Option.some.inj hs
    exact ⟨h.ready, h.pipe, h.stopped, h.closing, h.woken⟩
  | opens slot =>
    obtain ⟨hready, hpipe, hstopped, hclosing, hwoken⟩ := h
    constructor <;> cases slot <;> grind [AcceptLoop.step, State.setSlot, State.slot]
  | closes slot =>
    obtain ⟨hready, hpipe, hstopped, hclosing, hwoken⟩ := h
    constructor <;> cases slot <;> grind [AcceptLoop.step, State.setSlot, State.slot]
  | breaks slot =>
    obtain ⟨hready, hpipe, hstopped, hclosing, hwoken⟩ := h
    constructor <;> cases slot <;> grind [AcceptLoop.step, State.setSlot, State.slot]
  | serve =>
    obtain ⟨hready, hpipe, hstopped, hclosing, hwoken⟩ := h
    constructor <;> grind [AcceptLoop.step]
  | workerDies =>
    obtain ⟨hready, hpipe, hstopped, hclosing, hwoken⟩ := h
    constructor <;> grind [AcceptLoop.step]

/-! ### The way to the end -/

/-- Steps of the loop to its end once the flag is up, without those of the stop thread. -/
def LoopAt.rank : LoopAt → ℕ
  | .ended _ => 0
  | .leave => 1
  | .test => 2
  | .backoff | .identify => 3
  | .settle _ => 4
  | .rearm _ => 5
  | .recheck _ => 6
  | .retract _ => 7
  | .accept => 8
  | .announce => 12
  | .take => 13

/-- How far the stop request still has to go. -/
def StopAt.rank : StopAt → ℕ
  | .receive => 15
  | .store => 14
  | .wait => 2
  | .wake => 1
  | .finished => 0

/-- The loop is blocked: nobody has connected to the instance it listens on. -/
def State.Blocked (s : State) : Prop := s.loop = .accept ∧ s.pipe = some .listening

instance (s : State) : Decidable s.Blocked := inferInstanceAs (Decidable (_ ∧ _))

/-- How many steps of the two threads are left at most once a stop is requested. -/
def State.rank (s : State) : ℕ :=
  if s.stop.raised then
    s.loop.rank + if s.Blocked then s.stop.rank + 1 else 0
  else s.stop.rank

/-- The thread that brings the end nearer. -/
def State.helper (s : State) : Thread :=
  if s.stop.raised ∧ ¬ s.Blocked then .loop else .stop

theorem loopStep_enabled {s : State} (h : Inv s) (hended : ∀ e, s.loop ≠ .ended e)
    (hblocked : ¬ s.Blocked) : (loopStep .armed .unresolved s).isSome := by
  cases hl : s.loop with
  | accept =>
    obtain ⟨pipe, hpipe⟩ := Option.isSome_iff_exists.mp (h.pipe (by rw [hl]; rfl))
    cases pipe with
    | listening => exact absurd ⟨hl, hpipe⟩ hblocked
    | _ => simp [loopStep, hl, hpipe, Instance.accepted]
  | ended e => exact absurd hl (hended e)
  | take => cases hq : s.listener <;> simp [loopStep, hl, hq]
  | settle accepted => cases accepted <;> simp [loopStep, hl]
  | _ => simp [loopStep, hl]

theorem stopStep_enabled {s : State} (h : Inv s) (hrequested : s.stopRequested)
    (hhelps : ¬ s.stop.raised ∨ s.Blocked) : (stopStep true s).isSome := by
  cases hp : s.stop with
  | receive => simp [stopStep, hp, hrequested]
  | store => simp [stopStep, hp]
  | wake => simp [stopStep, hp]
  | wait =>
    rcases hhelps with hlow | ⟨haccept, -⟩
    · rw [hp] at hlow
      exact absurd rfl hlow
    · have hready := h.ready
      rw [haccept] at hready
      simp [stopStep, hp, hready, LoopAt.announced]
  | finished =>
    rcases hhelps with hlow | ⟨haccept, hlistening⟩
    · rw [hp] at hlow
      exact absurd rfl hlow
    · exact absurd hlistening (h.woken hp haccept)

theorem stopRequested_step {s s' : State} {a : Action} (hs : step s a = some s')
    (hrequested : s.stopRequested) : s'.stopRequested := by
  cases a with
  | loop created client => rwa [(loopStep_stop hs).2.2]
  | stop opened =>
    cases hp : s.stop <;> simp only [step, stopStep, hp] at hs <;>
      grind [State.connect, State.setSlot]
  | opens slot => cases slot <;> grind [step, State.setSlot]
  | closes slot => cases slot <;> grind [step, State.setSlot]
  | breaks slot => cases slot <;> grind [step, State.setSlot]
  | _ => grind [step]

theorem loopStep_of_blocked {s : State} (h : s.Blocked) (created : Created) (client : Client) :
    loopStep created client s = none := by
  simp [loopStep, h.1, h.2, Instance.accepted]

/-- A step of the loop brings it nearer to its end. -/
theorem rank_loopStep {s s' : State} {created : Created} {client : Client} (h : Inv s)
    (hraised : s.stop.raised) (hs : loopStep created client s = some s') : s'.rank < s.rank := by
  obtain ⟨hstop, -, -⟩ := loopStep_stop hs
  have hstopped : s.stopped = true := h.stopped.trans hraised
  have hfree : ¬ s.Blocked := fun hb => by simp [loopStep_of_blocked hb] at hs
  have hpause : s.stop.rank ≤ 2 := by
    cases hp : s.stop <;> simp_all [StopAt.raised, StopAt.rank]
  have hmove : s'.loop.rank < s.loop.rank ∧ (s'.loop = .accept → s.loop = .announce) := by
    cases hl : s.loop <;> simp only [loopStep, hl] at hs <;>
      grind [State.fail, Option.map_eq_some_iff, LoopAt.rank]
  unfold State.rank
  rw [hstop, if_pos hraised, if_pos hraised, if_neg hfree]
  split
  · next hb =>
    rw [hb.1, hmove.2 hb.1]
    simp only [LoopAt.rank]
    omega
  · exact hmove.1

theorem rank_stopStep {s s' : State} {opened : Bool} (hopen : OpensListening s (.stop opened))
    (hs : stopStep opened s = some s') :
    s'.rank < s.rank ∨ s'.rank = s.rank ∧ s'.helper = s.helper ∧ s.helper ≠ .stop := by
  unfold OpensListening State.Listening at hopen
  cases hp : s.stop <;> simp only [stopStep, hp] at hs
  case receive => grind [State.rank, StopAt.raised, StopAt.rank]
  case store =>
    obtain rfl := Option.some.inj hs
    have hloop : s.loop.rank ≤ 13 := by cases s.loop <;> simp [LoopAt.rank]
    grind [State.rank, State.Blocked, LoopAt.rank, StopAt.raised, StopAt.rank]
  case wait =>
    grind [State.rank, State.helper, State.Blocked, StopAt.raised, StopAt.rank]
  case wake =>
    obtain rfl := Option.some.inj hs
    by_cases hb : s.pipe = some .listening
    · cases opened with
      | false => exact absurd (.inl hb) (hopen rfl hp)
      | true =>
        grind [State.rank, State.helper, State.Blocked, State.connect, State.setSlot, StopAt.raised,
          StopAt.rank]
    · grind [State.rank, State.helper, State.Blocked, State.connect, State.setSlot, StopAt.raised,
        StopAt.rank]
  case finished => cases hs

theorem rank_outside {s s' : State} {a : Action} (ha : a.thread = none)
    (hs : step s a = some s') :
    s'.rank < s.rank ∨ s'.rank = s.rank ∧ s'.helper = s.helper := by
  have hsame : s'.stop = s.stop ∧ s'.loop = s.loop ∧
      (s'.pipe = some .listening → s.pipe = some .listening) := by
    cases a with
    | opens slot => cases slot <;> grind [step, State.setSlot]
    | closes slot => cases slot <;> grind [step, State.setSlot]
    | breaks slot => cases slot <;> grind [step, State.setSlot]
    | stop _ => cases ha
    | loop _ _ => cases ha
    | _ => grind [step]
  obtain ⟨hstop, hloop, hpipe⟩ := hsame
  have hblocked : s'.Blocked → s.Blocked := fun hb => ⟨hloop ▸ hb.1, hpipe hb.2⟩
  unfold State.rank State.helper
  rw [hstop, hloop]
  by_cases hb : s.Blocked
  · by_cases hb' : s'.Blocked <;> simp [hb, hb']
    grind
  · simp [hb, mt hblocked hb]

/-- **The way to the end**: once a stop is requested, one of the two threads can always act, and
brings the end of the loop nearer. -/
theorem progress : Machine.Progress step Action.thread OpensListening
    (fun s => Inv s ∧ s.stopRequested) (fun s => ∃ e, s.loop = .ended e) State.rank
    State.helper where
  enabled := by
    rintro s ⟨h, hrequested⟩ hgoal
    unfold State.helper
    split
    · next hhelps =>
      exact ⟨.loop .armed .unresolved, rfl,
        loopStep_enabled h (fun e he => hgoal ⟨e, he⟩) hhelps.2⟩
    · next hhelps =>
      refine ⟨.stop true, rfl, stopStep_enabled h hrequested ?_⟩
      by_cases hraised : s.stop.raised
      · exact .inr (by_contra fun hb => hhelps ⟨hraised, hb⟩)
      · exact .inl hraised
  step := by
    rintro s a s' ⟨h, hrequested⟩ hgoal hopen hs
    refine .inr ⟨⟨h.step hopen hs, stopRequested_step hs hrequested⟩, ?_⟩
    cases a with
    | stop opened =>
      rcases rank_stopStep hopen hs with hlt | ⟨heq, hsame, hother⟩
      · exact .inl hlt
      · exact .inr ⟨heq, hsame, fun heq => hother (Option.some.inj heq).symm⟩
    | loop created client =>
      by_cases hraised : s.stop.raised
      · exact .inl (rank_loopStep h hraised hs)
      · -- the stop thread is still to raise the flag
        obtain ⟨hstop, -, -⟩ := loopStep_stop hs
        refine .inr ⟨?_, ?_, ?_⟩ <;> simp [State.rank, State.helper, Action.thread, hstop, hraised]
    | _ =>
      rcases rank_outside rfl hs with hlt | ⟨heq, hsame⟩
      · exact .inl hlt
      · exact .inr ⟨heq, hsame, Option.some_ne_none _ ∘ Eq.symm⟩

/-! ### What is counted -/

/-- The last events, leaving out busy pipes, are as many real failures as are counted; the loop has
given up just when there are sixteen. -/
structure Counted (s : State) : Prop where
  failures : ∃ before, s.history.filter (· ≠ .busy) =
    before ++ List.replicate s.consecutiveFailures .failure
  running : (∀ e, s.loop ≠ .ended (some e)) → s.consecutiveFailures < maxConsecutiveAcceptFailures
  ended : ∀ e, s.loop = .ended (some e) → s.consecutiveFailures = maxConsecutiveAcceptFailures

theorem counted_start : Counted {} where
  failures := ⟨[], rfl⟩
  running _ := by decide
  ended e h := by cases h

/-- Nothing is counted. -/
theorem Counted.of_eq {s s' : State} (h : Counted s)
    (hhistory : s'.history = s.history) (hfailures : s'.consecutiveFailures = s.consecutiveFailures)
    (hbefore : ∀ e, s.loop ≠ .ended (some e)) (hafter : ∀ e, s'.loop ≠ .ended (some e)) :
    Counted s' where
  failures := by
    rw [hhistory, hfailures]
    exact h.failures
  running _ := hfailures ▸ h.running hbefore
  ended e he := absurd he (hafter e)

/-- A real failure is counted. -/
theorem Counted.fail {s : State} (h : Counted s) (hbefore : ∀ e, s.loop ≠ .ended (some e))
    (error : Error) : Counted (s.fail error) := by
  have hlt := h.running hbefore
  obtain ⟨before, hbefore⟩ := h.failures
  refine ⟨⟨before, ?_⟩, ?_, ?_⟩
  · show (s.history ++ [Event.failure]).filter (· ≠ .busy) = _
    rw [List.filter_append, hbefore, List.append_assoc]
    exact congrArg (before ++ ·) List.replicate_succ'.symm
  · intro hrunning
    by_contra hge
    exact hrunning error (if_pos (Nat.not_lt.mp hge))
  · intro e he
    refine Nat.le_antisymm hlt ?_
    by_contra hge
    have hloop : (s.fail error).loop = .test := if_neg hge
    rw [hloop] at he
    cases he

/-- A client was accepted, or had vanished: the count starts again. -/
theorem Counted.reset {s : State} (hfailures : s.consecutiveFailures = 0)
    (hafter : ∀ e, s.loop ≠ .ended (some e)) : Counted s where
  failures := by
    refine ⟨s.history.filter (· ≠ .busy), ?_⟩
    rw [hfailures, List.replicate_zero, List.append_nil]
  running _ := by
    rw [hfailures]
    decide
  ended e he := absurd he (hafter e)

/-- An instance was refused, and the loop goes on without counting. -/
theorem Counted.refused {s s' : State} (h : Counted s) (created : Created)
    (hhistory : s'.history = s.history ++ created.events)
    (hfailures : s'.consecutiveFailures = s.consecutiveFailures)
    (hbefore : ∀ e, s.loop ≠ .ended (some e)) (hafter : ∀ e, s'.loop ≠ .ended (some e)) :
    Counted s' where
  failures := by
    obtain ⟨before, hb⟩ := h.failures
    rw [hhistory, hfailures, List.filter_append, hb]
    cases created with
    | armed => exact ⟨before, List.append_nil _⟩
    | busy => exact ⟨before, List.append_nil _⟩
    | failed =>
      refine ⟨before ++ [.failure], ?_⟩
      show before ++ List.replicate _ Event.failure ++ [Event.failure] = _
      rw [List.append_assoc, List.append_assoc, ← List.replicate_succ', List.replicate_succ,
        List.singleton_append]
  running _ := hfailures ▸ h.running hbefore
  ended e he := absurd he (hafter e)

theorem Counted.loopStep {s s' : State} {created : Created} {client : Client} (h : Counted s)
    (hs : loopStep created client s = some s') : Counted s' := by
  have hbefore : ∀ e, s.loop ≠ .ended (some e) := by
    intro e he
    simp [AcceptLoop.loopStep, he] at hs
  cases hl : s.loop with
  | test | backoff | announce | retract | recheck | leave =>
    simp only [AcceptLoop.loopStep, hl, Option.some.injEq] at hs
    exact h.of_eq (by simp [← hs]) (by simp [← hs]) hbefore (by grind)
  | take =>
    simp only [AcceptLoop.loopStep, hl] at hs
    cases hq : s.listener with
    | some pipe =>
      simp only [hq, Option.some.injEq] at hs
      exact h.of_eq (by simp [← hs]) (by simp [← hs]) hbefore (by simp [← hs])
    | none =>
      rw [hq] at hs
      cases created with
      | armed =>
        obtain rfl := Option.some.inj hs
        exact h.of_eq rfl rfl hbefore fun e he => by cases he
      | busy =>
        obtain rfl := Option.some.inj hs
        exact h.refused .busy rfl rfl hbefore fun e he => by cases he
      | failed =>
        obtain rfl := Option.some.inj hs
        exact h.fail hbefore .create
  | accept =>
    simp only [AcceptLoop.loopStep, hl] at hs
    obtain ⟨accepted, -, rfl⟩ := Option.map_eq_some_iff.mp hs
    exact h.of_eq rfl rfl hbefore fun e he => by cases he
  | rearm accepted =>
    simp only [AcceptLoop.loopStep, hl] at hs
    obtain rfl := Option.some.inj hs
    exact h.refused created rfl rfl hbefore fun e he => by cases he
  | settle accepted =>
    cases accepted with
    | connected =>
      simp only [AcceptLoop.loopStep, hl] at hs
      obtain rfl := Option.some.inj hs
      exact .reset rfl fun e he => by cases he
    | clientVanished =>
      simp only [AcceptLoop.loopStep, hl] at hs
      obtain rfl := Option.some.inj hs
      exact .reset rfl fun e he => by cases he
    | failed =>
      simp only [AcceptLoop.loopStep, hl] at hs
      obtain rfl := Option.some.inj hs
      exact h.fail hbefore .connect
  | identify =>
    -- `run_broker` holds the receiver itself, so the queue is never disconnected
    have hreceivers : s.receivers ≠ 0 := Nat.succ_ne_zero _
    simp only [AcceptLoop.loopStep, hl, if_neg hreceivers] at hs
    exact h.of_eq (by grind) (by grind) hbefore (by grind)
  | ended e => simp [AcceptLoop.loopStep, hl] at hs

/-- The stop thread and the outside count nothing. -/
theorem counted_frame {s s' : State} {a : Action} (ha : a.thread ≠ some .loop)
    (hs : step s a = some s') : s'.history = s.history ∧
      s'.consecutiveFailures = s.consecutiveFailures ∧ s'.loop = s.loop := by
  cases a with
  | loop created client => exact absurd rfl ha
  | stop opened =>
    cases hp : s.stop <;> simp only [step, stopStep, hp] at hs <;>
      grind [State.connect, State.setSlot]
  | opens slot => cases slot <;> grind [step, State.setSlot]
  | closes slot => cases slot <;> grind [step, State.setSlot]
  | breaks slot => cases slot <;> grind [step, State.setSlot]
  | _ => grind [step]

theorem Counted.step {s s' : State} {a : Action} (h : Counted s) (hs : step s a = some s') :
    Counted s' := by
  by_cases ha : a.thread = some .loop
  · cases a with
    | loop created client => exact h.loopStep hs
    | _ => cases ha
  · obtain ⟨hhistory, hfailures, hloop⟩ := counted_frame ha hs
    refine ⟨?_, fun hrunning => ?_, fun e he => ?_⟩
    · rw [hhistory, hfailures]
      exact h.failures
    · rw [hfailures]
      exact h.running (hloop ▸ hrunning)
    · rw [hfailures]
      exact h.ended e (hloop ▸ he)

/-- **The loop gives up only after sixteen real failures in a row**, with at most busy pipes between
them, **and a stop request ends it**, whenever it comes and whatever clients do. -/
theorem accept_loop :
    (∀ s error, Machine.Reachable step (· = {}) s → s.loop = .ended (some error) →
      ∃ before, s.history.filter (· ≠ .busy) = before ++ List.replicate 16 .failure) ∧
    ∀ r : Machine.Run step, r.state 0 = {} → (∀ t, r.Fair Action.thread t) →
      r.Always OpensListening → ∀ n, (r.state n).stopRequested →
      ∃ m, n ≤ m ∧ ∃ e, (r.state m).loop = .ended e := by
  refine ⟨fun s error h hended => ?_, fun r hstart hfair hopen n hn => ?_⟩
  · have hcounted : Counted s :=
      h.invariant (fun _ hinit => hinit ▸ counted_start) fun _ _ _ hI hs => hI.step hs
    obtain ⟨before, hbefore⟩ := hcounted.failures
    rw [hcounted.ended error hended] at hbefore
    exact ⟨before, hbefore⟩
  · have hinv : Inv (r.state n) :=
      r.invariant (fun _ _ _ hI hC hs => hI.step hC hs) hopen (Nat.zero_le n) (hstart ▸ inv_start)
    exact Machine.Run.eventually progress hopen hfair ⟨hinv, hn⟩

theorem not_enabled_of_ended {s : State} {error : Option Error} (hl : s.loop = .ended error)
    (hp : s.stop = .finished) (t : Thread) : ¬ Machine.Enabled step Action.thread t s := by
  rintro ⟨a, ha, hs⟩
  cases a with
  | stop opened => simp [step, stopStep, hp] at hs
  | loop created client => simp [step, loopStep, hl] at hs
  | _ => cases ha

/-- A stop request comes while the loop is blocked on its first instance. -/
theorem accept_loop_blocked :
    let actions : List Action :=
      [.loop .armed .gui, .loop .armed .gui, .loop .armed .gui, .requestStop, .stop true,
        .stop true, .stop true, .stop true, .loop .armed .gui, .loop .armed .gui,
        .loop .armed .gui, .loop .armed .gui]
    ∃ m, 4 ≤ m ∧ ∃ e, (Machine.Run.stateAt step {} actions m).loop = .ended e :=
  accept_loop.2 (Machine.Run.ofExec {} _ rfl) rfl
    (fun t => Machine.Run.fair_ofExec rfl (not_enabled_of_ended rfl rfl t))
    (fun n a ha heq => absurd (heq ▸ List.mem_of_getElem? ha) (by simp)) 4 rfl

end AcceptLoop

end Taskman
