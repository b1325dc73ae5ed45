import Taskman.Core.Model
import Taskman.LTS.Machine

/-!
# The background sampling engine

The engine thread, its command channel and the state it shares with its handles.  The thread is
parked until `Start`; then it runs the sampling loop, which takes a sample at the top when one is
due and otherwise waits for a command.

* `EngineSystem.parkedRecv` : one command while parked;
* `EngineSystem.loopTop`, `EngineSystem.loopRecv` : the two halves of one turn of the loop;
* `EngineSystem.step` : one action of a handle, of the thread or of the clock.

The collector is a parameter; next to its own state the system remembers the last demand and
background mode it was given.  Times are in nanoseconds.
-/

namespace Taskman

/-- The demand bitmask. -/
structure TelemetryDemand where
  bits : ℕ
  deriving DecidableEq

/-- A platform sampler: its state after construction and what its operations do to it. -/
structure SystemCollector (σ : Type*) where
  factory : σ
  sample : σ → ℕ → Except TmError Snapshot × σ
  setDemand : σ → TelemetryDemand → σ
  setBackground : σ → Bool → σ

/-- `reply` names the channel a `SampleNow` is answered on. -/
inductive EngineCmd where
  | start
  | setDemand (demand : TelemetryDemand)
  | setBackground (background : Bool)
  | setInterval (interval : ℕ)
  | pause
  | resume
  | refresh
  | sampleNow (reply : ℕ)
  | shutdown
  deriving DecidableEq

/-- What the engine says of itself. -/
inductive EngineState where
  | notStarted
  | starting
  | running
  | paused
  | stopped
  deriving DecidableEq

/-- What the thread shares with the handles. -/
structure Shared where
  latest : Option Snapshot := none
  state : EngineState
  interval : ℕ
  tickCount : ℕ := 0
  deriving DecidableEq

/-- Configuration that arrived while parked. -/
structure Pending where
  demand : Option TelemetryDemand := none
  background : Option Bool := none
  paused : Bool := false
  deriving DecidableEq

/-- A constructed collector, with the last demand and background mode it was given. -/
structure LiveCollector (σ : Type*) where
  state : σ
  demand : Option TelemetryDemand := none
  background : Option Bool := none
  deriving DecidableEq

/-- Where the thread is in a turn of the sampling loop. -/
inductive LoopPoint where
  | top
  /-- In `recv_timeout`, until `wakeAt`. -/
  | waiting (wakeAt : ℕ)
  deriving DecidableEq

/-- The local state of the sampling loop. -/
structure SamplingLoop (σ : Type*) where
  collector : LiveCollector σ
  lastTick : ℕ
  nextDue : ℕ
  point : LoopPoint
  deriving DecidableEq

/-- Where the thread of the engine is: it waits for a start, samples, or has ended. -/
inductive EnginePhase (σ : Type*) where
  | parked (pending : Pending)
  | looping (l : SamplingLoop σ)
  | stopped
  deriving DecidableEq

/-- The engine thread, its channel and a clock. -/
structure EngineSystem (σ : Type*) where
  phase : EnginePhase σ
  shared : Shared
  queue : List EngineCmd := []
  now : ℕ := 0
  /-- Some handle still exists. -/
  connected : Bool := true
  /-- The snapshots sent to `SampleNow` callers, newest first. -/
  replies : List (ℕ × Snapshot) := []
  deriving DecidableEq

/-- What can happen next to the engine. -/
inductive EngineAction where
  /-- A handle sends a command. -/
  | send (cmd : EngineCmd)
  /-- The last handle is dropped. -/
  | dropHandles
  /-- The engine thread moves. -/
  | engine
  | elapse (dt : ℕ)
  deriving DecidableEq

/-- The shortest wait for a command, 5 ms. -/
def minWait : ℕ := 5 * 10 ^ 6

/-- The wait while paused, one hour. -/
def parkWait : ℕ := 3600 * 10 ^ 9

variable {σ : Type*}

/-- The collector is told what is wanted. -/
def LiveCollector.setDemand (api : SystemCollector σ) (c : LiveCollector σ) (d : TelemetryDemand) :
    LiveCollector σ :=
  { c with state := api.setDemand c.state d, demand := some d }

/-- The collector is told whether the program is in the background. -/
def LiveCollector.setBackground (api : SystemCollector σ) (c : LiveCollector σ) (b : Bool) :
    LiveCollector σ :=
  { c with state := api.setBackground c.state b, background := some b }

/-- `TickHealth::sample`: sample and publish; a collector without support parks the engine. -/
def healthSample (api : SystemCollector σ) (c : LiveCollector σ) (shared : Shared) (now : ℕ) :
    LiveCollector σ × Shared × Option Snapshot :=
  match api.sample c.state now with
  | (.ok snap, state) =>
    ({ c with state := state },
      { shared with latest := some snap, tickCount := shared.tickCount + 1 }, some snap)
  | (.error (.unsupported _), state) =>
    ({ c with state := state }, { shared with state := .paused }, none)
  | (.error _, state) => ({ c with state := state }, shared, none)

namespace EngineSystem

/-- A parked engine, as `spawn_lazy` leaves it. -/
def spawnLazy (interval : ℕ) : EngineSystem σ where
  phase := .parked {}
  shared := { state := .notStarted, interval := interval }

/-- The collector as it is built, given what was pending. -/
def buildCollector (api : SystemCollector σ) (pending : Pending) : LiveCollector σ :=
  let c : LiveCollector σ := ⟨api.factory, none, none⟩
  let c := match pending.demand with
    | some d => c.setDemand api d
    | none => c
  match pending.background with
  | some b => c.setBackground api b
  | none => c

/-- The collector is built and the sampling loop is entered. -/
def enterLoop (api : SystemCollector σ) (s : EngineSystem σ) (pending : Pending) :
    EngineSystem σ :=
  let c := buildCollector api pending
  let shared := { s.shared with state := .running }
  -- paused before the collector existed: one snapshot is published first
  let (c, shared) := if pending.paused then
      let (c, shared, _) := healthSample api c shared s.now
      (c, { shared with state := .paused })
    else (c, shared)
  { s with phase := .looping ⟨c, s.now, s.now, .top⟩, shared := shared }

/-- A running engine, as `spawn` leaves it once the thread is in its loop. -/
def spawn (api : SystemCollector σ) (interval : ℕ) : EngineSystem σ :=
  enterLoop api
    { spawnLazy interval with shared := { state := .starting, interval := interval } } {}

/-- The thread has left its loop. -/
def stop (s : EngineSystem σ) : EngineSystem σ :=
  { s with phase := .stopped, shared := { s.shared with state := .stopped }, queue := [] }

/-- One command received while parked. -/
def parkedRecv (api : SystemCollector σ) (s : EngineSystem σ) (pending : Pending) :
    EngineCmd → EngineSystem σ
  | .start => s.enterLoop api pending
  | .setDemand d => { s with phase := .parked { pending with demand := some d } }
  | .setBackground b => { s with phase := .parked { pending with background := some b } }
  | .setInterval i => { s with shared := { s.shared with interval := i } }
  | .shutdown => s.stop
  | .pause => { s with phase := .parked { pending with paused := true } }
  | .resume => { s with phase := .parked { pending with paused := false } }
  -- the first sample Start takes answers a refresh
  | .refresh => s
  | .sampleNow _ => s

/-- The top of the loop: a sample if one is due, then the wait. -/
def loopTop (api : SystemCollector σ) (s : EngineSystem σ) (l : SamplingLoop σ) :
    EngineSystem σ :=
  let (l, shared) :=
    if s.shared.state = .running ∧ l.nextDue ≤ s.now then
      let (c, shared, _) := healthSample api l.collector s.shared s.now
      ({ l with collector := c, lastTick := s.now, nextDue := s.now + shared.interval }, shared)
    else (l, s.shared)
  let wait := if shared.state = .running then max (l.nextDue - s.now) minWait else parkWait
  { s with phase := .looping { l with point := .waiting (s.now + wait) }, shared := shared }

/-- One command received in the loop. -/
def loopRecv (api : SystemCollector σ) (s : EngineSystem σ) (l : SamplingLoop σ) :
    EngineCmd → EngineSystem σ
  | .setInterval i =>
    { s with
      phase := .looping { l with nextDue := l.lastTick + i, point := .top }
      shared := { s.shared with interval := i } }
  | .setDemand d =>
    { s with phase := .looping { l with collector := l.collector.setDemand api d, point := .top } }
  | .setBackground b =>
    { s with
      phase := .looping { l with collector := l.collector.setBackground api b, point := .top } }
  | .pause =>
    { s with
      phase := .looping { l with point := .top }
      shared := { s.shared with state := .paused } }
  | .resume =>
    if s.shared.state = .running then { s with phase := .looping { l with point := .top } } else
    { s with
      phase := .looping { l with nextDue := s.now, point := .top }
      shared := { s.shared with state := .running } }
  | .start => { s with phase := .looping { l with point := .top } }
  | .refresh =>
    let (c, shared, _) := healthSample api l.collector s.shared s.now
    { s with
      phase := .looping ⟨c, s.now, s.now + shared.interval, .top⟩
      shared := shared }
  | .sampleNow reply =>
    let (c, shared, snap) := healthSample api l.collector s.shared s.now
    { s with
      phase := .looping ⟨c, s.now, s.now + shared.interval, .top⟩
      shared := shared
      replies := match snap with
        | some snap => (reply, snap) :: s.replies
        | none => s.replies }
  | .shutdown => s.stop

/-- The engine thread moves: it receives a command, takes the top of its loop, or times out. -/
def engineMove (api : SystemCollector σ) (s : EngineSystem σ) : Option (EngineSystem σ) :=
  match s.phase with
  | .parked pending =>
    match s.queue with
    | cmd :: queue => some (parkedRecv api { s with queue := queue } pending cmd)
    | [] => if s.connected then none else some s.stop
  | .looping l =>
    match l.point with
    | .top => some (s.loopTop api l)
    | .waiting wakeAt =>
      match s.queue with
      | cmd :: queue => some (loopRecv api { s with queue := queue } l cmd)
      | [] =>
        if !s.connected then some s.stop
        else if wakeAt ≤ s.now then some { s with phase := .looping { l with point := .top } }
        else none
  | .stopped => none

/-- A handle sends a command; a new interval is visible to every handle at once. -/
def handleSend (s : EngineSystem σ) (cmd : EngineCmd) : EngineSystem σ :=
  let s := match cmd with
    | .setInterval i => { s with shared := { s.shared with interval := i } }
    | _ => s
  match s.phase with
  | .stopped => s
  | _ => { s with queue := s.queue ++ [cmd] }

/-- One action of a handle, of the thread or of the clock. -/
def step (api : SystemCollector σ) (s : EngineSystem σ) :
    EngineAction → Option (EngineSystem σ)
  | .send cmd => if s.connected then some (s.handleSend cmd) else none
  | .dropHandles => some { s with connected := false }
  | .engine => s.engineMove api
  | .elapse dt => some { s with now := s.now + dt }

end EngineSystem

end Taskman
