import Taskman.LTS.Machine
import Taskman.Text.Basic
import Mathlib.Logic.Function.Basic
import Mathlib.Data.List.Nodup

/-!
# The telemetry lane of the broker client

Sampler telemetry goes through one worker thread behind a queue of one job.  A caller takes the
`busy` flag, sends its request with a reply channel of its own and waits for the reply until its
timeout; the worker runs the handler, clears the flag and sends the reply.  Every shared operation
is one action, so a run is any interleaving of any number of calls with the worker, with timeouts
at any time, and with a handler that may return anything, or panic.

* `TelemetryBroker.step` : one action;
* `TelemetryBroker.Outstanding` : who has the one request of the lane;
* `TelemetryBroker.Lane`, `TelemetryBroker.Replies` : the two invariants, the first about the flag
  and the queue, the second about the reply channels;
* `TelemetryBroker.telemetry_lane` : **one request at a time, no full queue, every caller its own
  result, and a free lane once the handler has finished**.
-/

namespace Taskman

/-- How a request of the lane fails. -/
inductive BrokerCallError where
  | unavailable (detail : Text)
  | rejected (detail : Text)
  deriving DecidableEq

/-- `TelemetryReply`, for values of type `ν`. -/
abbrev TelemetryReply (ν : Type*) := Except BrokerCallError ν

/-- `TelemetryJob`.  The reply channels are numbered; `caller` is not in the code. -/
structure TelemetryJob (ρ : Type*) where
  caller : ℕ
  request : ρ
  reply : ℕ
  deriving DecidableEq

/-- A reply channel: what is in it, and which of its ends still exist. -/
structure ReplyChannel (ν : Type*) where
  messages : List (TelemetryReply ν) := []
  sender : Bool := false
  receiver : Bool := false

/-- Where a call of `call_with_timeout` is. -/
inductive TelemetryCall (ρ ν : Type*) where
  | idle
  /-- It has taken the flag. -/
  | admitted (request : ρ)
  /-- Its `try_send` failed; the flag is still up. -/
  | unsent (request : ρ)
  | waiting (request : ρ) (reply : ℕ)
  | returned (request : ρ) (result : TelemetryReply ν)

/-- Where the worker is in its loop. -/
inductive TelemetryWorker (ρ ν : Type*) where
  | receiving
  | handling (job : TelemetryJob ρ)
  /-- The handler has returned; the flag is still up. -/
  | finished (job : TelemetryJob ρ) (result : TelemetryReply ν)
  /-- The flag is down; the reply is not sent yet. -/
  | replying (job : TelemetryJob ρ) (result : TelemetryReply ν)
  /-- The handler has panicked and the thread is gone. -/
  | stopped

/-- The lane with its callers. -/
structure TelemetryBroker (ρ ν : Type*) where
  busy : Bool := false
  /-- The queue of `sync_channel(1)`. -/
  queue : List (TelemetryJob ρ) := []
  worker : TelemetryWorker ρ ν := .receiving
  calls : ℕ → TelemetryCall ρ ν := fun _ => .idle
  channels : ℕ → ReplyChannel ν := fun _ => {}
  nextChannel : ℕ := 0
  /-- What the handler returned, with the caller and the request it was for; newest first. -/
  computed : List (ℕ × ρ × TelemetryReply ν) := []

/-- What can happen next: a step of a call, or of the worker. -/
inductive TelemetryAction (ρ ν : Type*) where
  /-- The compare-and-exchange at the start of call `c`. -/
  | call (c : ℕ) (request : ρ)
  /-- Call `c` opens its reply channel and tries to send. -/
  | trySend (c : ℕ)
  /-- Call `c` takes the flag down after a failed send. -/
  | release (c : ℕ)
  /-- `recv_timeout` of call `c` returns a reply, times out, or finds no sender. -/
  | receive (c : ℕ)
  | timeout (c : ℕ)
  | disconnected (c : ℕ)
  /-- The worker receives a job, its handler returns or panics, it takes the flag down, replies. -/
  | recv
  | handled (result : TelemetryReply ν)
  | panicked
  | store
  | reply

variable {ρ ν : Type*}

/-- The call has the flag and has sent nothing. -/
def TelemetryCall.holding : TelemetryCall ρ ν → Bool
  | admitted _ => true
  | unsent _ => true
  | _ => false

/-- The call has sent its job or is over. -/
def TelemetryCall.past : TelemetryCall ρ ν → Bool
  | waiting _ _ => true
  | returned _ _ => true
  | _ => false

/-- The worker has a request for which the flag is up. -/
def TelemetryWorker.occupied : TelemetryWorker ρ ν → Bool
  | handling _ => true
  | finished _ _ => true
  | stopped => true
  | _ => false

/-- The worker has ended. -/
def TelemetryWorker.isStopped : TelemetryWorker ρ ν → Bool
  | stopped => true
  | _ => false

/-- The job whose reply the worker still has to send. -/
def TelemetryWorker.job : TelemetryWorker ρ ν → Option (TelemetryJob ρ)
  | handling job => some job
  | finished job _ => some job
  | replying job _ => some job
  | _ => none

namespace TelemetryBroker

/-- The answer to a call while another one is outstanding. -/
def inFlight : TelemetryReply ν :=
  .error (.unavailable "telemetry request still in flight".toList)

/-- The answer to a call that finds no worker. -/
def workerStopped : TelemetryReply ν :=
  .error (.unavailable "telemetry worker stopped".toList)

/-- The answer to a call that waited in vain. -/
def timedOut : TelemetryReply ν :=
  .error (.unavailable "telemetry response timed out".toList)

/-- The bound of the job queue. -/
def capacity : ℕ := 1

/-- A call put where it is now. -/
def setCall (s : TelemetryBroker ρ ν) (c : ℕ) (call : TelemetryCall ρ ν) : TelemetryBroker ρ ν :=
  { s with calls := Function.update s.calls c call }

/-- The flag put up or taken down. -/
def setBusy (s : TelemetryBroker ρ ν) (busy : Bool) : TelemetryBroker ρ ν :=
  { s with busy := busy }

/-- A reply channel put into its state. -/
def setChannel (s : TelemetryBroker ρ ν) (ch : ℕ) (channel : ReplyChannel ν) :
    TelemetryBroker ρ ν :=
  { s with channels := Function.update s.channels ch channel }

/-- A call returns; its receiver is dropped. -/
def finishCall (s : TelemetryBroker ρ ν) (c : ℕ) (request : ρ) (ch : ℕ)
    (result : TelemetryReply ν) : TelemetryBroker ρ ν :=
  (s.setCall c (.returned request result)).setChannel ch
    { s.channels ch with messages := [], receiver := false }

/-- The sender of a job's reply channel is dropped. -/
def dropSender (s : TelemetryBroker ρ ν) (job : TelemetryJob ρ) : TelemetryBroker ρ ν :=
  s.setChannel job.reply { s.channels job.reply with sender := false }

/-- One action of a caller or of the worker. -/
def step (s : TelemetryBroker ρ ν) : TelemetryAction ρ ν → Option (TelemetryBroker ρ ν)
  | .call c request =>
    match s.calls c with
    | .idle =>
      if s.busy then some (s.setCall c (.returned request inFlight))
      else some ((s.setCall c (.admitted request)).setBusy true)
    | _ => none
  | .trySend c =>
    match s.calls c with
    | .admitted request =>
      -- a full queue and a worker that is gone both fail the send
      if s.queue.length < capacity ∧ s.worker.isStopped = false then
        let ch := s.nextChannel
        some { (s.setCall c (.waiting request ch)).setChannel ch
            { sender := true, receiver := true } with
          queue := s.queue ++ [⟨c, request, ch⟩]
          nextChannel := ch + 1 }
      else some (s.setCall c (.unsent request))
    | _ => none
  | .release c =>
    match s.calls c with
    | .unsent request => some ((s.setCall c (.returned request workerStopped)).setBusy false)
    | _ => none
  | .receive c =>
    match s.calls c with
    | .waiting request ch =>
      match (s.channels ch).messages with
      | result :: _ => some (s.finishCall c request ch result)
      | [] => none
    | _ => none
  | .timeout c =>
    match s.calls c with
    | .waiting request ch => some (s.finishCall c request ch timedOut)
    | _ => none
  | .disconnected c =>
    match s.calls c with
    | .waiting request ch =>
      match (s.channels ch).messages, (s.channels ch).sender with
      | [], false => some (s.finishCall c request ch workerStopped)
      | _, _ => none
    | _ => none
  | .recv =>
    match s.worker, s.queue with
    | .receiving, job :: queue => some { s with worker := .handling job, queue := queue }
    | _, _ => none
  | .handled result =>
    match s.worker with
    | .handling job =>
      some { s with
        worker := .finished job result
        computed := (job.caller, job.request, result) :: s.computed }
    | _ => none
  | .panicked =>
    match s.worker with
    | .handling job =>
      some { s.queue.foldl dropSender (s.dropSender job) with worker := .stopped, queue := [] }
    | _ => none
  | .store =>
    match s.worker with
    | .finished job result => some { s with worker := .replying job result, busy := false }
    | _ => none
  | .reply =>
    match s.worker with
    | .replying job result =>
      let channel := s.channels job.reply
      -- without a receiver the reply is dropped
      let messages := if channel.receiver then channel.messages ++ [result] else channel.messages
      some { s.setChannel job.reply { channel with messages := messages, sender := false }
        with worker := .receiving }
    | _ => none

/-! ### What an action does -/

/-- The errors a call makes by itself. -/
def LocalError (result : TelemetryReply ν) : Prop :=
  result = inFlight ∨ result = workerStopped ∨ result = timedOut

/-- What the lane can become in one action, and when. -/
inductive Moves (s : TelemetryBroker ρ ν) : TelemetryBroker ρ ν → Prop
  | refused {c : ℕ} {request : ρ} (hc : s.calls c = .idle) (hbusy : s.busy = true) :
    Moves s (s.setCall c (.returned request inFlight))
  | letIn {c : ℕ} {request : ρ} (hc : s.calls c = .idle) (hbusy : ¬ s.busy = true) :
    Moves s ((s.setCall c (.admitted request)).setBusy true)
  | sent {c : ℕ} {request : ρ} (hc : s.calls c = .admitted request) :
    Moves s { (s.setCall c (.waiting request s.nextChannel)).setChannel s.nextChannel
        { sender := true, receiver := true } with
      queue := s.queue ++ [⟨c, request, s.nextChannel⟩]
      nextChannel := s.nextChannel + 1 }
  | unsent {c : ℕ} {request : ρ} (hc : s.calls c = .admitted request) :
    Moves s (s.setCall c (.unsent request))
  | released {c : ℕ} {request : ρ} (hc : s.calls c = .unsent request) :
    Moves s ((s.setCall c (.returned request workerStopped)).setBusy false)
  /-- A reply, a timeout, or no sender. -/
  | ended {c ch : ℕ} {request : ρ} {result : TelemetryReply ν}
      (hc : s.calls c = .waiting request ch)
      (hresult : LocalError result ∨ result ∈ (s.channels ch).messages) :
    Moves s (s.finishCall c request ch result)
  | received {job : TelemetryJob ρ} {queue : List (TelemetryJob ρ)}
      (hw : s.worker = .receiving) (hq : s.queue = job :: queue) :
    Moves s { s with worker := .handling job, queue := queue }
  | handled {job : TelemetryJob ρ} {result : TelemetryReply ν} (hw : s.worker = .handling job) :
    Moves s { s with
      worker := .finished job result
      computed := (job.caller, job.request, result) :: s.computed }
  | panicked {job : TelemetryJob ρ} (hw : s.worker = .handling job) :
    Moves s { s.queue.foldl dropSender (s.dropSender job) with worker := .stopped, queue := [] }
  | stored {job : TelemetryJob ρ} {result : TelemetryReply ν}
      (hw : s.worker = .finished job result) :
    Moves s { s with worker := .replying job result, busy := false }
  | replied {job : TelemetryJob ρ} {result : TelemetryReply ν}
      (hw : s.worker = .replying job result) :
    Moves s { s.setChannel job.reply { s.channels job.reply with
        messages := if (s.channels job.reply).receiver then
            (s.channels job.reply).messages ++ [result]
          else (s.channels job.reply).messages
        sender := false }
      with worker := .receiving }

/-- **Every action is one of these moves.** -/
theorem moves_of_step {s s' : TelemetryBroker ρ ν} {a : TelemetryAction ρ ν}
    (hstep : s.step a = some s') : s.Moves s' := by
  cases a with
  | call c request =>
    simp only [step] at hstep
    split at hstep
    · rename_i hc
      split_ifs at hstep with hbusy
      · cases hstep
        exact .refused hc hbusy
      · cases hstep
        exact .letIn hc hbusy
    · cases hstep
  -- the queue takes the job, or is full or closed
  | trySend c =>
    simp only [step] at hstep
    split at hstep
    · rename_i request hc
      split_ifs at hstep
      · cases hstep
        exact .sent hc
      · cases hstep
        exact .unsent hc
    · cases hstep
  | release c =>
    simp only [step] at hstep
    split at hstep
    · rename_i request hc
      cases hstep
      exact .released hc
    · cases hstep
  -- a call ends in three ways: with a message, at its timeout, or where no sender is left
  | receive c =>
    simp only [step] at hstep
    split at hstep
    · rename_i request ch hc
      split at hstep
      · rename_i result rest hm
        cases hstep
        exact .ended hc (Or.inr (hm ▸ List.mem_cons_self))
      · cases hstep
    · cases hstep
  | timeout c =>
    simp only [step] at hstep
    split at hstep
    · rename_i request ch hc
      cases hstep
      exact .ended hc (Or.inl (Or.inr (Or.inr rfl)))
    · cases hstep
  | disconnected c =>
    simp only [step] at hstep
    split at hstep
    · rename_i request ch hc
      split at hstep
      · cases hstep
        exact .ended hc (Or.inl (Or.inr (Or.inl rfl)))
      · cases hstep
    · cases hstep
  | recv =>
    simp only [step] at hstep
    split at hstep
    · rename_i job queue hw hq
      cases hstep
      exact .received hw hq
    · cases hstep
  | handled result =>
    simp only [step] at hstep
    split at hstep
    · rename_i job hw
      cases hstep
      exact .handled hw
    · cases hstep
  | panicked =>
    simp only [step] at hstep
    split at hstep
    · rename_i job hw
      cases hstep
      exact .panicked hw
    · cases hstep
  | store =>
    simp only [step] at hstep
    split at hstep
    · rename_i job result hw
      cases hstep
      exact .stored hw
    · cases hstep
  | reply =>
    simp only [step] at hstep
    split at hstep
    · rename_i job result hw
      cases hstep
      exact .replied hw
    · cases hstep

/-! ### The flag and the queue -/

/-- Who can have the request of the lane. -/
inductive Owner where
  | caller (c : ℕ)
  | queued (i : ℕ)
  | worker

/-- The request of a call that has the flag, a job in the queue, or the request the worker has in
its handler and did not clear the flag for. -/
def Outstanding (s : TelemetryBroker ρ ν) : Owner → Prop
  | .caller c => (s.calls c).holding = true
  | .queued i => i < s.queue.length
  | .worker => s.worker.occupied = true

/-- At most one request is outstanding, and the flag is up exactly if one is. -/
structure Lane (s : TelemetryBroker ρ ν) : Prop where
  unique : ∀ o o', s.Outstanding o → s.Outstanding o' → o = o'
  busy : s.busy = true ↔ ∃ o, s.Outstanding o

theorem Lane.queue_eq_nil {s : TelemetryBroker ρ ν} (h : Lane s) {o : Owner}
    (ho : s.Outstanding o) (hne : ∀ i, o ≠ .queued i) : s.queue = [] := by
  cases hq : s.queue with
  | nil => rfl
  | cons job queue =>
    have hout : s.Outstanding (.queued 0) := by simp [Outstanding, hq]
    exact absurd (h.unique o (.queued 0) ho hout) (hne 0)

theorem Lane.of_admitted {s : TelemetryBroker ρ ν} (h : Lane s) {c : ℕ} {request : ρ}
    (hc : s.calls c = .admitted request) : s.queue = [] ∧ s.worker.occupied = false := by
  have hout : s.Outstanding (.caller c) := by simp [Outstanding, hc, TelemetryCall.holding]
  refine ⟨h.queue_eq_nil hout (fun i hi => by cases hi), ?_⟩
  cases hw : s.worker.occupied with
  | false => rfl
  | true => cases h.unique (.caller c) .worker hout hw

theorem isStopped_of_not_occupied {w : TelemetryWorker ρ ν} (h : w.occupied = false) :
    w.isStopped = false := by
  cases w <;> first | rfl | cases h

/-- The lane is passed on: its owner `o` hands the request to `o'`. -/
theorem Lane.pass {s s' : TelemetryBroker ρ ν} (h : Lane s) {o : Owner} (ho : s.Outstanding o)
    (o' : Owner) (hb : s'.busy = s.busy)
    (hout : ∀ p, s'.Outstanding p ↔ p = o' ∨ (p ≠ o ∧ s.Outstanding p)) :
    Lane s' := by
  have hall : ∀ p, s'.Outstanding p ↔ p = o' := by
    intro p
    rw [hout]
    refine ⟨fun hp => hp.resolve_right fun ⟨hne, hp⟩ => hne (h.unique p o hp ho), Or.inl⟩
  refine ⟨fun p p' hp hp' => ((hall p).mp hp).trans ((hall p').mp hp').symm, ?_⟩
  rw [hb, h.busy]
  exact ⟨fun _ => ⟨o', (hall o').mpr rfl⟩, fun _ => ⟨o, ho⟩⟩

/-- The lane is freed by its owner. -/
theorem Lane.free {s s' : TelemetryBroker ρ ν} (h : Lane s) {o : Owner} (ho : s.Outstanding o)
    (hb : s'.busy = false) (hout : ∀ p, s'.Outstanding p → p ≠ o ∧ s.Outstanding p) :
    Lane s' := by
  have hnone : ∀ p, ¬ s'.Outstanding p := fun p hp =>
    (hout p hp).1 (h.unique p o (hout p hp).2 ho)
  refine ⟨fun p _ hp => absurd hp (hnone p), ?_⟩
  rw [hb]
  exact ⟨fun hf => absurd hf Bool.false_ne_true, fun ⟨p, hp⟩ => absurd hp (hnone p)⟩

theorem Lane.of_same {s s' : TelemetryBroker ρ ν} (h : Lane s) (hb : s'.busy = s.busy)
    (hout : ∀ p, s'.Outstanding p ↔ s.Outstanding p) : Lane s' := by
  refine ⟨fun p p' hp hp' => h.unique p p' ((hout p).mp hp) ((hout p').mp hp'), ?_⟩
  rw [hb, h.busy]
  exact exists_congr fun p => (hout p).symm

/-- What an action that touches neither queue nor worker does to the owners, when it moves call `c`
to `call`. -/
theorem outstanding_of_call {s s' : TelemetryBroker ρ ν} {c : ℕ} {call : TelemetryCall ρ ν}
    (hcalls : s'.calls = Function.update s.calls c call) (hq : s'.queue = s.queue)
    (hw : s'.worker = s.worker) (p : Owner) :
    s'.Outstanding p ↔
      (p = .caller c ∧ call.holding = true) ∨ (p ≠ .caller c ∧ s.Outstanding p) := by
  cases p with
  | caller c' =>
    by_cases hc : c' = c
    · subst hc
      simp [Outstanding, hcalls]
    · simp [Outstanding, hcalls, hc]
  | queued i => simp [Outstanding, hq]
  | worker => simp [Outstanding, hw]

theorem outstanding_setCall (s : TelemetryBroker ρ ν) (c : ℕ) (call : TelemetryCall ρ ν)
    (busy : Bool) (p : Owner) :
    ((s.setCall c call).setBusy busy).Outstanding p ↔
      (p = .caller c ∧ call.holding = true) ∨ (p ≠ .caller c ∧ s.Outstanding p) := by
  have hcalls : ((s.setCall c call).setBusy busy).calls = Function.update s.calls c call := rfl
  exact outstanding_of_call hcalls rfl rfl p

theorem Lane.queue_of_cons {s : TelemetryBroker ρ ν} (h : Lane s) {job : TelemetryJob ρ}
    {queue : List (TelemetryJob ρ)} (hq : s.queue = job :: queue) : queue = [] := by
  cases queue with
  | nil => rfl
  | cons job' queue =>
    have h0 : s.Outstanding (.queued 0) := by simp [Outstanding, hq]
    have h1 : s.Outstanding (.queued 1) := by simp [Outstanding, hq]
    cases h.unique _ _ h0 h1

/-- A call that had not taken the flag, or has sent its job, moves within the lane. -/
theorem Lane.of_call {s s' : TelemetryBroker ρ ν} (h : Lane s) {c : ℕ} {call : TelemetryCall ρ ν}
    (hold : (s.calls c).holding = call.holding) (hb : s'.busy = s.busy)
    (hcalls : s'.calls = Function.update s.calls c call) (hq : s'.queue = s.queue)
    (hw : s'.worker = s.worker) : Lane s' := by
  refine h.of_same hb fun p => ?_
  rw [outstanding_of_call hcalls hq hw, ← hold]
  by_cases hp : p = .caller c
  · subst hp
    simp [Outstanding]
  · simp [hp]

theorem finishCall_calls (s : TelemetryBroker ρ ν) (c : ℕ) (request : ρ) (ch : ℕ)
    (result : TelemetryReply ν) :
    (s.finishCall c request ch result).calls =
      Function.update s.calls c (.returned request result) := rfl

theorem Lane.finishCall {s : TelemetryBroker ρ ν} (h : Lane s) {c : ℕ} {request : ρ} {ch : ℕ}
    (hc : s.calls c = .waiting request ch) (result : TelemetryReply ν) :
    Lane (s.finishCall c request ch result) :=
  h.of_call (by rw [hc]; rfl) rfl (finishCall_calls s c request ch result) rfl rfl

theorem foldl_dropSender_calls (jobs : List (TelemetryJob ρ)) (s : TelemetryBroker ρ ν) :
    (jobs.foldl dropSender s).calls = s.calls ∧ (jobs.foldl dropSender s).busy = s.busy ∧
      (jobs.foldl dropSender s).nextChannel = s.nextChannel ∧
      (jobs.foldl dropSender s).computed = s.computed := by
  induction jobs generalizing s with
  | nil => exact ⟨rfl, rfl, rfl, rfl⟩
  | cons job jobs ih => exact ih (s.dropSender job)

/-- **The lane through one action.** -/
theorem lane_step {s s' : TelemetryBroker ρ ν} {a : TelemetryAction ρ ν} (h : Lane s)
    (hstep : s.step a = some s') : Lane s' := by
  cases moves_of_step hstep with
  | refused hc => exact h.of_call (by rw [hc]; rfl) rfl rfl rfl rfl
  | @letIn c request hc hbusy =>
    -- nobody has a request, so the new one is the only one
    have hnone : ∀ o, ¬ s.Outstanding o := fun o ho => hbusy (h.busy.mpr ⟨o, ho⟩)
    have hall : ∀ p, ((s.setCall c (.admitted request)).setBusy true).Outstanding p ↔
        p = .caller c := by
      intro p
      rw [outstanding_setCall]
      simp [hnone, TelemetryCall.holding]
    refine ⟨fun p p' hp hp' => ((hall p).mp hp).trans ((hall p').mp hp').symm, ?_⟩
    exact ⟨fun _ => ⟨.caller c, (hall _).mpr rfl⟩, fun _ => rfl⟩
  | @sent c request hc =>
    have ho : s.Outstanding (.caller c) := by simp [Outstanding, hc, TelemetryCall.holding]
    obtain ⟨hq, -⟩ := h.of_admitted hc
    -- the queue was empty, so the job is its first
    refine h.pass ho (.queued 0) rfl fun p => ?_
    cases p with
    | caller c' =>
      by_cases hc' : c' = c
      · subst hc'
        simp [Outstanding, setCall, setChannel, TelemetryCall.holding]
      · simp [Outstanding, setCall, setChannel, hc']
    | queued i => simp [Outstanding, hq]
    | worker => simp [Outstanding, setCall, setChannel]
  | unsent hc => exact h.of_call (by rw [hc]; rfl) rfl rfl rfl rfl
  | @released c request hc =>
    have ho : s.Outstanding (.caller c) := by simp [Outstanding, hc, TelemetryCall.holding]
    refine h.free ho rfl fun p hp => ?_
    rw [outstanding_setCall] at hp
    simpa [TelemetryCall.holding] using hp
  | ended hc => exact h.finishCall hc _
  | received hw hq =>
    obtain rfl := h.queue_of_cons hq
    have ho : s.Outstanding (.queued 0) := by simp [Outstanding, hq]
    refine h.pass ho .worker rfl fun p => ?_
    cases p <;> simp [Outstanding, hq, hw, TelemetryWorker.occupied]
  | handled hw =>
    refine h.of_same rfl fun p => ?_
    cases p <;> simp [Outstanding, hw, TelemetryWorker.occupied]
  | @panicked job hw =>
    -- a worker that is gone has the request for good
    obtain ⟨hcalls, hbusy, -, -⟩ := foldl_dropSender_calls s.queue (s.dropSender job)
    have ho : s.Outstanding .worker := by simp [Outstanding, hw, TelemetryWorker.occupied]
    have hq : s.queue = [] := h.queue_eq_nil ho fun i hi => by cases hi
    refine h.of_same hbusy fun p => ?_
    cases p <;> simp [Outstanding, hw, hq, TelemetryWorker.occupied, dropSender, setChannel]
  | stored hw =>
    have ho : s.Outstanding .worker := by simp [Outstanding, hw, TelemetryWorker.occupied]
    refine h.free ho rfl fun p hp => ?_
    cases p with
    | worker => cases hp
    | caller c => exact ⟨by simp, hp⟩
    | queued i => exact ⟨by simp, hp⟩
  | replied hw =>
    refine h.of_same rfl fun p => ?_
    cases p <;> simp [Outstanding, hw, TelemetryWorker.occupied, setChannel]

/-! ### The replies -/

/-- The job a reply is still to be sent for. -/
def Unanswered (s : TelemetryBroker ρ ν) (job : TelemetryJob ρ) : Prop :=
  job ∈ s.queue ∨ s.worker.job = some job

/-- The job the handler has not returned for. -/
def Unhandled (s : TelemetryBroker ρ ν) (job : TelemetryJob ρ) : Prop :=
  job ∈ s.queue ∨ s.worker = .handling job

/-- Where replies are and where they go: a reply channel belongs to one call, what is in it or will
be sent on it is for that call, and the handler runs at most once for each. -/
structure Replies (s : TelemetryBroker ρ ν) : Prop where
  job_lt : ∀ job, s.Unanswered job → job.reply < s.nextChannel
  call_lt : ∀ c r ch, s.calls c = .waiting r ch → ch < s.nextChannel
  job_own : ∀ job, s.Unanswered job → ∀ c r, s.calls c = .waiting r job.reply →
    job.caller = c ∧ job.request = r
  call_own : ∀ c c' r r' ch, s.calls c = .waiting r ch → s.calls c' = .waiting r' ch → c = c'
  message : ∀ c r ch, s.calls c = .waiting r ch → ∀ result ∈ (s.channels ch).messages,
    (c, r, result) ∈ s.computed
  result : ∀ job result, s.worker = .finished job result ∨ s.worker = .replying job result →
    (job.caller, job.request, result) ∈ s.computed
  returned : ∀ c r result, s.calls c = .returned r result →
    LocalError result ∨ (c, r, result) ∈ s.computed
  computed_past : ∀ e ∈ s.computed, (s.calls e.1).past = true
  unhandled : ∀ job, s.Unhandled job →
    (s.calls job.caller).past = true ∧ job.caller ∉ s.computed.map Prod.fst
  once : (s.computed.map Prod.fst).Nodup

/-- A call moves to a state in which it does not wait; a result it returns is an error of its own
or was computed for it. -/
theorem Replies.of_call {s s' : TelemetryBroker ρ ν} (h : Replies s) {c : ℕ}
    {call : TelemetryCall ρ ν} (hcalls : s'.calls = Function.update s.calls c call)
    (hwaiting : ∀ r ch, call ≠ .waiting r ch)
    (hpast : (s.calls c).past = true → call.past = true)
    (hreturned : ∀ r result, call = .returned r result →
      LocalError result ∨ (c, r, result) ∈ s.computed)
    (hq : s'.queue = s.queue) (hw : s'.worker = s.worker) (hn : s'.nextChannel = s.nextChannel)
    (hd : s'.computed = s.computed)
    (hm : ∀ ch, ∀ m ∈ (s'.channels ch).messages, m ∈ (s.channels ch).messages) : Replies s' := by
  have hcall : ∀ c', s'.calls c' = if c' = c then call else s.calls c' := by
    intro c'
    rw [hcalls, Function.update_apply]
  have hwait : ∀ c' r' ch, s'.calls c' = .waiting r' ch → s.calls c' = .waiting r' ch := by
    intro c' r' ch hc
    rw [hcall] at hc
    split_ifs at hc
    · exact absurd hc (hwaiting r' ch)
    · exact hc
  have hpast' : ∀ c', (s.calls c').past = true → (s'.calls c').past = true := by
    intro c' hp
    rw [hcall]
    split_ifs with hc
    · exact hpast (hc ▸ hp)
    · exact hp
  constructor
  · intro job hj
    rw [hn]
    exact h.job_lt job (by simpa only [Unanswered, hq, hw] using hj)
  · intro c' r' ch hc
    rw [hn]
    exact h.call_lt c' r' ch (hwait _ _ _ hc)
  · intro job hj c' r' hc
    exact h.job_own job (by simpa only [Unanswered, hq, hw] using hj) c' r' (hwait _ _ _ hc)
  · intro c₁ c₂ r₁ r₂ ch h₁ h₂
    exact h.call_own c₁ c₂ r₁ r₂ ch (hwait _ _ _ h₁) (hwait _ _ _ h₂)
  · intro c' r' ch hc m hmem
    rw [hd]
    exact h.message c' r' ch (hwait _ _ _ hc) m (hm ch m hmem)
  · rw [hw, hd]
    exact h.result
  · intro c' r' result hc
    rw [hcall] at hc
    rw [hd]
    split_ifs at hc with hc'
    · exact hc' ▸ hreturned r' result hc
    · exact h.returned c' r' result hc
  · rw [hd]
    exact fun e he => hpast' e.1 (h.computed_past e he)
  · rw [hd]
    intro job hj
    obtain ⟨h1, h2⟩ := h.unhandled job (by simpa only [Unhandled, hq, hw] using hj)
    exact ⟨hpast' _ h1, h2⟩
  · rw [hd]
    exact h.once

/-- A waiting call returns. -/
theorem Replies.finishCall {s : TelemetryBroker ρ ν} (h : Replies s) {c : ℕ} {request : ρ}
    {ch : ℕ} {result : TelemetryReply ν}
    (hr : LocalError result ∨ (c, request, result) ∈ s.computed) :
    Replies (s.finishCall c request ch result) := by
  refine h.of_call (finishCall_calls s c request ch result) (fun _ _ hw => by cases hw)
    (fun _ => rfl) (fun r' result' he => ?_) rfl rfl rfl rfl fun ch' m hm => ?_
  · cases he
    exact hr
  · simp only [TelemetryBroker.finishCall, setChannel, setCall, Function.update_apply] at hm
    split_ifs at hm
    · cases hm
    · exact hm

/-- The worker moves: no call and no result changes, and a reply it sends was computed for the call
that waits on the channel. -/
theorem Replies.of_worker {s s' : TelemetryBroker ρ ν} (h : Replies s)
    (hcalls : s'.calls = s.calls) (hn : s'.nextChannel = s.nextChannel)
    (hd : s'.computed = s.computed)
    (hanswer : ∀ job, s'.Unanswered job → s.Unanswered job)
    (hhandle : ∀ job, s'.Unhandled job → s.Unhandled job)
    (hresult : ∀ job result, s'.worker = .finished job result ∨ s'.worker = .replying job result →
      s.worker = .finished job result ∨ s.worker = .replying job result)
    (hm : ∀ c r ch, s.calls c = .waiting r ch → ∀ m ∈ (s'.channels ch).messages,
      m ∈ (s.channels ch).messages ∨ (c, r, m) ∈ s.computed) : Replies s' := by
  constructor
  · rw [hn]
    exact fun job hj => h.job_lt job (hanswer job hj)
  · rw [hn, hcalls]
    exact h.call_lt
  · rw [hcalls]
    exact fun job hj => h.job_own job (hanswer job hj)
  · rw [hcalls]
    exact h.call_own
  · rw [hcalls, hd]
    intro c r ch hc m hmem
    exact (hm c r ch hc m hmem).elim (h.message c r ch hc m) id
  · rw [hd]
    exact fun job result hw => h.result job result (hresult job result hw)
  · rw [hcalls, hd]
    exact h.returned
  · rw [hcalls, hd]
    exact h.computed_past
  · rw [hcalls, hd]
    exact fun job hj => h.unhandled job (hhandle job hj)
  · rw [hd]
    exact h.once

/-- A call sends its job with a channel of its own. -/
theorem Replies.send {s : TelemetryBroker ρ ν} (h : Replies s) {c : ℕ} {request : ρ}
    (hc : s.calls c = .admitted request) :
    Replies { (s.setCall c (.waiting request s.nextChannel)).setChannel s.nextChannel
        { sender := true, receiver := true } with
      queue := s.queue ++ [⟨c, request, s.nextChannel⟩]
      nextChannel := s.nextChannel + 1 } := by
  have hnew : c ∉ s.computed.map Prod.fst := by
    intro hm
    obtain ⟨e, he, rfl⟩ := List.mem_map.mp hm
    have hp := h.computed_past e he
    rw [hc] at hp
    cases hp
  -- only this call waits on the new channel, all others on older ones
  have hcall : ∀ c' r' ch, Function.update s.calls c (.waiting request s.nextChannel) c' =
      .waiting r' ch → (c' = c ∧ r' = request ∧ ch = s.nextChannel) ∨
        (s.calls c' = .waiting r' ch ∧ ch ≠ s.nextChannel) := by
    intro c' r' ch hw
    rw [Function.update_apply] at hw
    split_ifs at hw with hcc
    · cases hw
      exact Or.inl ⟨hcc, rfl, rfl⟩
    · exact Or.inr ⟨hw, Nat.ne_of_lt (h.call_lt c' r' ch hw)⟩
  have hpast : ∀ c', (s.calls c').past = true →
      (Function.update s.calls c (.waiting request s.nextChannel) c').past = true := by
    intro c' hp
    rw [Function.update_apply]
    split_ifs
    · rfl
    · exact hp
  -- a job is the new one, or was there before
  have hmem : ∀ (w : Prop) (job : TelemetryJob ρ),
      job ∈ s.queue ++ [⟨c, request, s.nextChannel⟩] ∨ w →
      job = ⟨c, request, s.nextChannel⟩ ∨ job ∈ s.queue ∨ w := by
    intro w job hj
    simp only [List.mem_append, List.mem_singleton] at hj
    tauto
  constructor
  · intro job hj
    rcases hmem _ job hj with rfl | hj
    · exact Nat.lt_succ_self _
    · exact Nat.lt_succ_of_lt (h.job_lt job hj)
  · intro c' r' ch hw
    rcases hcall c' r' ch hw with ⟨-, -, rfl⟩ | ⟨hw, -⟩
    · exact Nat.lt_succ_self _
    · exact Nat.lt_succ_of_lt (h.call_lt c' r' ch hw)
  · intro job hj c' r' hw
    rcases hmem _ job hj with rfl | hj
    · rcases hcall c' r' _ hw with ⟨rfl, rfl, -⟩ | ⟨-, hne⟩
      · exact ⟨rfl, rfl⟩
      · exact absurd rfl hne
    · rcases hcall c' r' _ hw with ⟨-, -, hch⟩ | ⟨hw, -⟩
      · exact absurd hch (Nat.ne_of_lt (h.job_lt job hj))
      · exact h.job_own job hj c' r' hw
  · intro c₁ c₂ r₁ r₂ ch h₁ h₂
    rcases hcall c₁ r₁ ch h₁ with ⟨rfl, -, hch⟩ | ⟨h₁, hne⟩ <;>
      rcases hcall c₂ r₂ ch h₂ with ⟨rfl, -, hch'⟩ | ⟨h₂, hne'⟩
    · rfl
    · exact absurd hch hne'
    · exact absurd hch' hne
    · exact h.call_own c₁ c₂ r₁ r₂ ch h₁ h₂
  · intro c' r' ch hw m hm
    simp only [setChannel, Function.update_apply] at hm
    rcases hcall c' r' ch hw with ⟨-, -, rfl⟩ | ⟨hw, hne⟩
    · rw [if_pos rfl] at hm
      cases hm
    · rw [if_neg hne] at hm
      exact h.message c' r' ch hw m hm
  · exact h.result
  · intro c' r' result hw
    refine h.returned c' r' result ?_
    simp only [setChannel, setCall, Function.update_apply] at hw
    split_ifs at hw
    exact hw
  · exact fun e he => hpast e.1 (h.computed_past e he)
  · intro job hj
    rcases hmem _ job hj with rfl | hj
    · refine ⟨?_, hnew⟩
      simp only [setChannel, setCall, Function.update_self]
      rfl
    · obtain ⟨h1, h2⟩ := h.unhandled job hj
      exact ⟨hpast _ h1, h2⟩
  · exact h.once

/-- The handler returns. -/
theorem Replies.handled {s : TelemetryBroker ρ ν} (h : Replies s) {job : TelemetryJob ρ}
    (hw : s.worker = .handling job) (hq : s.queue = []) (result : TelemetryReply ν) :
    Replies { s with
      worker := .finished job result
      computed := (job.caller, job.request, result) :: s.computed } := by
  obtain ⟨hpast, hnew⟩ := h.unhandled job (Or.inr hw)
  have hjob : ∀ job', Unanswered { s with
      worker := .finished job result
      computed := (job.caller, job.request, result) :: s.computed } job' → s.Unanswered job' := by
    intro job' hj
    rcases hj with hj | hj
    · exact Or.inl hj
    · refine Or.inr ?_
      rw [hw]
      exact hj
  constructor
  · exact fun job' hj => h.job_lt job' (hjob job' hj)
  · exact h.call_lt
  · exact fun job' hj => h.job_own job' (hjob job' hj)
  · exact h.call_own
  · exact fun c r ch hc m hm => List.mem_cons_of_mem _ (h.message c r ch hc m hm)
  · intro job' result' hj
    rcases hj with hj | hj <;> cases hj
    exact List.mem_cons_self
  · exact fun c r result' hc => (h.returned c r result' hc).imp id (List.mem_cons_of_mem _)
  · intro e he
    rcases List.mem_cons.mp he with rfl | he
    · exact hpast
    · exact h.computed_past e he
  · intro job' hj
    rcases hj with hj | hj
    · rw [show _ = [] from hq] at hj
      cases hj
    · cases hj
  · exact List.nodup_cons.mpr ⟨hnew, h.once⟩

theorem foldl_dropSender_messages (jobs : List (TelemetryJob ρ)) (s : TelemetryBroker ρ ν)
    (ch : ℕ) :
    ((jobs.foldl dropSender s).channels ch).messages = (s.channels ch).messages := by
  induction jobs generalizing s with
  | nil => rfl
  | cons job jobs ih =>
    rw [List.foldl_cons, ih]
    simp only [dropSender, setChannel, Function.update_apply]
    split_ifs with hch
    · rw [hch]
    · rfl

theorem dropSender_messages (s : TelemetryBroker ρ ν) (job : TelemetryJob ρ) (ch : ℕ) :
    ((s.dropSender job).channels ch).messages = (s.channels ch).messages :=
  foldl_dropSender_messages [job] s ch

/-- What a worker that is past its handler has left to answer. -/
theorem Unanswered.of_worker {s s' : TelemetryBroker ρ ν} {job : TelemetryJob ρ}
    (hj : s'.Unanswered job) (hq : s'.queue = s.queue)
    (hw : s'.worker.job = none ∨ s'.worker.job = s.worker.job) : s.Unanswered job := by
  rcases hj with hj | hj
  · exact Or.inl (hq ▸ hj)
  · rcases hw with hw | hw
    · rw [hw] at hj
      cases hj
    · exact Or.inr (hw ▸ hj)

theorem Unhandled.of_worker {s s' : TelemetryBroker ρ ν} {job : TelemetryJob ρ}
    (hj : s'.Unhandled job) (hq : s'.queue = s.queue) (hw : s'.worker ≠ .handling job) :
    s.Unhandled job := by
  rcases hj with hj | hj
  · exact Or.inl (hq ▸ hj)
  · exact absurd hj hw

/-- **The replies through one action.** -/
theorem replies_step {s s' : TelemetryBroker ρ ν} {a : TelemetryAction ρ ν} (hl : Lane s)
    (h : Replies s) (hstep : s.step a = some s') : Replies s' := by
  cases moves_of_step hstep with
  | refused hc =>
    refine h.of_call rfl (fun _ _ hw => by cases hw) (fun _ => rfl) (fun r result he => ?_)
      rfl rfl rfl rfl fun _ _ hm => hm
    cases he
    exact Or.inl (Or.inl rfl)
  | letIn hc =>
    refine h.of_call rfl (fun _ _ hw => by cases hw) (fun hp => ?_) (fun _ _ he => by cases he)
      rfl rfl rfl rfl fun _ _ hm => hm
    rw [hc] at hp
    cases hp
  | sent hc => exact h.send hc
  | unsent hc =>
    refine h.of_call rfl (fun _ _ hw => by cases hw) (fun hp => ?_) (fun _ _ he => by cases he)
      rfl rfl rfl rfl fun _ _ hm => hm
    rw [hc] at hp
    cases hp
  | released hc =>
    refine h.of_call rfl (fun _ _ hw => by cases hw) (fun _ => rfl) (fun r result he => ?_)
      rfl rfl rfl rfl fun _ _ hm => hm
    cases he
    exact Or.inl (Or.inr (Or.inl rfl))
  | ended hc hresult => exact h.finishCall (hresult.imp_right (h.message _ _ _ hc _))
  | received hw hq =>
    refine h.of_worker rfl rfl rfl ?_ ?_ (fun _ _ hj => by rcases hj with hj | hj <;> cases hj)
      fun _ _ _ _ _ hm => Or.inl hm
    · rintro job' (hj | hj)
      · exact Or.inl (hq ▸ List.mem_cons_of_mem _ hj)
      · cases hj
        exact Or.inl (hq ▸ List.mem_cons_self)
    · rintro job' (hj | hj)
      · exact Or.inl (hq ▸ List.mem_cons_of_mem _ hj)
      · cases hj
        exact Or.inl (hq ▸ List.mem_cons_self)
  | @handled job result hw =>
    have ho : s.Outstanding .worker := by simp [Outstanding, hw, TelemetryWorker.occupied]
    exact h.handled hw (hl.queue_eq_nil ho fun i hi => by cases hi) result
  | @panicked job hw =>
    -- nothing is left to answer; the senders that are dropped take no message away
    obtain ⟨hcalls, -, hnext, hcomputed⟩ := foldl_dropSender_calls s.queue (s.dropSender job)
    refine h.of_worker hcalls hnext hcomputed (fun job' hj => ?_) (fun job' hj => ?_)
      (fun _ _ hj => by rcases hj with hj | hj <;> cases hj) fun c r ch hc m hm => Or.inl ?_
    · rcases hj with hj | hj <;> cases hj
    · rcases hj with hj | hj <;> cases hj
    · rw [← dropSender_messages s job ch, ← foldl_dropSender_messages s.queue (s.dropSender job) ch]
      exact hm
  | stored hw =>
    refine h.of_worker rfl rfl rfl
      (fun _ hj => hj.of_worker rfl (Or.inr (by rw [hw]; rfl)))
      (fun _ hj => hj.of_worker rfl fun he => by cases he) ?_
      fun _ _ _ _ _ hm => Or.inl hm
    rintro job' result' (hj | hj)
    · cases hj
    · cases hj
      exact Or.inl hw
  | @replied job result hw =>
    refine h.of_worker rfl rfl rfl (fun _ hj => hj.of_worker rfl (Or.inl rfl))
      (fun _ hj => hj.of_worker rfl fun he => by cases he)
      (fun _ _ hj => by rcases hj with hj | hj <;> cases hj) ?_
    intro c r ch hc m hm
    simp only [setChannel, Function.update_apply] at hm
    split_ifs at hm with hch hrecv
    · rcases List.mem_append.mp hm with hm | hm
      · exact Or.inl (hch ▸ hm)
      · -- the call that waits on the job's channel is the job's own
        obtain ⟨rfl, rfl⟩ := h.job_own job (Or.inr (by rw [hw]; rfl)) c r (hch ▸ hc)
        rw [List.mem_singleton.mp hm]
        exact Or.inr (h.result job result (Or.inr hw))
    · exact Or.inl (hch ▸ hm)
    · exact Or.inl hm

/-! ### Every run -/

theorem lane_start : Lane ({} : TelemetryBroker ρ ν) := by
  have hnone : ∀ o, ¬ Outstanding ({} : TelemetryBroker ρ ν) o := by
    intro o ho
    cases o <;> simp [Outstanding, TelemetryCall.holding, TelemetryWorker.occupied] at ho
  refine ⟨fun o _ ho => absurd ho (hnone o), ?_⟩
  exact ⟨fun h => absurd h Bool.false_ne_true, fun ⟨o, ho⟩ => absurd ho (hnone o)⟩

theorem replies_start : Replies ({} : TelemetryBroker ρ ν) := by
  have hjob : ∀ job, ¬ Unanswered ({} : TelemetryBroker ρ ν) job := by
    rintro job (hj | hj) <;> cases hj
  have hhandle : ∀ job, ¬ Unhandled ({} : TelemetryBroker ρ ν) job := by
    rintro job (hj | hj) <;> cases hj
  constructor
  · exact fun job hj => absurd hj (hjob job)
  · exact fun _ _ _ hc => by cases hc
  · exact fun job hj => absurd hj (hjob job)
  · exact fun _ _ _ _ _ hc => by cases hc
  · exact fun _ _ _ hc => by cases hc
  · rintro job result (hj | hj) <;> cases hj
  · exact fun _ _ _ hc => by cases hc
  · exact fun e he => by cases he
  · exact fun job hj => absurd hj (hhandle job)
  · exact List.nodup_nil

theorem lane_replies_run {s : TelemetryBroker ρ ν} {as : List (TelemetryAction ρ ν)}
    (hrun : Machine.exec step {} as = some s) : Lane s ∧ Replies s :=
  Machine.invariant (I := fun s => Lane s ∧ Replies s)
    (fun _ _ _ h hstep => ⟨lane_step h.1 hstep, replies_step h.1 h.2 hstep⟩)
    ⟨lane_start, replies_start⟩ hrun

/-- The call `c` is let in. -/
def Admits (s : TelemetryBroker ρ ν) (c : ℕ) (request : ρ) : Prop :=
  ∃ s', s.step (.call c request) = some s' ∧ s'.calls c = .admitted request

theorem Lane.admits {s : TelemetryBroker ρ ν} (h : Lane s) (hfree : ∀ o, ¬ s.Outstanding o) {c : ℕ}
    (hc : s.calls c = .idle) (request : ρ) : Admits s c request := by
  have hbusy : s.busy ≠ true := fun hb => (h.busy.mp hb).elim hfree
  refine ⟨(s.setCall c (.admitted request)).setBusy true, ?_, ?_⟩
  · simp only [step, hc, hbusy]
    rfl
  · exact Function.update_self c _ s.calls

/-- The send of an admitted call succeeds. -/
theorem Lane.sends {s : TelemetryBroker ρ ν} (h : Lane s) {c : ℕ} {request : ρ}
    (hc : s.calls c = .admitted request) :
    ∃ s' ch, s.step (.trySend c) = some s' ∧ s'.calls c = .waiting request ch := by
  obtain ⟨hq, hw⟩ := h.of_admitted hc
  have hsend : s.queue.length < capacity ∧ s.worker.isStopped = false :=
    ⟨by simp [hq, capacity], isStopped_of_not_occupied hw⟩
  simp only [step, hc]
  rw [if_pos hsend]
  exact ⟨_, s.nextChannel, rfl, Function.update_self c _ s.calls⟩

/-- **The telemetry lane**, after any interleaving: at most one request is outstanding; the send of
an admitted call finds the queue empty and succeeds; a result a caller got is what the handler
returned for this caller's request, and the handler ran at most once for each caller; and when the
handler has finished, the worker's next move frees the lane for a new call, as it is free whenever
nothing is outstanding. -/
theorem telemetry_lane {s : TelemetryBroker ρ ν} {as : List (TelemetryAction ρ ν)}
    (hrun : Machine.exec step {} as = some s) :
    (∀ o o', s.Outstanding o → s.Outstanding o' → o = o') ∧
    (∀ c request, s.calls c = .admitted request → s.queue = [] ∧
      ∃ s' ch, s.step (.trySend c) = some s' ∧ s'.calls c = .waiting request ch) ∧
    ((∀ c request value, s.calls c = .returned request (.ok value) →
      (c, request, .ok value) ∈ s.computed) ∧ (s.computed.map Prod.fst).Nodup) ∧
    (∀ job result, s.worker = .finished job result → ∃ s', s.step .store = some s' ∧
      ∀ c request, s'.calls c = .idle → Admits s' c request) ∧
    ((∀ o, ¬ s.Outstanding o) → ∀ c request, s.calls c = .idle → Admits s c request) := by
  obtain ⟨hl, hr⟩ := lane_replies_run hrun
  refine ⟨hl.unique, fun c request hc => ⟨(hl.of_admitted hc).1, hl.sends hc⟩, ⟨?_, hr.once⟩, ?_,
    fun hfree c request hc => hl.admits hfree hc request⟩
  · intro c request value hc
    refine (hr.returned c request _ hc).resolve_left fun hlocal => ?_
    rcases hlocal with h | h | h <;> cases h
  · intro job result hw
    have ho : s.Outstanding .worker := by simp [Outstanding, hw, TelemetryWorker.occupied]
    have hstore : s.step .store =
        some { s with worker := .replying job result, busy := false } := by
      simp only [step, hw]
    refine ⟨_, hstore, fun c request hc =>
      (lane_step hl hstore).admits (fun o hout => ?_) hc request⟩
    cases o with
    | caller c' => cases hl.unique (.caller c') .worker hout ho
    | queued i => cases hl.unique (.queued i) .worker hout ho
    | worker => cases hout

/-- A first call times out, a second is refused, the handler returns, a third call is let in, and
only then the late reply is sent. -/
def lateReply : List (TelemetryAction ℕ ℕ) :=
  [.call 0 10, .trySend 0, .recv, .timeout 0, .call 1 11, .handled (.ok 100), .store, .call 2 12,
    .trySend 2, .reply, .recv, .handled (.ok 102), .store, .reply, .receive 2]

/-- The third call gets its own result. -/
theorem telemetry_lane_lateReply : ∃ s : TelemetryBroker ℕ ℕ,
    Machine.exec step {} lateReply = some s ∧ s.calls 2 = .returned 12 (.ok 102) ∧
      (2, 12, .ok 102) ∈ s.computed := by
  obtain ⟨s, hs⟩ : ∃ s : TelemetryBroker ℕ ℕ, Machine.exec step {} lateReply = some s := ⟨_, rfl⟩
  have hc : s.calls 2 = .returned 12 (.ok 102) := by
    cases hs
    rfl
  exact ⟨s, hs, hc, (telemetry_lane hs).2.2.1.1 2 12 102 hc⟩

end TelemetryBroker

end Taskman
