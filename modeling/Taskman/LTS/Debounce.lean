import Taskman.LTS.Machine
import Mathlib.Data.List.Sublists

/-!
# Writers with one pending value

A writer thread takes messages from a queue.  A value to be saved waits in one slot, where a later
one replaces it, until nothing has arrived for a while, a flush is asked for, or the writer is shut
down.

* `Writer` : what the messages ask for, and the choices a writer makes;
* `Writer.step` : a message is sent or taken, the window ends, or the writer sees its senders gone;
* `Writer.Orderly` : what holds of values, queue and file in every reachable state;
* `Writer.sublist_of_reachable` : **values are written in the order they were sent**;
* `Writer.newest_of_answered`, `Writer.newest_of_stopped` : **after a flush or the end the newest
  one was written**.
-/

namespace Taskman

/-- What a message asks of a writer of values in `α`. -/
inductive Writer.Command (α : Type*) where
  | save (a : α)
  | flush
  | shutdown

/-- A writer of values in `α` that takes messages in `μ`. -/
structure Writer (μ α : Type*) where
  command : μ → Writer.Command α
  /-- The message that the end of the last sender leaves behind. -/
  shutdown : μ
  command_shutdown : command shutdown = .shutdown
  /-- Whether a new value takes the place of one that waits. -/
  replaces : α → α → Bool
  /-- Whether the waiting value is still written when the senders are gone. -/
  finishes : Bool

namespace Writer

variable {μ α : Type*}

/-- The writer: its queue, what waits to be written and what was. -/
structure State (μ α : Type*) where
  queue : List μ := []
  connected : Bool := true
  running : Bool := true
  pending : Option α := none
  /-- What the file holds, unless it is still what it was before the writer started. -/
  file : Option α := none
  /-- The flushes answered, in order. -/
  answered : List μ := []
  /-- All messages sent, in order; nothing reads this. -/
  sent : List μ := []
  /-- The writes tried, in order, with whether they succeeded; nothing reads this. -/
  writes : List (α × Bool) := []

/-- One step; `ok` says whether the write of this step, if there is one, succeeds. -/
inductive Action (μ : Type*) where
  | send (m : μ)
  | drop
  | receive (ok : Bool)
  | timeout (ok : Bool)
  | disconnect (ok : Bool)

/-- The waiting value is written. -/
def State.write (ok : Bool) (s : State μ α) : State μ α :=
  match s.pending with
  | none => s
  | some a =>
    { s with
      pending := none
      file := if ok then some a else s.file
      writes := s.writes ++ [(a, ok)] }

/-- A message is sent. -/
def State.enqueue (m : μ) (s : State μ α) : State μ α :=
  { s with queue := s.queue ++ [m], sent := s.sent ++ [m] }

variable (w : Writer μ α)

/-- A value to be saved arrives. -/
def keep (a : α) : Option α → α
  | none => a
  | some b => if w.replaces a b then a else b

/-- A message is handled. -/
def handle (ok : Bool) (m : μ) (s : State μ α) : State μ α :=
  match w.command m with
  | .save a => { s with pending := some (w.keep a s.pending) }
  | .flush => { s.write ok with answered := s.answered ++ [m] }
  | .shutdown => { s.write ok with running := false }

/-- Messages that the senders send while they live. -/
def IsRequest (m : μ) : Bool :=
  match w.command m with
  | .shutdown => false
  | _ => true

/-- One step, where it is enabled. -/
def step (s : State μ α) : Action μ → Option (State μ α)
  | .send m => if s.connected && w.IsRequest m then some (s.enqueue m) else none
  | .drop => if s.connected then some { s.enqueue w.shutdown with connected := false } else none
  | .receive ok =>
    match s.queue with
    | [] => none
    | m :: rest => if s.running then some (w.handle ok m { s with queue := rest }) else none
  | .timeout ok => if s.running && s.pending.isSome then some (s.write ok) else none
  | .disconnect ok =>
    if s.running && !s.connected && s.queue.isEmpty then
      some { (if w.finishes then s.write ok else s) with running := false }
    else none

/-- The values among the messages. -/
def saves (ms : List μ) : List α :=
  ms.filterMap fun m => match w.command m with
    | .save a => some a
    | _ => none

/-- Every value takes the place of every earlier one. -/
def Rising (ms : List μ) : Prop := (w.saves ms).Pairwise fun old new => w.replaces new old

/-- The values that were written. -/
def State.written (s : State μ α) : List α := (s.writes.filter Prod.snd).map Prod.fst

/-- The values a write was tried for, and the waiting one. -/
def State.values (s : State μ α) : List α := s.writes.map Prod.fst ++ s.pending.toList

/-- The last value among the messages was the last one a write was tried for, and the file holds
it if that write succeeded. -/
structure Newest (ms : List μ) (s : State μ α) : Prop where
  tried : s.writes.getLast?.map Prod.fst = (w.saves ms).getLast?
  file : ∀ a, s.writes.getLast? = some (a, true) → s.file = some a

/-! ### What every step keeps -/

/-- The messages handled are those that were sent and no longer wait; among their values, those
tried and the waiting one come in order, and the newest is the last of them. -/
structure Handled (s : State μ α) (handled : List μ) : Prop where
  sent : s.sent = handled ++ s.queue
  order : s.values.Sublist (w.saves handled)
  newest : s.values.getLast? = (w.saves handled).getLast?

/-- Only the end of the senders shuts the writer down, and nothing follows it. -/
inductive Ending : State μ α → Prop where
  | connected {s : State μ α} (hc : s.connected = true) (hr : s.running = true)
      (hq : ∀ m ∈ s.queue, w.IsRequest m) : Ending s
  | dropped {s : State μ α} (front : List μ) (hc : s.connected = false) (hr : s.running = true)
      (hfront : s.queue = front ++ [w.shutdown]) (hq : ∀ m ∈ front, w.IsRequest m) : Ending s
  | stopped {s : State μ α} (hc : s.connected = false) (hr : s.running = false)
      (hq : s.queue = []) (hp : s.pending = none) : Ending s

/-- What holds of the writer in every run. -/
structure Orderly (s : State μ α) : Prop where
  file : s.file = s.written.getLast?
  ending : w.Ending s
  handled : w.Rising s.sent → ∃ handled, w.Handled s handled

variable {w}

@[simp] theorem write_queue (ok : Bool) (s : State μ α) : (s.write ok).queue = s.queue := by
  unfold State.write
  split <;> rfl

@[simp] theorem write_connected (ok : Bool) (s : State μ α) :
    (s.write ok).connected = s.connected := by
  unfold State.write
  split <;> rfl

@[simp] theorem write_running (ok : Bool) (s : State μ α) :
    (s.write ok).running = s.running := by
  unfold State.write
  split <;> rfl

@[simp] theorem write_sent (ok : Bool) (s : State μ α) : (s.write ok).sent = s.sent := by
  unfold State.write
  split <;> rfl

@[simp] theorem write_answered (ok : Bool) (s : State μ α) :
    (s.write ok).answered = s.answered := by
  unfold State.write
  split <;> rfl

@[simp] theorem write_pending (ok : Bool) (s : State μ α) : (s.write ok).pending = none := by
  unfold State.write
  split
  · assumption
  · rfl

@[simp] theorem write_values (ok : Bool) (s : State μ α) : (s.write ok).values = s.values := by
  unfold State.write
  split
  · rfl
  · next a ha => simp [State.values, ha]

theorem write_file {ok : Bool} {s : State μ α} (h : s.file = s.written.getLast?) :
    (s.write ok).file = (s.write ok).written.getLast? := by
  unfold State.write
  split
  · exact h
  · cases ok <;> simp [State.written, List.filter_append, h]

theorem saves_append (ms ns : List μ) : w.saves (ms ++ ns) = w.saves ms ++ w.saves ns :=
  List.filterMap_append

theorem saves_concat_of_ne {m : μ} (h : ∀ a, w.command m ≠ .save a) (ms : List μ) :
    w.saves (ms ++ [m]) = w.saves ms := by
  rw [saves_append]
  have hm : w.saves [m] = [] := by
    unfold saves
    rw [List.filterMap_cons]
    cases hc : w.command m with
    | save a => exact absurd hc (h a)
    | flush => rfl
    | shutdown => rfl
  rw [hm, List.append_nil]

theorem saves_concat_of_save {m : μ} {a : α} (h : w.command m = .save a) (ms : List μ) :
    w.saves (ms ++ [m]) = w.saves ms ++ [a] := by
  rw [saves_append]
  simp [saves, h]

theorem Rising.of_append {ms ns : List μ} (h : w.Rising (ms ++ ns)) : w.Rising ms := by
  rw [Rising, saves_append] at h
  exact (List.pairwise_append.mp h).1

theorem orderly_start : w.Orderly {} where
  file := rfl
  ending := .connected rfl rfl fun _ h => absurd h List.not_mem_nil
  handled _ := ⟨[], rfl, .slnil, rfl⟩

theorem Handled.enqueue {s : State μ α} {handled : List μ} (h : w.Handled s handled) (m : μ) :
    w.Handled (s.enqueue m) handled where
  sent := by
    show s.sent ++ [m] = handled ++ (s.queue ++ [m])
    rw [h.sent, List.append_assoc]
  order := h.order
  newest := h.newest

/-- A message that saves nothing is handled; its step may have written the waiting value. -/
theorem Handled.pass {s s' : State μ α} {handled rest : List μ} {m : μ}
    (h : w.Handled s handled) (hm : ∀ a, w.command m ≠ .save a) (hq : s.queue = m :: rest)
    (hq' : s'.queue = rest) (hsent : s'.sent = s.sent) (hvalues : s'.values = s.values) :
    w.Handled s' (handled ++ [m]) where
  sent := by rw [hsent, h.sent, hq, hq', List.append_assoc, List.singleton_append]
  order := by
    rw [hvalues, saves_concat_of_ne hm]
    exact h.order
  newest := by rw [hvalues, saves_concat_of_ne hm, h.newest]

/-- A value is kept: where values rise, it takes the slot. -/
theorem Handled.keep {s : State μ α} {handled rest : List μ} {m : μ} {a : α}
    (h : w.Handled s handled) (hm : w.command m = .save a) (hq : s.queue = m :: rest)
    (hrising : w.Rising s.sent) :
    w.Handled { s with queue := rest, pending := some (w.keep a s.pending) } (handled ++ [m]) := by
  have hkeep : w.keep a s.pending = a := by
    cases hp : s.pending with
    | none => rfl
    | some b =>
      have hb : b ∈ w.saves handled := h.order.subset (by simp [State.values, hp])
      have hpair : ∀ x ∈ w.saves handled, ∀ y ∈ w.saves (m :: rest), w.replaces y x := by
        rw [Rising, h.sent, hq, saves_append] at hrising
        exact (List.pairwise_append.mp hrising).2.2
      have ha : a ∈ w.saves (m :: rest) := by simp [saves, hm]
      rw [Writer.keep, if_pos (hpair b hb a ha)]
  have hwrites : (s.writes.map Prod.fst).Sublist (w.saves handled) :=
    (List.sublist_append_left _ _).trans h.order
  rw [hkeep]
  refine ⟨?_, ?_, ?_⟩
  · show s.sent = handled ++ [m] ++ rest
    rw [h.sent, hq, List.append_assoc, List.singleton_append]
  · rw [saves_concat_of_save hm]
    exact hwrites.append (List.Sublist.refl [a])
  · rw [saves_concat_of_save hm]
    simp [State.values]

/-- What a request leaves of the connection. -/
theorem handle_of_isRequest (ok : Bool) {m : μ} (hm : w.IsRequest m) (s : State μ α) :
    (w.handle ok m s).queue = s.queue ∧ (w.handle ok m s).connected = s.connected ∧
      (w.handle ok m s).running = s.running := by
  unfold handle IsRequest at *
  cases hc : w.command m with
  | save a => exact ⟨rfl, rfl, rfl⟩
  | flush => exact ⟨write_queue ok s, write_connected ok s, write_running ok s⟩
  | shutdown =>
    rw [hc] at hm
    cases hm

theorem handle_shutdown (ok : Bool) (s : State μ α) :
    w.handle ok w.shutdown s = { s.write ok with running := false } := by
  rw [handle, w.command_shutdown]

/-- A message is taken from the queue. -/
theorem Orderly.receive {s : State μ α} {m : μ} {rest : List μ} (h : w.Orderly s)
    (hq : s.queue = m :: rest) (hr : s.running = true) (ok : Bool) :
    w.Orderly (w.handle ok m { s with queue := rest }) := by
  refine ⟨?_, ?_, ?_⟩
  · unfold handle
    split
    · exact h.file
    · exact write_file h.file
    · exact write_file h.file
  · cases h.ending with
    | connected hc _ hall =>
      rw [hq] at hall
      obtain ⟨hqueue, hconnected, hrunning⟩ := handle_of_isRequest ok (hall m List.mem_cons_self)
        { s with queue := rest }
      refine .connected (hconnected.trans hc) (hrunning.trans hr) ?_
      rw [hqueue]
      exact fun n hn => hall n (List.mem_cons_of_mem m hn)
    | dropped front hc _ hfront hall =>
      rw [hq] at hfront
      cases front with
      | nil =>
        -- the message is the one the senders left behind
        obtain ⟨rfl, rfl⟩ := List.cons.inj hfront
        rw [handle_shutdown]
        exact .stopped ((write_connected ok _).trans hc) rfl (write_queue ok _)
          (write_pending ok _)
      | cons n front =>
        obtain ⟨rfl, rfl⟩ := List.cons.inj hfront
        obtain ⟨hqueue, hconnected, hrunning⟩ := handle_of_isRequest ok
          (hall m List.mem_cons_self) { s with queue := front ++ [w.shutdown] }
        exact .dropped front (hconnected.trans hc) (hrunning.trans hr) hqueue
          fun n hn => hall n (List.mem_cons_of_mem m hn)
    | stopped _ hstopped _ _ =>
      rw [hr] at hstopped
      cases hstopped
  · intro hrising
    have hsent : (w.handle ok m { s with queue := rest }).sent = s.sent := by
      unfold handle
      split
      · rfl
      · exact write_sent ok _
      · exact write_sent ok _
    rw [hsent] at hrising
    obtain ⟨handled, hhandled⟩ := h.handled hrising
    refine ⟨handled ++ [m], ?_⟩
    unfold handle
    cases hm : w.command m with
    | save a => exact hhandled.keep hm hq hrising
    | flush =>
      exact hhandled.pass (fun a ha => by rw [hm] at ha; cases ha) hq (write_queue ok _)
        (write_sent ok _) (write_values ok _)
    | shutdown =>
      exact hhandled.pass (fun a ha => by rw [hm] at ha; cases ha) hq (write_queue ok _)
        (write_sent ok _) (write_values ok _)

/-- A write outside of a message. -/
theorem Orderly.write {s : State μ α} (h : w.Orderly s) (hr : s.running = true) (ok : Bool) :
    w.Orderly (s.write ok) := by
  refine ⟨write_file h.file, ?_, ?_⟩
  · cases h.ending with
    | connected hc _ hall => exact .connected (by simpa) (by simpa) (by simpa)
    | dropped front hc _ hfront hall => exact .dropped front (by simpa) (by simpa) (by simpa) hall
    | stopped _ hstopped _ _ =>
      rw [hr] at hstopped
      cases hstopped
  · intro hrising
    rw [write_sent] at hrising
    obtain ⟨handled, hsent, horder, hnewest⟩ := h.handled hrising
    refine ⟨handled, ?_, ?_, ?_⟩
    · rw [write_sent, write_queue, hsent]
    · rw [write_values]
      exact horder
    · rw [write_values, hnewest]

/-- **One step.** -/
theorem Orderly.step {s s' : State μ α} {action : Action μ} (h : w.Orderly s)
    (hs : w.step s action = some s') : w.Orderly s' := by
  cases action with
  | send m =>
    obtain ⟨hguard, hsome⟩ := Option.ite_none_right_eq_some.mp hs
    obtain rfl := Option.some.inj hsome
    obtain ⟨hc, hm⟩ := Bool.and_eq_true_iff.mp hguard
    refine ⟨h.file, ?_, fun hrising => ?_⟩
    · cases h.ending with
      | connected _ hr hall =>
        refine .connected hc hr fun n hn => ?_
        rcases List.mem_append.mp hn with hn | hn
        · exact hall n hn
        · rw [List.mem_singleton.mp hn]
          exact hm
      | dropped _ hdropped _ _ _ =>
        rw [hc] at hdropped
        cases hdropped
      | stopped hdropped _ _ _ =>
        rw [hc] at hdropped
        cases hdropped
    · obtain ⟨handled, hhandled⟩ := h.handled (Rising.of_append hrising)
      exact ⟨handled, hhandled.enqueue m⟩
  | drop =>
    obtain ⟨hc, hsome⟩ := Option.ite_none_right_eq_some.mp hs
    obtain rfl := Option.some.inj hsome
    refine ⟨h.file, ?_, fun hrising => ?_⟩
    · cases h.ending with
      | connected _ hr hall => exact .dropped s.queue rfl hr rfl hall
      | dropped _ hdropped _ _ _ =>
        rw [hc] at hdropped
        cases hdropped
      | stopped hdropped _ _ _ =>
        rw [hc] at hdropped
        cases hdropped
    · obtain ⟨handled, hhandled⟩ := h.handled (Rising.of_append hrising)
      have henqueued := hhandled.enqueue w.shutdown
      exact ⟨handled, henqueued.sent, henqueued.order, henqueued.newest⟩
  | receive ok =>
    simp only [Writer.step] at hs
    cases hq : s.queue with
    | nil =>
      rw [hq] at hs
      cases hs
    | cons m rest =>
      rw [hq] at hs
      obtain ⟨hr, hsome⟩ := Option.ite_none_right_eq_some.mp hs
      obtain rfl := Option.some.inj hsome
      exact h.receive hq hr ok
  | timeout ok =>
    obtain ⟨hguard, hsome⟩ := Option.ite_none_right_eq_some.mp hs
    obtain rfl := Option.some.inj hsome
    exact h.write (Bool.and_eq_true_iff.mp hguard).1 ok
  | disconnect ok =>
    -- the senders leave a message behind, so the writer never sees the queue empty without them
    obtain ⟨hguard, -⟩ := Option.ite_none_right_eq_some.mp hs
    simp only [Bool.and_eq_true, Bool.not_eq_true', List.isEmpty_iff] at hguard
    obtain ⟨⟨hr, hc⟩, hq⟩ := hguard
    cases h.ending with
    | connected hconnected _ _ =>
      rw [hc] at hconnected
      cases hconnected
    | dropped front _ _ hfront _ => simp [hq] at hfront
    | stopped _ hstopped _ _ =>
      rw [hr] at hstopped
      cases hstopped

theorem orderly_of_reachable {s : State μ α} (h : Machine.Reachable w.step (· = {}) s) :
    w.Orderly s :=
  h.invariant (fun _ hinit => hinit ▸ orderly_start) fun _ _ _ hI hs => hI.step hs

/-! ### What follows -/

/-- **Values are written in the order they were sent.** -/
theorem sublist_of_reachable {s : State μ α} (h : Machine.Reachable w.step (· = {}) s)
    (hrising : w.Rising s.sent) : s.written.Sublist (w.saves s.sent) := by
  obtain ⟨handled, hsent, horder, -⟩ := (orderly_of_reachable h).handled hrising
  have hwritten : s.written.Sublist (s.writes.map Prod.fst) := List.filter_sublist.map _
  have htried : (s.writes.map Prod.fst).Sublist s.values := List.sublist_append_left _ _
  rw [hsent, saves_append]
  exact (hwritten.trans (htried.trans horder)).trans (List.sublist_append_left _ _)

/-- Where nothing waits, the newest value handled was tried. -/
theorem Handled.toNewest {s : State μ α} {handled : List μ} (h : w.Handled s handled)
    (hfile : s.file = s.written.getLast?) (hp : s.pending = none) : w.Newest handled s where
  tried := by
    have hnewest := h.newest
    rwa [State.values, hp, Option.toList_none, List.append_nil, List.getLast?_map] at hnewest
  file a ha := by
    obtain ⟨front, hfront⟩ := List.getLast?_eq_some_iff.mp ha
    rw [hfile, State.written, hfront]
    simp [List.filter_append]

/-- Only a flush that is taken is answered. -/
theorem flush_of_answered {s s' : State μ α} {action : Action μ} {m : μ}
    (hs : w.step s action = some s') (hm : s'.answered = s.answered ++ [m]) :
    ∃ ok, w.command m = .flush ∧ s.queue = m :: s'.queue ∧
      s' = { s.write ok with queue := s'.queue, answered := s.answered ++ [m] } := by
  have hne : s'.answered ≠ s.answered := by simp [hm]
  cases action with
  | send n =>
    obtain ⟨-, hsome⟩ := Option.ite_none_right_eq_some.mp hs
    obtain rfl := Option.some.inj hsome
    exact absurd rfl hne
  | drop =>
    obtain ⟨-, hsome⟩ := Option.ite_none_right_eq_some.mp hs
    obtain rfl := Option.some.inj hsome
    exact absurd rfl hne
  | receive ok =>
    simp only [Writer.step] at hs
    cases hq : s.queue with
    | nil =>
      rw [hq] at hs
      cases hs
    | cons n rest =>
      rw [hq] at hs
      obtain ⟨-, hsome⟩ := Option.ite_none_right_eq_some.mp hs
      obtain rfl := Option.some.inj hsome
      unfold handle at hm hne ⊢
      cases hn : w.command n with
      | save a =>
        rw [hn] at hne
        exact absurd rfl hne
      | flush =>
        rw [hn] at hm
        have hmn : n = m := List.singleton_inj.mp (List.append_cancel_left hm)
        subst hmn
        refine ⟨ok, hn, by simp, ?_⟩
        cases hp : s.pending <;> simp [State.write, hp]
      | shutdown =>
        rw [hn] at hne
        exact absurd (write_answered ok _) hne
  | timeout ok =>
    obtain ⟨-, hsome⟩ := Option.ite_none_right_eq_some.mp hs
    obtain rfl := Option.some.inj hsome
    exact absurd (write_answered ok s) hne
  | disconnect ok =>
    obtain ⟨-, hsome⟩ := Option.ite_none_right_eq_some.mp hs
    obtain rfl := Option.some.inj hsome
    refine absurd ?_ hne
    show (if w.finishes then s.write ok else s).answered = s.answered
    split
    · exact write_answered ok s
    · rfl

/-- **A flush is answered**: the newest of the values sent before it was tried. -/
theorem newest_of_answered {s s' : State μ α} {action : Action μ} {m : μ}
    (h : Machine.Reachable w.step (· = {}) s) (hrising : w.Rising s.sent)
    (hs : w.step s action = some s') (hm : s'.answered = s.answered ++ [m]) :
    ∃ before, s.sent = before ++ m :: s'.queue ∧ w.Newest before s' := by
  obtain ⟨ok, hflush, hq, heq⟩ := flush_of_answered hs hm
  obtain ⟨before, hbefore⟩ := (orderly_of_reachable h).handled hrising
  refine ⟨before, hq ▸ hbefore.sent, ?_⟩
  have hne : ∀ a, w.command m ≠ .save a := fun a ha => by rw [hflush] at ha; cases ha
  have hpending : s'.pending = none := by rw [heq]; exact write_pending ok s
  have hpass : w.Handled s' (before ++ [m]) :=
    hbefore.pass hne hq rfl (by rw [heq]; exact write_sent ok s)
      (by rw [heq]; exact write_values ok s)
  obtain ⟨htried, hfile⟩ := hpass.toNewest (orderly_of_reachable (h.tail hs)).file hpending
  rw [saves_concat_of_ne hne] at htried
  exact ⟨htried, hfile⟩

/-- **The writer has stopped**: the newest of all values sent was tried. -/
theorem newest_of_stopped {s : State μ α} (h : Machine.Reachable w.step (· = {}) s)
    (hrising : w.Rising s.sent) (hr : s.running = false) : w.Newest s.sent s := by
  obtain ⟨hfile, hending, hhandled⟩ := orderly_of_reachable h
  obtain ⟨handled, hh⟩ := hhandled hrising
  cases hending with
  | connected _ hrunning _ =>
    rw [hr] at hrunning
    cases hrunning
  | dropped _ _ hrunning _ _ =>
    rw [hr] at hrunning
    cases hrunning
  | stopped _ _ hq hp =>
    have hsent := hh.sent
    rw [hq, List.append_nil] at hsent
    rw [hsent]
    exact hh.toNewest hfile hp

end Writer

end Taskman
