import Taskman.LTS.Machine
import Mathlib.Algebra.BigOperators.Group.Finset.Basic
import Mathlib.Algebra.GroupWithZero.Nat
import Mathlib.Data.Fintype.BigOperators

/-!
# Handing launches to the running instance

A launch clears the acknowledgement event, sets the show event and waits for the acknowledgement;
after a first wait it asks the window whether it still pumps messages, and where that cannot be
answered it waits once more.  The running instance acknowledges every wake-up of the show event
once.  Both events are auto-reset: a set releases one waiter or stays until the next wait, and a
second set adds nothing to a first one.

All launches share both events, so an acknowledgement may be lost: two requests become one wake-up,
a launch clears the answer to another one, or two answers become one.

* `Instance.Session` : the launches, the two events and the running instance;
* `Instance.step` : what one of them does next;
* `Instance.step_balance` : **what a step does to the launches that ask and the answers they are
  owed**;
* `Instance.launches_activated` : **every run ends; no launch finds the instance unresponsive as
  long as no answer is lost that is still needed, and only then**.
-/

namespace Taskman

namespace Instance

/-- What a launch found. -/
inductive Activation where
  | activated
  | unresponsive
  deriving DecidableEq

/-- Where a launch is in `handshake`. -/
inductive Phase where
  /-- Before it clears the acknowledgement event. -/
  | start
  /-- Before it sets the show event. -/
  | cleared
  /-- Before the first wait. -/
  | asked
  /-- In the first wait. -/
  | waiting
  /-- The window could not answer the probe; before the second wait. -/
  | probed
  /-- In the second wait. -/
  | extended
  | ended (activation : Activation)
  deriving DecidableEq

/-- A launch has asked and has not ended. -/
def Phase.asking : Phase → Bool
  | .asked | .waiting | .probed | .extended => true
  | .start | .cleared | .ended _ => false

/-- A launch is blocked on the acknowledgement event. -/
def Phase.blocked : Phase → Bool
  | .waiting | .extended => true
  | _ => false

/-- Launches, the two events, and the running instance. -/
structure Session (ι : Type*) where
  phase : ι → Phase
  /-- The wake-up that answers a launch's request, counted from 0. -/
  ticket : ι → ℕ
  /-- The show event is set. -/
  showSet : Bool
  /-- The acknowledgement event is set. -/
  ackSet : Bool
  /-- The listener is blocked on the show event. -/
  listening : Bool
  /-- Wake-ups of the listener, and those the window has acknowledged. -/
  woken : ℕ
  acked : ℕ

/-- What a launch, or the running instance, does next. -/
inductive Action (ι : Type*) where
  /-- `ResetEvent(ack)`. -/
  | clear (i : ι)
  /-- `SetEvent(show)`. -/
  | ask (i : ι)
  /-- A launch begins its first or second wait. -/
  | wait (i : ι)
  /-- The first wait of a launch ends, and it probes the window. -/
  | giveUp (i : ι) (responds : Option Bool)
  /-- The second wait of a launch ends. -/
  | expire (i : ι)
  /-- The listener begins to wait again. -/
  | listen
  /-- `SetEvent(ack)`, which releases a blocked launch if there is one. -/
  | acknowledge (released : Option ι)
  deriving DecidableEq

section Defs

variable {ι : Type*} [DecidableEq ι]

/-- A launch goes on to a phase. -/
def Session.move (s : Session ι) (i : ι) (p : Phase) : Session ι :=
  { s with phase := Function.update s.phase i p }

/-- `wait(ack, ..)`: take the acknowledgement if it is there, or block. -/
def Session.await (s : Session ι) (i : ι) (blocked : Phase) : Session ι :=
  if s.ackSet then { s.move i (.ended .activated) with ackSet := false } else s.move i blocked

/-- No launch is blocked on the acknowledgement event. -/
def Session.Quiet (s : Session ι) : Prop := ∀ i, (s.phase i).blocked = false

instance [Fintype ι] (s : Session ι) : Decidable s.Quiet :=
  inferInstanceAs (Decidable (∀ i, (s.phase i).blocked = false))

variable [Fintype ι]

/-- One step of a launch or of the running instance, which is alive: its window does not fail the
probe, and a launch's first wait lasts until its own request was acknowledged. -/
def step (s : Session ι) : Action ι → Option (Session ι)
  | .clear i =>
    if s.phase i = .start then some { s.move i .cleared with ackSet := false } else none
  | .ask i =>
    if s.phase i = .cleared then
      let s' := { s.move i .asked with ticket := Function.update s.ticket i s.woken }
      if s.listening then some { s' with listening := false, woken := s.woken + 1 }
      else some { s' with showSet := true }
    else none
  | .wait i =>
    match s.phase i with
    | .asked => some (s.await i .waiting)
    | .probed => some (s.await i .extended)
    | _ => none
  | .giveUp i responds =>
    if s.phase i = .waiting ∧ s.ticket i < s.acked then
      match responds with
      | some true => some (s.move i (.ended .activated))
      | some false => none
      | none => some (s.move i .probed)
    else none
  | .expire i => if s.phase i = .extended then some (s.move i (.ended .unresponsive)) else none
  | .listen =>
    if s.listening then none
    else if s.showSet then some { s with showSet := false, woken := s.woken + 1 }
    else some { s with listening := true }
  | .acknowledge released =>
    if s.acked < s.woken then
      match released with
      | some i =>
        if (s.phase i).blocked then
          some { s.move i (.ended .activated) with acked := s.acked + 1 }
        else none
      | none => if s.Quiet then some { s with ackSet := true, acked := s.acked + 1 } else none
    else none

/-- Before the first launch.  An earlier one may have left the acknowledgement event set. -/
def initial (ι : Type*) (ackSet : Bool) : Session ι :=
  { phase := fun _ => .start, ticket := fun _ => 0, showSet := false, ackSet, listening := true,
    woken := 0, acked := 0 }

/-- How many launches have asked and have not ended. -/
def askingIn (phase : ι → Phase) : ℕ := (Finset.univ.filter fun i => (phase i).asking).card

/-- How many launches ask. -/
def Session.asking (s : Session ι) : ℕ := askingIn s.phase

/-- Acknowledgements that are set or still to come. -/
def Session.owed (s : Session ι) : ℕ :=
  (s.woken - s.acked) + s.showSet.toNat + s.ackSet.toNat

/-- A step after which there is one acknowledgement less: it clears one, or sets an event that is
set. -/
def Loses (s : Session ι) : Action ι → Prop
  | .clear _ => s.ackSet = true
  | .ask _ => s.listening = false ∧ s.showSet = true
  | .acknowledge none => s.ackSet = true
  | _ => False

instance (s : Session ι) (a : Action ι) : Decidable (Loses s a) :=
  match a with
  | .clear _ => inferInstanceAs (Decidable (s.ackSet = true))
  | .ask _ => inferInstanceAs (Decidable (s.listening = false ∧ s.showSet = true))
  | .acknowledge none => inferInstanceAs (Decidable (s.ackSet = true))
  | .acknowledge (some _) => isFalse id
  | .wait _ => isFalse id
  | .giveUp _ _ => isFalse id
  | .expire _ => isFalse id
  | .listen => isFalse id

/-- An acknowledgement is lost only where more are owed than launches ask, and no second wait ends
while one is still to come. -/
def Enough (s : Session ι) (a : Action ι) : Prop :=
  (Loses s a → s.asking < s.owed) ∧
    ∀ i, a = .expire i → s.woken = s.acked ∧ s.showSet = false

instance (s : Session ι) (a : Action ι) : Decidable (Enough s a) :=
  inferInstanceAs (Decidable ((Loses s a → s.asking < s.owed) ∧
    ∀ i, a = .expire i → s.woken = s.acked ∧ s.showSet = false))

end Defs

/-! ### Steps -/

section Steps

variable {ι : Type*} [DecidableEq ι] [Fintype ι] {s s' : Session ι} {a : Action ι}

/-- What a step does, case by case. -/
inductive Step (s : Session ι) : Action ι → Session ι → Prop
  | clears (i : ι) (h : s.phase i = .start) :
    Step s (.clear i) { s.move i .cleared with ackSet := false }
  | askWakes (i : ι) (h : s.phase i = .cleared) (hlistening : s.listening = true) :
    Step s (.ask i)
      { s.move i .asked with
        ticket := Function.update s.ticket i s.woken, listening := false, woken := s.woken + 1 }
  | askSets (i : ι) (h : s.phase i = .cleared) (hbusy : s.listening = false) :
    Step s (.ask i)
      { s.move i .asked with ticket := Function.update s.ticket i s.woken, showSet := true }
  | takes (i : ι) (h : s.phase i = .asked ∨ s.phase i = .probed) (hack : s.ackSet = true) :
    Step s (.wait i) { s.move i (.ended .activated) with ackSet := false }
  | blocks (i : ι) (h : s.phase i = .asked) (hack : s.ackSet = false) :
    Step s (.wait i) (s.move i .waiting)
  | blocksAgain (i : ι) (h : s.phase i = .probed) (hack : s.ackSet = false) :
    Step s (.wait i) (s.move i .extended)
  | responds (i : ι) (h : s.phase i = .waiting) :
    Step s (.giveUp i (some true)) (s.move i (.ended .activated))
  | silent (i : ι) (h : s.phase i = .waiting) : Step s (.giveUp i none) (s.move i .probed)
  | expires (i : ι) (h : s.phase i = .extended) :
    Step s (.expire i) (s.move i (.ended .unresponsive))
  | wakes (hbusy : s.listening = false) (hshow : s.showSet = true) :
    Step s .listen { s with showSet := false, woken := s.woken + 1 }
  | listens (hbusy : s.listening = false) (hshow : s.showSet = false) :
    Step s .listen { s with listening := true }
  | releases (i : ι) (hpending : s.acked < s.woken) (hblocked : (s.phase i).blocked = true) :
    Step s (.acknowledge (some i)) { s.move i (.ended .activated) with acked := s.acked + 1 }
  | sets (hpending : s.acked < s.woken) (hquiet : s.Quiet) :
    Step s (.acknowledge none) { s with ackSet := true, acked := s.acked + 1 }

/-- Every step is one of the cases. -/
theorem step_cases (hstep : step s a = some s') : Step s a s' := by
  cases a with
  | clear i =>
    simp only [step, Option.ite_none_right_eq_some, Option.some.injEq] at hstep
    obtain ⟨h, rfl⟩ := hstep
    exact Step.clears i h
  | ask i =>
    simp only [step, Option.ite_none_right_eq_some] at hstep
    obtain ⟨h, hstep⟩ := hstep
    split at hstep
    · obtain rfl := Option.some.inj hstep
      exact Step.askWakes i h ‹_›
    · obtain rfl := Option.some.inj hstep
      exact Step.askSets i h (Bool.eq_false_iff.mpr ‹_›)
  | wait i =>
    have hwait : ∀ {p}, (s.phase i = .asked ∧ p = .waiting ∨ s.phase i = .probed ∧ p = .extended) →
        Step s (.wait i) (s.await i p) := by
      intro p hp
      unfold Session.await
      split
      · exact Step.takes i (hp.imp And.left And.left) ‹_›
      · have hack : s.ackSet = false := Bool.eq_false_iff.mpr ‹_›
        rcases hp with ⟨h, rfl⟩ | ⟨h, rfl⟩
        · exact Step.blocks i h hack
        · exact Step.blocksAgain i h hack
    simp only [step] at hstep
    split at hstep
    · obtain rfl := Option.some.inj hstep
      exact hwait (Or.inl ⟨‹_›, rfl⟩)
    · obtain rfl := Option.some.inj hstep
      exact hwait (Or.inr ⟨‹_›, rfl⟩)
    · cases hstep
  | giveUp i responds =>
    simp only [step, Option.ite_none_right_eq_some] at hstep
    obtain ⟨⟨h, -⟩, hstep⟩ := hstep
    split at hstep
    · obtain rfl := Option.some.inj hstep
      exact Step.responds i h
    · cases hstep
    · obtain rfl := Option.some.inj hstep
      exact Step.silent i h
  | expire i =>
    simp only [step, Option.ite_none_right_eq_some, Option.some.injEq] at hstep
    obtain ⟨h, rfl⟩ := hstep
    exact Step.expires i h
  | listen =>
    simp only [step, Option.ite_none_left_eq_some] at hstep
    obtain ⟨hbusy, hstep⟩ := hstep
    split at hstep
    · obtain rfl := Option.some.inj hstep
      exact Step.wakes (Bool.eq_false_iff.mpr hbusy) ‹_›
    · obtain rfl := Option.some.inj hstep
      exact Step.listens (Bool.eq_false_iff.mpr hbusy) (Bool.eq_false_iff.mpr ‹_›)
  | acknowledge released =>
    simp only [step, Option.ite_none_right_eq_some] at hstep
    obtain ⟨hpending, hstep⟩ := hstep
    split at hstep
    · simp only [Option.ite_none_right_eq_some, Option.some.injEq] at hstep
      obtain ⟨hblocked, rfl⟩ := hstep
      exact Step.releases _ hpending hblocked
    · simp only [Option.ite_none_right_eq_some, Option.some.injEq] at hstep
      obtain ⟨hquiet, rfl⟩ := hstep
      exact Step.sets hpending hquiet

/-! ### The balance -/

/-- What moving one launch does to a sum over the launches. -/
theorem sum_update (f : ι → Phase) (i : ι) (p : Phase) (w : Phase → ℕ) :
    ∑ j, w (Function.update f i p j) + w (f i) = ∑ j, w (f j) + w p := by
  have hrest : ∑ j ∈ Finset.univ.erase i, w (Function.update f i p j) =
      ∑ j ∈ Finset.univ.erase i, w (f j) := by
    refine Finset.sum_congr rfl fun j hj => ?_
    rw [Function.update_of_ne (Finset.ne_of_mem_erase hj)]
  rw [← Finset.add_sum_erase _ _ (Finset.mem_univ i),
    ← Finset.add_sum_erase _ (fun j => w (f j)) (Finset.mem_univ i), hrest, Function.update_self]
  omega

/-- A launch that goes on to another phase. -/
theorem askingIn_update (f : ι → Phase) (i : ι) (p : Phase) :
    askingIn (Function.update f i p) + (f i).asking.toNat = askingIn f + p.asking.toNat := by
  have hsum : ∀ g : ι → Phase, askingIn g = ∑ j, (g j).asking.toNat := by
    intro g
    rw [askingIn, Finset.card_filter]
    refine Finset.sum_congr rfl fun j _ => ?_
    cases (g j).asking <;> rfl
  rw [hsum, hsum]
  exact sum_update f i p fun p => p.asking.toNat

theorem Phase.asking_of_blocked {p : Phase} (h : p.blocked = true) : p.asking = true := by
  cases p <;> simp_all [Phase.blocked, Phase.asking]

/-- A launch that ends without an acknowledgement leaves one over. -/
def leftOver : Action ι → ℕ
  | .giveUp _ (some true) | .expire _ => 1
  | _ => 0

open Classical in
/-- **What a step does to the launches that ask and the acknowledgements they are owed.** -/
theorem step_balance (hle : s.acked ≤ s.woken) (hstep : step s a = some s') :
    s'.acked ≤ s'.woken ∧
      s'.asking + s.owed + leftOver a = s.asking + s'.owed + if Loses s a then 1 else 0 := by
  simp only [Session.asking, Session.owed]
  -- in each case one phase, one event or one of the two counters changes, and the sum over the
  -- phases by what `askingIn_update` says
  cases step_cases hstep with
  | clears i h =>
    have hmove := askingIn_update s.phase i .cleared
    refine ⟨hle, ?_⟩
    cases hack : s.ackSet <;>
      simp [Session.move, Phase.asking, Loses, leftOver, hack, h] at hmove ⊢ <;> omega
  | askWakes i h hlistening =>
    have hmove := askingIn_update s.phase i .asked
    refine ⟨Nat.le_succ_of_le hle, ?_⟩
    simp [Session.move, Phase.asking, Loses, leftOver, hlistening, h] at hmove ⊢
    omega
  -- an event that is set already takes no second request
  | askSets i h hbusy =>
    have hmove := askingIn_update s.phase i .asked
    refine ⟨hle, ?_⟩
    cases hshow : s.showSet <;>
      simp [Session.move, Phase.asking, Loses, leftOver, hbusy, hshow, h] at hmove ⊢ <;> omega
  | takes i h hack =>
    have hmove := askingIn_update s.phase i (.ended .activated)
    refine ⟨hle, ?_⟩
    rcases h with h | h <;>
      simp [Session.move, Phase.asking, Loses, leftOver, hack, h] at hmove ⊢ <;> omega
  | blocks i h hack =>
    have hmove := askingIn_update s.phase i .waiting
    refine ⟨hle, ?_⟩
    simp [Session.move, Phase.asking, Loses, leftOver, hack, h] at hmove ⊢
    omega
  | blocksAgain i h hack =>
    have hmove := askingIn_update s.phase i .extended
    refine ⟨hle, ?_⟩
    simp [Session.move, Phase.asking, Loses, leftOver, hack, h] at hmove ⊢
    omega
  | responds i h =>
    have hmove := askingIn_update s.phase i (.ended .activated)
    refine ⟨hle, ?_⟩
    simp [Session.move, Phase.asking, Loses, leftOver, h] at hmove ⊢
    omega
  | silent i h =>
    have hmove := askingIn_update s.phase i .probed
    refine ⟨hle, ?_⟩
    simp [Session.move, Phase.asking, Loses, leftOver, h] at hmove ⊢
    omega
  | expires i h =>
    have hmove := askingIn_update s.phase i (.ended .unresponsive)
    refine ⟨hle, ?_⟩
    simp [Session.move, Phase.asking, Loses, leftOver, h] at hmove ⊢
    omega
  | wakes hbusy hshow =>
    refine ⟨Nat.le_succ_of_le hle, ?_⟩
    simp [Loses, leftOver, hshow]
    omega
  | listens hbusy hshow =>
    refine ⟨hle, ?_⟩
    simp [Loses, leftOver]
  | releases i hpending hblocked =>
    have hmove := askingIn_update s.phase i (.ended .activated)
    rw [Phase.asking_of_blocked hblocked] at hmove
    refine ⟨hpending, ?_⟩
    simp [Session.move, Phase.asking, Loses, leftOver] at hmove ⊢
    omega
  | sets hpending hquiet =>
    refine ⟨hpending, ?_⟩
    cases hack : s.ackSet <;> simp [Loses, leftOver, hack] <;> omega

end Steps

/-! ### Runs -/

section Runs

variable {ι : Type*} [DecidableEq ι] [Fintype ι] {s s' : Session ι} {a : Action ι}

/-- What holds in every state. -/
structure Sound (s : Session ι) : Prop where
  acked : s.acked ≤ s.woken
  /-- No launch is blocked on an event that is set. -/
  quiet : s.ackSet = true → s.Quiet
  listening : s.listening = true → s.showSet = false
  /-- A request was taken up, or its event is still set. -/
  ticket : ∀ i, (s.phase i).asking = true →
    s.ticket i < s.woken ∨ s.showSet = true ∧ s.ticket i = s.woken

omit [DecidableEq ι] [Fintype ι] in
theorem sound_initial (ackSet : Bool) : Sound (initial ι ackSet) where
  acked := le_rfl
  quiet := fun _ _ => rfl
  listening := fun _ => rfl
  ticket := fun _ h => nomatch h

omit [Fintype ι] in
theorem forall_move {P : ι → Phase → Prop} (h : ∀ j, P j (s.phase j)) {i : ι} {p : Phase}
    (hp : P i p) : ∀ j, P j ((s.move i p).phase j) := by
  intro j
  by_cases hj : j = i
  · subst hj
    simpa [Session.move] using hp
  · simpa [Session.move, hj] using h j

omit [Fintype ι] in
theorem Session.Quiet.move (h : s.Quiet) {i : ι} {p : Phase} (hp : p.blocked = false) :
    (s.move i p).Quiet :=
  forall_move (P := fun _ p => p.blocked = false) h hp

/-- What holds between two steps is kept by every step. -/
theorem Sound.step (hs : Sound s) (hstep : step s a = some s') : Sound s' := by
  have hacked := (step_balance hs.acked hstep).1
  -- the launch that moves either was asking before, or asks no longer
  have hticket : ∀ {i : ι} {p : Phase}, (s.phase i).asking = true ∨ p.asking = false →
      ∀ j, ((s.move i p).phase j).asking = true →
        s.ticket j < s.woken ∨ s.showSet = true ∧ s.ticket j = s.woken := by
    intro i p hp
    refine forall_move (P := fun j p => p.asking = true →
      s.ticket j < s.woken ∨ s.showSet = true ∧ s.ticket j = s.woken) hs.ticket fun hasking => ?_
    exact hs.ticket i (hp.resolve_right (by simp [hasking]))
  cases step_cases hstep with
  | clears i h =>
    exact
      { acked := hacked
        quiet := fun hack => nomatch hack
        listening := hs.listening
        ticket := hticket (Or.inr rfl) }
  -- the listener wakes at once, and every ticket drawn so far is behind it
  | askWakes i h hlistening =>
    refine
      { acked := hacked
        quiet := fun hack => (hs.quiet hack).move rfl
        listening := fun hlistening => nomatch hlistening
        ticket := fun j hj => Or.inl ?_ }
    dsimp only
    by_cases hji : j = i
    · simp [hji]
    · have hold : (s.phase j).asking = true := by simpa [Session.move, hji] using hj
      have hnew := (hs.ticket j hold).resolve_right (by simp [hs.listening hlistening])
      rw [Function.update_of_ne hji]
      omega
  -- the event stays set for the new ticket, which is the current one
  | askSets i h hbusy =>
    refine
      { acked := hacked
        quiet := fun hack => (hs.quiet hack).move rfl
        listening := fun hlistening => absurd hlistening (by simp [Session.move, hbusy])
        ticket := fun j hj => ?_ }
    dsimp only
    by_cases hji : j = i
    · exact Or.inr ⟨rfl, by simp [hji, Session.move]⟩
    · have hold : (s.phase j).asking = true := by simpa [Session.move, hji] using hj
      rw [Function.update_of_ne hji]
      exact (hs.ticket j hold).imp_right fun hset => ⟨rfl, hset.2⟩
  | takes i h hack =>
    exact
      { acked := hacked
        quiet := fun hack => nomatch hack
        listening := hs.listening
        ticket := hticket (Or.inr rfl) }
  | blocks i h hack =>
    exact
      { acked := hacked
        quiet := fun hset => absurd hset (by simp [Session.move, hack])
        listening := hs.listening
        ticket := hticket (Or.inl (by rw [h]; rfl)) }
  | blocksAgain i h hack =>
    exact
      { acked := hacked
        quiet := fun hset => absurd hset (by simp [Session.move, hack])
        listening := hs.listening
        ticket := hticket (Or.inl (by rw [h]; rfl)) }
  | responds i h =>
    exact
      { acked := hacked
        quiet := fun hack => (hs.quiet hack).move rfl
        listening := hs.listening
        ticket := hticket (Or.inr rfl) }
  | silent i h =>
    exact
      { acked := hacked
        quiet := fun hack => (hs.quiet hack).move rfl
        listening := hs.listening
        ticket := hticket (Or.inl (by rw [h]; rfl)) }
  | expires i h =>
    exact
      { acked := hacked
        quiet := fun hack => (hs.quiet hack).move rfl
        listening := hs.listening
        ticket := hticket (Or.inr rfl) }
  -- one wake-up covers all tickets that waited for it
  | wakes hbusy hshow =>
    refine
      { acked := hacked
        quiet := hs.quiet
        listening := fun _ => rfl
        ticket := fun j hj => Or.inl ?_ }
    have hold := hs.ticket j hj
    dsimp only
    omega
  | listens hbusy hshow =>
    exact
      { acked := hacked
        quiet := hs.quiet
        listening := fun _ => hshow
        ticket := hs.ticket }
  | releases i hpending hblocked =>
    exact
      { acked := hacked
        quiet := fun hack => (hs.quiet hack).move rfl
        listening := hs.listening
        ticket := hticket (Or.inr rfl) }
  | sets hpending hquiet =>
    exact
      { acked := hacked
        quiet := fun _ => hquiet
        listening := hs.listening
        ticket := hs.ticket }

/-- A launch finds the instance unresponsive only where its second wait ends, and stays ended. -/
theorem ended_of_step (hstep : step s a = some s') (i : ι) :
    (∀ r, s.phase i = .ended r → s'.phase i = .ended r) ∧
      (s'.phase i = .ended .unresponsive → s.phase i = .ended .unresponsive ∨ a = .expire i) := by
  have hmove : ∀ {j : ι} {p : Phase}, (∀ r, s.phase j ≠ .ended r) →
      (p = .ended .unresponsive → a = .expire j) →
        (∀ r, s.phase i = .ended r → (s.move j p).phase i = .ended r) ∧
          ((s.move j p).phase i = .ended .unresponsive →
            s.phase i = .ended .unresponsive ∨ a = .expire i) := by
    intro j p hj hp
    by_cases hij : i = j
    · subst hij
      refine ⟨fun r hr => absurd hr (hj r), fun h => Or.inr (hp ?_)⟩
      simpa [Session.move] using h
    · simp only [Session.move, Function.update_of_ne hij]
      exact ⟨fun _ hr => hr, Or.inl⟩
  have hsame : (∀ r, s.phase i = .ended r → s.phase i = .ended r) ∧
      (s.phase i = .ended .unresponsive → s.phase i = .ended .unresponsive ∨ a = .expire i) :=
    ⟨fun _ hr => hr, Or.inl⟩
  cases step_cases hstep with
  | clears j h => exact hmove (by simp [h]) (fun heq => nomatch heq)
  | askWakes j h _ => exact hmove (by simp [h]) (fun heq => nomatch heq)
  | askSets j h _ => exact hmove (by simp [h]) (fun heq => nomatch heq)
  | takes j h _ => exact hmove (by rcases h with h | h <;> simp [h]) (fun heq => nomatch heq)
  | blocks j h _ => exact hmove (by simp [h]) (fun heq => nomatch heq)
  | blocksAgain j h _ => exact hmove (by simp [h]) (fun heq => nomatch heq)
  | responds j h => exact hmove (by simp [h]) (fun heq => nomatch heq)
  | silent j h => exact hmove (by simp [h]) (fun heq => nomatch heq)
  | expires j h => exact hmove (by simp [h]) fun _ => rfl
  | wakes _ _ => exact hsame
  | listens _ _ => exact hsame
  | releases j _ hblocked =>
    exact hmove (fun r hr => by simp [hr, Phase.blocked] at hblocked) (fun heq => nomatch heq)
  | sets _ _ => exact hsame

/-! ### Enough acknowledgements -/

/-- No launch found the instance unresponsive, and as many acknowledgements are owed as launches
ask. -/
structure Served (s : Session ι) : Prop where
  sound : Sound s
  enough : s.asking ≤ s.owed
  responsive : ∀ i, s.phase i ≠ .ended .unresponsive

omit [DecidableEq ι] in
theorem one_le_asking {i : ι} (h : (s.phase i).asking = true) : 1 ≤ s.asking :=
  Finset.card_pos.mpr ⟨i, by simp [h]⟩

/-- **A step that loses no acknowledgement which is needed keeps every launch served.** -/
theorem Served.step (hs : Served s) (henough : Enough s a) (hstep : step s a = some s') :
    Served s' := by
  have hbalance := (step_balance hs.sound.acked hstep).2
  refine
    { sound := hs.sound.step hstep
      enough := ?_
      responsive := fun i hi => ?_ }
  · have hle := hs.enough
    split at hbalance
    · have hlt := henough.1 ‹_›
      omega
    · omega
  · rcases (ended_of_step hstep i).2 hi with hold | rfl
    · exact hs.responsive i hold
    · -- the launch asks and is blocked, so an acknowledgement is still to come
      obtain ⟨hwoken, hshow⟩ := henough.2 i rfl
      have hphase : s.phase i = .extended := by
        cases step_cases hstep
        assumption
      have hack : s.ackSet = false := by
        refine Bool.eq_false_iff.mpr fun hack => ?_
        have hquiet := hs.sound.quiet hack i
        rw [hphase] at hquiet
        cases hquiet
      have hasking : 1 ≤ s.asking := one_le_asking (i := i) (by rw [hphase]; rfl)
      have howed : s.owed = 0 := by simp [Session.owed, hwoken, hshow, hack]
      have hle := hs.enough
      omega

/-! ### Every run ends -/

/-- The steps a launch can still take. -/
def Phase.left : Phase → ℕ
  | .start => 6
  | .cleared => 5
  | .asked => 4
  | .waiting => 3
  | .probed => 2
  | .extended => 1
  | .ended _ => 0

/-- The turns that are left, those of the running instance included. -/
def Session.rank (s : Session ι) : ℕ :=
  4 * (∑ i, (s.phase i).left) + (s.woken - s.acked) + 3 * s.showSet.toNat +
    2 * (!s.listening).toNat

omit [DecidableEq ι] in
theorem rank_initial (ackSet : Bool) : (initial ι ackSet).rank = 24 * Fintype.card ι := by
  simp [Session.rank, initial, Phase.left]
  omega

/-- Every step leaves fewer. -/
theorem rank_lt (hs : Sound s) (hstep : step s a = some s') : s'.rank < s.rank := by
  have hle := hs.acked
  have hmove : ∀ (i : ι) (p : Phase), p.left < (s.phase i).left →
      ∑ j, ((s.move i p).phase j).left + 1 ≤ ∑ j, (s.phase j).left := by
    intro i p hlt
    have hsum := sum_update s.phase i p Phase.left
    simp only [Session.move]
    omega
  simp only [Session.rank]
  -- a launch that moves has fewer moves left, which outweighs the events and counters
  cases step_cases hstep with
  | clears i h =>
    have hsum := hmove i .cleared (by rw [h]; decide)
    simp only [Session.move] at hsum ⊢
    omega
  | askWakes i h hlistening =>
    have hsum := hmove i .asked (by rw [h]; decide)
    simp only [Session.move, hlistening, Bool.not_true, Bool.not_false, Bool.toNat_true,
      Bool.toNat_false] at hsum ⊢
    omega
  | askSets i h hbusy =>
    have hsum := hmove i .asked (by rw [h]; decide)
    simp only [Session.move, Bool.toNat_true] at hsum ⊢
    omega
  | takes i h hack =>
    have hsum := hmove i (.ended .activated) (by rcases h with h | h <;> rw [h] <;> decide)
    simp only [Session.move] at hsum ⊢
    omega
  | blocks i h hack =>
    have hsum := hmove i .waiting (by rw [h]; decide)
    simp only [Session.move] at hsum ⊢
    omega
  | blocksAgain i h hack =>
    have hsum := hmove i .extended (by rw [h]; decide)
    simp only [Session.move] at hsum ⊢
    omega
  | responds i h =>
    have hsum := hmove i (.ended .activated) (by rw [h]; decide)
    simp only [Session.move] at hsum ⊢
    omega
  | silent i h =>
    have hsum := hmove i .probed (by rw [h]; decide)
    simp only [Session.move] at hsum ⊢
    omega
  | expires i h =>
    have hsum := hmove i (.ended .unresponsive) (by rw [h]; decide)
    simp only [Session.move] at hsum ⊢
    omega
  | wakes hbusy hshow =>
    simp only [hshow, Bool.toNat_true, Bool.toNat_false]
    omega
  | listens hbusy hshow =>
    simp only [hbusy, Bool.not_true, Bool.not_false, Bool.toNat_true, Bool.toNat_false]
    omega
  | releases i hpending hblocked =>
    have hsum := hmove i (.ended .activated)
      (by cases hphase : s.phase i <;> simp [hphase, Phase.blocked, Phase.left] at hblocked ⊢)
    simp only [Session.move] at hsum ⊢
    omega
  | sets hpending hquiet =>
    simp only
    omega

theorem length_add_rank_le {as : List (Action ι)} (hs : Sound s)
    (hrun : Machine.exec step s as = some s') : as.length + s'.rank ≤ s.rank := by
  induction as generalizing s with
  | nil =>
    obtain rfl := Option.some.inj hrun
    simp
  | cons a as ih =>
    obtain ⟨t, ht, hrest⟩ := Machine.exec_cons_eq_some.mp hrun
    have hle := ih (hs.step ht) hrest
    have hlt := rank_lt hs ht
    rw [List.length_cons]
    omega

/-- **Where nothing can happen any more, every launch has ended.** -/
theorem ended_of_stuck (hs : Sound s) (hstuck : ∀ a, step s a = none) (i : ι) :
    ∃ r, s.phase i = .ended r := by
  have hpossible : ∀ {a t}, step s a = some t → False := fun {a t} h => by
    rw [hstuck a] at h
    cases h
  cases hphase : s.phase i with
  | start => exact (hpossible (a := .clear i) (if_pos hphase)).elim
  | cleared =>
    cases hlistening : s.listening with
    | true =>
      exact (hpossible (a := .ask i) ((if_pos hphase).trans (if_pos hlistening))).elim
    | false =>
      exact (hpossible (a := .ask i)
        ((if_pos hphase).trans (if_neg (by simp [hlistening])))).elim
  | asked => exact (hpossible (a := .wait i) (by simp only [step, hphase]; rfl)).elim
  | probed => exact (hpossible (a := .wait i) (by simp only [step, hphase]; rfl)).elim
  | waiting =>
    by_cases hanswered : s.ticket i < s.acked
    · exact (hpossible (a := .giveUp i none) (if_pos ⟨hphase, hanswered⟩)).elim
    · by_cases hpending : s.acked < s.woken
      · have hblocked : (s.phase i).blocked = true := by rw [hphase]; rfl
        exact (hpossible (a := .acknowledge (some i))
          ((if_pos hpending).trans (if_pos hblocked))).elim
      · -- the request is still set, so the listener is not blocked and takes it up
        have hshow : s.showSet = true :=
          ((hs.ticket i (by rw [hphase]; rfl)).resolve_left (by omega)).1
        have hbusy : ¬ s.listening = true := fun hlistening => by
          rw [hs.listening hlistening] at hshow
          cases hshow
        exact (hpossible (a := .listen) ((if_neg hbusy).trans (if_pos hshow))).elim
  | extended => exact (hpossible (a := .expire i) (if_pos hphase)).elim
  | ended r => exact ⟨r, rfl⟩

/-! ### Acknowledgements that are missing -/

theorem ended_of_run {as : List (Action ι)} (hrun : Machine.exec step s as = some s') {i : ι}
    {r : Activation} (h : s.phase i = .ended r) : s'.phase i = .ended r :=
  Machine.invariant (I := fun t => t.phase i = .ended r)
    (fun _ _ _ ht hstep => (ended_of_step hstep i).1 r ht) h hrun

/-- Where every launch is activated in the end and no probe was answered, no step leaves an
acknowledgement over. -/
theorem leftOver_eq_zero {as : List (Action ι)} {t : Session ι} (hstep : step s a = some t)
    (hrun : Machine.exec step t as = some s') (hall : ∀ i, s'.phase i = .ended .activated)
    (hprobe : ∀ i p, a = .giveUp i p → p = none) : leftOver a = 0 := by
  cases a with
  | giveUp i p =>
    rw [hprobe i p rfl]
    rfl
  | expire i =>
    have hphase : t.phase i = .ended .unresponsive := by
      cases step_cases hstep
      simp [Session.move]
    have hend := ended_of_run hrun hphase
    rw [hall i] at hend
    cases hend
  | _ => rfl

/-- Then there were enough of them all along. -/
theorem asking_le_owed {as : List (Action ι)} (hs : Sound s)
    (hrun : Machine.exec step s as = some s') (hall : ∀ i, s'.phase i = .ended .activated)
    (hprobe : ∀ i p, .giveUp i p ∈ as → p = none) : s.asking ≤ s.owed := by
  induction as generalizing s with
  | nil =>
    obtain rfl := Option.some.inj hrun
    have hnone : s.asking = 0 := by simp [Session.asking, askingIn, hall, Phase.asking]
    omega
  | cons a as ih =>
    obtain ⟨t, ht, hrest⟩ := Machine.exec_cons_eq_some.mp hrun
    have hle := ih (hs.step ht) hrest fun i p hp => hprobe i p (List.mem_cons_of_mem _ hp)
    have hzero := leftOver_eq_zero ht hrest hall fun i p hp => hprobe i p (by simp [hp])
    have hbalance := (step_balance hs.acked ht).2
    omega

/-- **Where every launch is activated in the end and no probe was answered, no acknowledgement that
was needed was lost.** -/
theorem along_enough {as : List (Action ι)} (hs : Sound s)
    (hrun : Machine.exec step s as = some s') (hall : ∀ i, s'.phase i = .ended .activated)
    (hprobe : ∀ i p, .giveUp i p ∈ as → p = none) : Machine.Along step Enough s as := by
  induction as generalizing s with
  | nil => trivial
  | cons a as ih =>
    obtain ⟨t, ht, hrest⟩ := Machine.exec_cons_eq_some.mp hrun
    have hprobe' : ∀ i p, Action.giveUp i p ∈ as → p = none :=
      fun i p hp => hprobe i p (List.mem_cons_of_mem _ hp)
    have hzero := leftOver_eq_zero ht hrest hall fun i p hp => hprobe i p (by simp [hp])
    refine ⟨⟨fun hloses => ?_, fun i hi => ?_⟩, fun t' ht' => ?_⟩
    · have hle := asking_le_owed (hs.step ht) hrest hall hprobe'
      have hbalance := (step_balance hs.acked ht).2
      rw [if_pos hloses] at hbalance
      omega
    · rw [hi] at hzero
      cases hzero
    · obtain rfl : t = t' := Option.some.inj (ht.symm.trans ht')
      exact ih (hs.step ht) hrest hprobe'

/-- **Every run ends with all launches ended.  No launch finds the instance unresponsive as long as
no acknowledgement is lost that is still needed; and where the probe is never answered, only
then.** -/
theorem launches_activated (ackSet : Bool) (as : List (Action ι)) (s : Session ι)
    (h : Machine.exec step (initial ι ackSet) as = some s) :
    as.length ≤ 24 * Fintype.card ι ∧
      ((∀ a, step s a = none) → ∀ i, ∃ r, s.phase i = .ended r) ∧
      (Machine.Along step Enough (initial ι ackSet) as → ∀ i, s.phase i ≠ .ended .unresponsive) ∧
      ((∀ i, ∃ r, s.phase i = .ended r) → (∀ i p, .giveUp i p ∈ as → p = none) →
        ((∀ i, s.phase i = .ended .activated) ↔
          Machine.Along step Enough (initial ι ackSet) as)) := by
  have hsound : Sound s :=
    Machine.invariant (fun _ _ _ ht hstep => ht.step hstep) (sound_initial ackSet) h
  have hserved : Machine.Along step Enough (initial ι ackSet) as → Served s := by
    intro henough
    refine Machine.invariant_of_along (fun _ _ _ ht hC hstep => ht.step hC hstep) ?_ henough h
    exact
      { sound := sound_initial ackSet
        enough := by simp [Session.asking, askingIn, initial, Phase.asking]
        responsive := fun i => by simp [initial] }
  refine ⟨?_, ended_of_stuck hsound, fun henough => (hserved henough).responsive, ?_⟩
  · have hle := length_add_rank_le (sound_initial ackSet) h
    rw [rank_initial] at hle
    omega
  · intro hended hprobe
    refine ⟨fun hall => along_enough (sound_initial ackSet) h hall hprobe, fun henough i => ?_⟩
    obtain ⟨r, hr⟩ := hended i
    cases r with
    | activated => exact hr
    | unresponsive => exact absurd hr ((hserved henough).responsive i)

end Runs

section

local instance neZeroTwo : NeZero 2 := ⟨two_ne_zero⟩

/-- The second launch clears the answer to the first one, which then takes the answer to the
second. -/
def overtaken : List (Action (Fin 2)) :=
  [.clear 0, .ask 0, .acknowledge none, .clear 1, .ask 1, .listen, .acknowledge none, .wait 0,
    .wait 1, .giveUp 1 none, .wait 1, .expire 1]

/-- Two launches overlap: the second asks while the listener serves the first. -/
def overlapping : List (Action (Fin 2)) :=
  [.clear 0, .clear 1, .ask 0, .ask 1, .wait 1, .acknowledge (some 1), .wait 0, .listen,
    .giveUp 0 none, .acknowledge none, .wait 0]

end

/-- A launch starts a second instance beside one that answered every wake-up. -/
theorem second_instance :
    ¬ ∀ (as : List (Action (Fin 2))) (s : Session (Fin 2)),
      Machine.exec step (initial (Fin 2) false) as = some s →
        ∀ i, s.phase i ≠ .ended .unresponsive := by
  intro hall
  have hrun : ∃ s, Machine.exec step (initial (Fin 2) false) overtaken = some s ∧
      s.phase 1 = .ended .unresponsive := ⟨_, rfl, rfl⟩
  obtain ⟨s, hs, hphase⟩ := hrun
  exact hall overtaken s hs 1 hphase

/-- Two launches that overlap, each with the answer to the other, are both activated. -/
theorem launches_activated_overlapping :
    ∃ s, Machine.exec step (initial (Fin 2) true) overlapping = some s ∧
      ∀ i, s.phase i = .ended .activated := by
  obtain ⟨s, hs⟩ := Option.isSome_iff_exists.mp
    (show (Machine.exec step (initial (Fin 2) true) overlapping).isSome by decide)
  have hended : ∀ s ∈ Machine.exec step (initial (Fin 2) true) overlapping,
      ∀ i, s.phase i = .ended .activated ∨ s.phase i = .ended .unresponsive := by decide
  refine ⟨s, hs, ((launches_activated true overlapping s hs).2.2.2 (fun i => ?_) ?_).mpr ?_⟩
  · exact (hended s hs i).elim (fun h => ⟨_, h⟩) fun h => ⟨_, h⟩
  · intro i p hp
    simp [overlapping] at hp
    exact hp.2
  · decide

end Instance

end Taskman
