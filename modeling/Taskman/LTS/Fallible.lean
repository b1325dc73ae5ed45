import Mathlib.Data.List.Basic

/-!
# Computations that fail halfway

A computation of `EStateM` that fails keeps the state it has reached: what it did until then is not
undone.  Such a computation is described by what holds of its value and its state where it succeeds,
and of its error and its state where it fails.

* `Yields` : both descriptions hold of a run;
* `yields_bind` : the description of a sequence is the description of its first part;
* `yields_iff`, `Yields.mono` : the description in terms of the result, and weaker ones.
-/

namespace EStateM

variable {ε σ α β : Type}

/-- Run from `s`, the computation yields a value and a state that meet `Q`, or an error and a state
that meet `E`. -/
def Yields (x : EStateM ε σ α) (s : σ) (Q : α → σ → Prop) (E : ε → σ → Prop) : Prop :=
  match x s with
  | .ok a s' => Q a s'
  | .error e s' => E e s'

/-- Go on with the value, or fail with the error. -/
def ofExcept : Except ε α → EStateM ε σ α
  | .ok a => pure a
  | .error e => throw e

/-- Fail with the error, if there is one. -/
def orElseDone : Option ε → EStateM ε σ Unit
  | none => pure ()
  | some e => throw e

/-- Go on after a failure too, with the error. -/
def attempt (x : EStateM ε σ Unit) : EStateM ε σ (Option ε) := fun s =>
  match x s with
  | .ok _ s' => .ok none s'
  | .error e s' => .ok (some e) s'

variable {x : EStateM ε σ α} {s : σ} {Q Q' : α → σ → Prop} {E E' : ε → σ → Prop}

instance decidableYields [∀ a s', Decidable (Q a s')] [∀ e s', Decidable (E e s')] :
    Decidable (x.Yields s Q E) :=
  match h : x s with
  | .ok a s' => decidable_of_iff (Q a s') (by rw [Yields, h])
  | .error e s' => decidable_of_iff (E e s') (by rw [Yields, h])

@[simp] theorem yields_pure (a : α) : (pure a : EStateM ε σ α).Yields s Q E ↔ Q a s := Iff.rfl

@[simp] theorem yields_throw (e : ε) : (throw e : EStateM ε σ α).Yields s Q E ↔ E e s := Iff.rfl

@[simp] theorem yields_get {Q : σ → σ → Prop} :
    (get : EStateM ε σ σ).Yields s Q E ↔ Q s s := Iff.rfl

@[simp] theorem yields_modify {Q : Unit → σ → Prop} (f : σ → σ) :
    (modify f : EStateM ε σ Unit).Yields s Q E ↔ Q () (f s) := Iff.rfl

@[simp] theorem yields_bind {Q : β → σ → Prop} (f : α → EStateM ε σ β) :
    (x >>= f).Yields s Q E ↔ x.Yields s (fun a s' => (f a).Yields s' Q E) E := by
  unfold Yields
  show (match EStateM.bind x f s with | .ok a s' => Q a s' | .error e s' => E e s') ↔ _
  unfold EStateM.bind
  cases x s <;> rfl

@[simp] theorem yields_ofExcept (r : Except ε α) :
    (ofExcept r).Yields s Q E ↔ (∀ a, r = .ok a → Q a s) ∧ ∀ e, r = .error e → E e s := by
  cases r with
  | ok a => simp [ofExcept]
  | error e => simp [ofExcept]

@[simp] theorem yields_orElseDone {Q : Unit → σ → Prop} (r : Option ε) :
    (orElseDone r).Yields s Q E ↔ (r = none → Q () s) ∧ ∀ e, r = some e → E e s := by
  cases r with
  | none => simp [orElseDone]
  | some e => simp [orElseDone]

@[simp] theorem yields_attempt {x : EStateM ε σ Unit} {Q : Option ε → σ → Prop} :
    x.attempt.Yields s Q E ↔ x.Yields s (fun _ s' => Q none s') fun e s' => Q (some e) s' := by
  unfold Yields attempt
  cases x s <;> rfl

theorem yields_of_ok {a : α} {s' : σ} (h : x s = .ok a s') : x.Yields s Q E ↔ Q a s' := by
  rw [Yields, h]

theorem yields_of_error {e : ε} {s' : σ} (h : x s = .error e s') : x.Yields s Q E ↔ E e s' := by
  rw [Yields, h]

theorem yields_iff : x.Yields s Q E ↔
    (∀ a s', x s = .ok a s' → Q a s') ∧ ∀ e s', x s = .error e s' → E e s' := by
  unfold Yields
  cases x s with
  | ok a s' => simp
  | error e s' => simp

theorem Yields.mono (h : x.Yields s Q E) (hQ : ∀ a s', Q a s' → Q' a s')
    (hE : ∀ e s', E e s' → E' e s') : x.Yields s Q' E' := by
  rw [yields_iff] at h ⊢
  exact ⟨fun a s' hx => hQ a s' (h.1 a s' hx), fun e s' hx => hE e s' (h.2 e s' hx)⟩

theorem yields_bind_of_last {Q : β → σ → Prop} {f : α → EStateM ε σ β}
    (hf : ∀ a t, (f a).Yields t Q fun _ _ => True) : (x >>= f).Yields s Q fun _ _ => True := by
  rw [yields_bind, yields_iff]
  exact ⟨fun a t _ => hf a t, fun _ _ _ => trivial⟩

theorem Yields.and (h : x.Yields s Q E) (h' : x.Yields s Q' E') :
    x.Yields s (fun a s' => Q a s' ∧ Q' a s') fun e s' => E e s' ∧ E' e s' := by
  rw [yields_iff] at h h' ⊢
  exact ⟨fun a s' hx => ⟨h.1 a s' hx, h'.1 a s' hx⟩, fun e s' hx => ⟨h.2 e s' hx, h'.2 e s' hx⟩⟩

/-! ### What a computation leaves alone -/

/-- The computation leaves the part `p` of the state as it is, whether or not it fails. -/
def Keeps {τ : Type} (p : σ → τ) (x : EStateM ε σ α) : Prop :=
  ∀ s, x.Yields s (fun _ s' => p s' = p s) fun _ s' => p s' = p s

section Keeps

variable {τ : Type} {p : σ → τ}

theorem Keeps.pure (a : α) : Keeps p (Pure.pure a : EStateM ε σ α) := fun _ => rfl

theorem Keeps.throw (e : ε) : Keeps p (throw e : EStateM ε σ α) := fun _ => rfl

theorem Keeps.get : Keeps p (get : EStateM ε σ σ) := fun _ => rfl

theorem Keeps.modify {f : σ → σ} (hf : ∀ s, p (f s) = p s) :
    Keeps p (modify f : EStateM ε σ Unit) := hf

theorem Keeps.ofExcept (r : Except ε α) : Keeps p (ofExcept r : EStateM ε σ α) := fun s => by
  simp

theorem Keeps.orElseDone (r : Option ε) : Keeps p (orElseDone r : EStateM ε σ Unit) := fun s => by
  simp

theorem Keeps.bind {f : α → EStateM ε σ β} (hx : Keeps p x) (hf : ∀ a, Keeps p (f a)) :
    Keeps p (x >>= f) := by
  intro s
  rw [yields_bind]
  refine (hx s).mono (fun a t ht => ?_) fun e t ht => ht
  exact (hf a t).mono (fun b u hu => hu.trans ht) fun e u hu => hu.trans ht

theorem Keeps.attempt {x : EStateM ε σ Unit} (hx : Keeps p x) : Keeps p x.attempt := fun s =>
  yields_attempt.mpr (hx s)

end Keeps

end EStateM
