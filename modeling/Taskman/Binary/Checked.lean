import Taskman.Binary.Bytes

/-!
# Checked computations

A computation of a language with run-time checks ends with a value, with an error of its own, or
with a panic of the run-time.

* `Checked` : such a computation;
* `Checked.Total` : it does not panic, with **one rule for each way to put computations together**;
* `Checked.slice`, `Checked.add`, `Checked.sub`, `Checked.mul` : the checked operations on byte
  strings and on unsigned numbers of a given bound;
* `Checked.int` : the check of a result of an operation on signed numbers.
-/

/-- What the run-time checks. -/
inductive Panic where
  | slice
  | overflow
  | expect
  deriving DecidableEq, Repr

/-- How a checked computation fails. -/
inductive Failure (ε : Type*) where
  | panic (what : Panic)
  | error (e : ε)
  deriving DecidableEq

/-- A computation that can fail or panic. -/
abbrev Checked (ε α : Type*) := Except (Failure ε) α

namespace Checked

universe u

variable {ε : Type*} {α β : Type u}

/-- Go on if a condition holds. -/
def ensure (c : Prop) [Decidable c] (e : ε) : Checked ε Unit :=
  if c then .ok () else .error (.error e)

/-- An error of the program's own, or its value. -/
def ofExcept : Except ε α → Checked ε α
  | .ok a => .ok a
  | .error e => .error (.error e)

/-- `&bs[start..stop]`. -/
def slice (bs : Bytes) (start stop : ℕ) : Checked ε Bytes :=
  match bs.slice? start stop with
  | some out => .ok out
  | none => .error (.panic .slice)

/-- `bs.try_into().expect(..)` for an array of `n` bytes. -/
def array (n : ℕ) (bs : Bytes) : Checked ε Bytes :=
  if bs.length = n then .ok bs else .error (.panic .expect)

/-- Addition of unsigned numbers below `bound`. -/
def add (bound a b : ℕ) : Checked ε ℕ :=
  if a + b < bound then .ok (a + b) else .error (.panic .overflow)

/-- Subtraction of unsigned numbers. -/
def sub (a b : ℕ) : Checked ε ℕ :=
  if b ≤ a then .ok (a - b) else .error (.panic .overflow)

/-- Multiplication of unsigned numbers below `bound`. -/
def mul (bound a b : ℕ) : Checked ε ℕ :=
  if a * b < bound then .ok (a * b) else .error (.panic .overflow)

/-- A result that has to be a signed number of `bits` bits. -/
def int (bits : ℕ) (n : ℤ) : Checked ε ℤ :=
  if -2 ^ (bits - 1) ≤ n ∧ n < 2 ^ (bits - 1) then .ok n else .error (.panic .overflow)

theorem bind_eq_ok {δ : Type*} {x : Except δ α} {f : α → Except δ β} {b : β} :
    (x >>= f) = .ok b ↔ ∃ a, x = .ok a ∧ f a = .ok b := by
  cases x with
  | error e =>
    constructor
    · exact nofun
    · rintro ⟨a, ha, _⟩
      cases ha
  | ok a =>
    constructor
    · exact fun h => ⟨a, rfl, h⟩
    · rintro ⟨a', ha, h⟩
      cases ha
      exact h

theorem bind_ok {δ : Type*} (a : α) (f : α → Except δ β) : (Except.ok a >>= f) = f a := rfl

theorem ensure_eq_ok {c : Prop} [Decidable c] {e : ε} {u : Unit} :
    ensure c e = .ok u ↔ c := by
  unfold ensure
  split_ifs with h
  · exact iff_of_true rfl h
  · exact iff_of_false nofun h

theorem ofExcept_eq_ok {x : Except ε α} {a : α} : ofExcept x = .ok a ↔ x = .ok a := by
  cases x with
  | error e => exact iff_of_false nofun nofun
  | ok b => exact ⟨fun h => by cases h; rfl, fun h => by cases h; rfl⟩

theorem slice_eq_ok {bs out : Bytes} {start stop : ℕ} :
    (slice bs start stop : Checked ε Bytes) = .ok out ↔ bs.slice? start stop = some out := by
  unfold slice
  cases bs.slice? start stop with
  | none => exact iff_of_false nofun nofun
  | some b => exact ⟨fun h => by cases h; rfl, fun h => by cases h; rfl⟩

theorem array_eq_ok {n : ℕ} {bs out : Bytes} :
    (array n bs : Checked ε Bytes) = .ok out ↔ bs.length = n ∧ out = bs := by
  unfold array
  split_ifs with h
  · exact ⟨fun he => by cases he; exact ⟨h, rfl⟩, fun he => by rw [he.2]⟩
  · exact iff_of_false nofun fun he => h he.1

theorem add_eq_ok {bound a b n : ℕ} :
    (add bound a b : Checked ε ℕ) = .ok n ↔ a + b < bound ∧ n = a + b := by
  unfold add
  split_ifs with h
  · exact ⟨fun he => by cases he; exact ⟨h, rfl⟩, fun he => by rw [he.2]⟩
  · exact iff_of_false nofun fun he => h he.1

theorem sub_eq_ok {a b n : ℕ} : (sub a b : Checked ε ℕ) = .ok n ↔ b ≤ a ∧ n = a - b := by
  unfold sub
  split_ifs with h
  · exact ⟨fun he => by cases he; exact ⟨h, rfl⟩, fun he => by rw [he.2]⟩
  · exact iff_of_false nofun fun he => h he.1

theorem mul_eq_ok {bound a b n : ℕ} :
    (mul bound a b : Checked ε ℕ) = .ok n ↔ a * b < bound ∧ n = a * b := by
  unfold mul
  split_ifs with h
  · exact ⟨fun he => by cases he; exact ⟨h, rfl⟩, fun he => by rw [he.2]⟩
  · exact iff_of_false nofun fun he => h he.1

theorem int_ok {bits : ℕ} {n : ℤ} (hlo : -2 ^ (bits - 1) ≤ n) (hhi : n < 2 ^ (bits - 1)) :
    (int bits n : Checked ε ℤ) = .ok n := if_pos ⟨hlo, hhi⟩

/-- A computation on every element of a list. -/
theorem mapM_eq_ok_iff {f : α → Checked ε β} {l : List α} {bs : List β} :
    l.mapM f = .ok bs ↔ List.Forall₂ (fun a b => f a = .ok b) l bs := by
  induction l generalizing bs with
  | nil =>
    rw [List.mapM_nil, List.forall₂_nil_left_iff]
    constructor
    · intro h
      cases h
      rfl
    · rintro rfl
      rfl
  | cons a l ih =>
    simp only [List.mapM_cons, bind_eq_ok, ih, List.forall₂_cons_left_iff]
    constructor
    · rintro ⟨b, hb, bs', hbs', h⟩
      cases h
      exact ⟨b, bs', hb, hbs', rfl⟩
    · rintro ⟨b, bs', hb, hbs', rfl⟩
      exact ⟨b, hb, bs', hbs', rfl⟩

theorem mapM_eq_ok_of {f : α → Checked ε β} {g : α → β} {l : List α}
    (h : ∀ a ∈ l, f a = .ok (g a)) : l.mapM f = .ok (l.map g) := by
  rw [mapM_eq_ok_iff, List.forall₂_map_right_iff]
  exact List.forall₂_same.mpr h

/-! ### Computations that do not panic -/

/-- The computation does not panic. -/
def Total (x : Checked ε α) : Prop := ∀ what, x ≠ .error (.panic what)

theorem total_ok (a : α) : Total (.ok a : Checked ε α) := fun _ => nofun

theorem total_error (e : ε) : Total (.error (.error e) : Checked ε α) := fun _ => nofun

theorem total_ensure (c : Prop) [Decidable c] (e : ε) : Total (ensure c e) := by
  unfold ensure
  split_ifs
  · exact total_ok ()
  · exact total_error e

theorem total_ofExcept (x : Except ε α) : Total (ofExcept x) := by
  cases x with
  | error e => exact total_error e
  | ok a => exact total_ok a

theorem total_slice {bs : Bytes} {start stop : ℕ} (h : start ≤ stop) (h' : stop ≤ bs.length) :
    Total (slice bs start stop : Checked ε Bytes) := by
  unfold slice
  rw [Bytes.slice?, if_pos ⟨h, h'⟩]
  exact total_ok _

theorem total_array {n : ℕ} {bs : Bytes} (h : bs.length = n) :
    Total (array n bs : Checked ε Bytes) := by
  rw [array, if_pos h]
  exact total_ok _

theorem total_add {bound a b : ℕ} (h : a + b < bound) : Total (add bound a b : Checked ε ℕ) := by
  rw [add, if_pos h]
  exact total_ok _

theorem total_sub {a b : ℕ} (h : b ≤ a) : Total (sub a b : Checked ε ℕ) := by
  rw [sub, if_pos h]
  exact total_ok _

/-- **Computations in sequence**: the second need only be total on the values of the first. -/
theorem Total.bind {x : Checked ε α} {f : α → Checked ε β} (hx : Total x)
    (hf : ∀ a, x = .ok a → Total (f a)) : Total (x >>= f) := by
  cases x with
  | error e => exact fun what h => hx what (by cases h; rfl)
  | ok a => exact hf a rfl

theorem total_mapM {f : α → Checked ε β} {l : List α} (h : ∀ a ∈ l, Total (f a)) :
    Total (l.mapM f) := by
  induction l with
  | nil => exact total_ok []
  | cons a l ih =>
    rw [List.mapM_cons]
    refine (h a List.mem_cons_self).bind fun b _ => ?_
    refine (ih fun c hc => h c (List.mem_cons_of_mem a hc)).bind fun bs _ => ?_
    exact total_ok (b :: bs)

end Checked
