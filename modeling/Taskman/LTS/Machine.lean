import Mathlib.Data.Option.Basic
import Mathlib.Data.List.Basic

/-!
# Machines that take one action after another

A machine is a partial step function: `step s a` is the state after action `a`, or `none` where
`a` cannot happen in `s`.

* `Machine.exec` : the state after a list of actions;
* `Machine.Along` : a condition on states and actions holds at every step of a run;
* `Machine.invariant` : **what every step preserves holds after every run**, also where the steps
  are only known to preserve it under such a condition;
* `Machine.Along.of_invariant`, `Machine.along_of_invariant`, `Machine.along_iff_of_invariant` :
  what an invariant says about each step of a run;
* `Machine.Throughout`, `Machine.throughout_iff_along` : a condition on states holds in all states
  of a run, and the condition on its steps this comes to;
* `Machine.Reachable` : the states some run leads to.
-/

namespace Machine

variable {σ α : Type*} (step : σ → α → Option σ)

/-- The state after a list of actions, if each of them can happen in turn. -/
def exec : σ → List α → Option σ
  | s, [] => some s
  | s, a :: as => (step s a).bind fun s' => exec s' as

/-- The condition `C` holds at every step of the run. -/
def Along (C : σ → α → Prop) : σ → List α → Prop
  | _, [] => True
  | s, a :: as => C s a ∧ ∀ s' ∈ step s a, Along C s' as

/-- `K` holds in every state the run goes through. -/
def Throughout (K : σ → Prop) (s : σ) (as : List α) : Prop :=
  ∀ pre s', pre <+: as → exec step s pre = some s' → K s'

/-- Some run from a state satisfying `init` leads to `s`. -/
def Reachable (init : σ → Prop) (s : σ) : Prop :=
  ∃ s₀ as, init s₀ ∧ exec step s₀ as = some s

variable {step}

instance decidableAlong {C : σ → α → Prop} [∀ s a, Decidable (C s a)] :
    ∀ (s : σ) (as : List α), Decidable (Along step C s as)
  | _, [] => inferInstanceAs (Decidable True)
  | s, a :: as =>
    haveI := fun s' => decidableAlong (C := C) s' as
    inferInstanceAs (Decidable (C s a ∧ ∀ s' ∈ step s a, Along step C s' as))

@[simp] theorem exec_nil (s : σ) : exec step s [] = some s := rfl

theorem exec_cons (s : σ) (a : α) (as : List α) :
    exec step s (a :: as) = (step s a).bind fun s' => exec step s' as := rfl

theorem exec_append (s : σ) (as bs : List α) :
    exec step s (as ++ bs) = (exec step s as).bind fun s' => exec step s' bs := by
  induction as generalizing s with
  | nil => rfl
  | cons a as ih =>
    rw [List.cons_append, exec_cons, exec_cons, Option.bind_assoc]
    congr 1
    funext s'
    exact ih s'

theorem exec_cons_eq_some {s s' : σ} {a : α} {as : List α} :
    exec step s (a :: as) = some s' ↔ ∃ t, step s a = some t ∧ exec step t as = some s' := by
  rw [exec_cons, Option.bind_eq_some_iff]

/-- **What every step preserves holds after every run** whose steps all meet the condition. -/
theorem invariant_of_along {C : σ → α → Prop} {I : σ → Prop}
    (hstep : ∀ s a s', I s → C s a → step s a = some s' → I s') {s s' : σ} {as : List α}
    (hI : I s) (hC : Along step C s as) (hrun : exec step s as = some s') : I s' := by
  induction as generalizing s with
  | nil =>
    cases hrun
    exact hI
  | cons a as ih =>
    obtain ⟨t, ht, hrest⟩ := exec_cons_eq_some.mp hrun
    exact ih (hstep s a t hI hC.1 ht) (hC.2 t ht) hrest

/-- A condition holds along a run exactly when it holds along its beginning and its rest. -/
theorem along_append {C : σ → α → Prop} {s : σ} {as bs : List α} :
    Along step C s (as ++ bs) ↔
      Along step C s as ∧ ∀ s', exec step s as = some s' → Along step C s' bs := by
  induction as generalizing s with
  | nil => simp [Along]
  | cons a as ih =>
    simp only [List.cons_append, Along, ih, exec_cons_eq_some, Option.mem_def]
    constructor
    · rintro ⟨ha, hrest⟩
      refine ⟨⟨ha, fun t ht => (hrest t ht).1⟩, ?_⟩
      rintro s' ⟨t, ht, hrun⟩
      exact (hrest t ht).2 s' hrun
    · rintro ⟨⟨ha, hrest⟩, htail⟩
      exact ⟨ha, fun t ht => ⟨hrest t ht, fun s' hrun => htail s' ⟨t, ht, hrun⟩⟩⟩

theorem Along.and {C D : σ → α → Prop} {s : σ} {as : List α} (hC : Along step C s as)
    (hD : Along step D s as) : Along step (fun s a => C s a ∧ D s a) s as := by
  induction as generalizing s with
  | nil => trivial
  | cons a as ih => exact ⟨⟨hC.1, hD.1⟩, fun s' hs' => ih (hC.2 s' hs') (hD.2 s' hs')⟩

theorem along_of_forall {C : σ → α → Prop} (h : ∀ s a, C s a) (s : σ) (as : List α) :
    Along step C s as := by
  induction as generalizing s with
  | nil => trivial
  | cons a as ih => exact ⟨h s a, fun s' _ => ih s'⟩

/-- **What an invariant of such a run gives at every step holds along the run.** -/
theorem Along.of_invariant {C P : σ → α → Prop} {I : σ → Prop}
    (hstep : ∀ s a s', I s → C s a → step s a = some s' → I s')
    (hprop : ∀ s a, I s → C s a → P s a) {s : σ} {as : List α} (hI : I s)
    (hC : Along step C s as) : Along step P s as := by
  induction as generalizing s with
  | nil => trivial
  | cons a as ih =>
    exact ⟨hprop s a hI hC.1, fun t ht => ih (hstep s a t hI hC.1 ht) (hC.2 t ht)⟩

theorem invariant {I : σ → Prop} (hstep : ∀ s a s', I s → step s a = some s' → I s') {s s' : σ}
    {as : List α} (hI : I s) (hrun : exec step s as = some s') : I s' :=
  invariant_of_along (C := fun _ _ => True) (fun s a s' h _ => hstep s a s' h) hI
    (along_of_forall (fun _ _ => trivial) s as) hrun

/-- **What the invariant gives at every step holds along every run** of actions that are `A`. -/
theorem along_of_invariant {A : α → Prop} {I : σ → Prop} {P : σ → α → Prop}
    (hstep : ∀ s a s', I s → A a → step s a = some s' → I s') (hprop : ∀ s a, I s → A a → P s a)
    {s : σ} (hI : I s) {as : List α} (hA : ∀ a ∈ as, A a) : Along step P s as := by
  induction as generalizing s with
  | nil => trivial
  | cons a as ih =>
    have ha : A a := hA a List.mem_cons_self
    refine ⟨hprop s a hI ha, fun s' hs' => ?_⟩
    exact ih (hstep s a s' hI ha hs') fun b hb => hA b (List.mem_cons_of_mem _ hb)

/-- Conditions that are equivalent under an invariant hold along the same runs. -/
theorem along_iff_of_invariant {A : α → Prop} {I : σ → Prop} {P Q : σ → α → Prop}
    (hstep : ∀ s a s', I s → A a → step s a = some s' → I s')
    (hiff : ∀ s a, I s → A a → (P s a ↔ Q s a)) {s : σ} (hI : I s) {as : List α}
    (hA : ∀ a ∈ as, A a) : Along step P s as ↔ Along step Q s as := by
  induction as generalizing s with
  | nil => exact Iff.rfl
  | cons a as ih =>
    have ha : A a := hA a List.mem_cons_self
    refine and_congr (hiff s a hI ha) (forall₂_congr fun s' hs' => ?_)
    exact ih (hstep s a s' hI ha hs') fun b hb => hA b (List.mem_cons_of_mem _ hb)

/-- Conditions that are equivalent wherever `C` holds hold along the same runs that keep to `C`. -/
theorem along_iff_of_along {A : α → Prop} {C P Q : σ → α → Prop}
    (hiff : ∀ s a, A a → C s a → (P s a ↔ Q s a)) {s : σ} {as : List α} (hA : ∀ a ∈ as, A a)
    (hC : Along step C s as) : Along step P s as ↔ Along step Q s as := by
  induction as generalizing s with
  | nil => exact Iff.rfl
  | cons a as ih =>
    have ha : A a := hA a List.mem_cons_self
    refine and_congr (hiff s a ha hC.1) (forall₂_congr fun s' hs' => ?_)
    exact ih (fun b hb => hA b (List.mem_cons_of_mem _ hb)) (hC.2 s' hs')

/-- What holds throughout a run holds throughout what follows its beginning. -/
theorem Throughout.after {K : σ → Prop} {s s' : σ} {pre post as : List α}
    (h : Throughout step K s as) (hpre : pre ++ post <+: as)
    (hrun : exec step s pre = some s') : Throughout step K s' post := by
  intro more t hmore ht
  refine h (pre ++ more) t (List.IsPrefix.trans ?_ hpre) ?_
  · exact (List.prefix_append_right_inj pre).mpr hmore
  · rw [exec_append, hrun]
    exact ht

/-- **Where a step keeps `K` exactly if it meets `Q`, a run keeps to `K` exactly if all its steps
meet `Q`.** -/
theorem throughout_iff_along {I K : σ → Prop} {Q : σ → α → Prop}
    (hstep : ∀ s a s', I s → step s a = some s' → I s')
    (hiff : ∀ s a s', I s → K s → step s a = some s' → (K s' ↔ Q s a)) {s s' : σ} {as : List α}
    (hI : I s) (hK : K s) (hrun : exec step s as = some s') :
    Throughout step K s as ↔ Along step Q s as := by
  induction as generalizing s with
  | nil =>
    refine iff_of_true (fun pre t hpre ht => ?_) trivial
    obtain rfl := List.prefix_nil.mp hpre
    exact Option.some.inj ht ▸ hK
  | cons a as ih =>
    obtain ⟨t, ht, hrest⟩ := exec_cons_eq_some.mp hrun
    have hnext := fun hKt => ih (hstep s a t hI ht) hKt hrest
    constructor
    · intro hall
      have hKt : K t := hall [a] t (List.prefix_append [a] as) (by simp [exec_cons, ht])
      refine ⟨(hiff s a t hI hK ht).mp hKt, fun u hu => ?_⟩
      obtain rfl := Option.some.inj (ht.symm.trans hu)
      exact (hnext hKt).mp fun pre u hpre hu =>
        hall (a :: pre) u (List.cons_prefix_cons.mpr ⟨rfl, hpre⟩)
          (exec_cons_eq_some.mpr ⟨t, ht, hu⟩)
    · rintro ⟨hQ, hafter⟩ pre u hpre hu
      have hKt : K t := (hiff s a t hI hK ht).mpr hQ
      cases pre with
      | nil => exact Option.some.inj hu ▸ hK
      | cons b pre =>
        obtain ⟨rfl, hpre'⟩ := List.cons_prefix_cons.mp hpre
        obtain ⟨v, hv, hu⟩ := exec_cons_eq_some.mp hu
        obtain rfl := Option.some.inj (ht.symm.trans hv)
        exact (hnext hKt).mpr (hafter t ht) pre u hpre' hu

theorem Reachable.invariant {init : σ → Prop} {I : σ → Prop} (hinit : ∀ s, init s → I s)
    (hstep : ∀ s a s', I s → step s a = some s' → I s') {s : σ} (h : Reachable step init s) :
    I s := by
  obtain ⟨s₀, as, h₀, hrun⟩ := h
  exact Machine.invariant hstep (hinit s₀ h₀) hrun

theorem Reachable.tail {init : σ → Prop} {s s' : σ} {a : α} (h : Reachable step init s)
    (ha : step s a = some s') : Reachable step init s' := by
  obtain ⟨s₀, as, h₀, hrun⟩ := h
  refine ⟨s₀, as ++ [a], h₀, ?_⟩
  simp [exec_append, hrun, exec_cons, ha]

end Machine
