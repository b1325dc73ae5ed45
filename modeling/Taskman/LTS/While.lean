import Mathlib.Logic.Relation
import Mathlib.Order.Basic

/-!
# Loops that stop

A loop whose turn either gives the next state or ends it.  It is run on a number of turns; a rank
that every turn lowers says how many are enough, and then the run is the loop's own run: it ends
where no turn is left, and giving it more turns changes nothing.

* `While.run step n s` : at most `n` turns from `s`;
* `While.Ranked step Inv rank` : every turn keeps `Inv` and lowers `rank`;
* `While.Ranked.run_stops` : **from a state of rank at most `n` the run keeps `Inv` and ends**;
* `While.Ranked.run_eq` : **two numbers of turns that are both enough give one result**.
-/

namespace Taskman

namespace While

variable {σ : Type*}

/-- At most `n` turns of a loop. -/
def run (step : σ → Option σ) : ℕ → σ → σ
  | 0, s => s
  | n + 1, s =>
    match step s with
    | none => s
    | some s' => run step n s'

variable {step : σ → Option σ} {Inv : σ → Prop} {rank : σ → ℕ}

theorem run_of_none {s : σ} (h : step s = none) (n : ℕ) : run step n s = s := by
  cases n with
  | zero => rfl
  | succ n => rw [run, h]

theorem run_of_some {s s' : σ} (h : step s = some s') (n : ℕ) :
    run step (n + 1) s = run step n s' := by
  rw [run, h]

/-- Loops whose turns correspond run alike. -/
theorem run_map {τ : Type*} {step' : τ → Option τ} (f : σ → τ)
    (h : ∀ s, step' (f s) = (step s).map f) (n : ℕ) (s : σ) :
    run step' n (f s) = f (run step n s) := by
  induction n generalizing s with
  | zero => rfl
  | succ n ih =>
    cases hstep : step s with
    | none => rw [run_of_none hstep, run_of_none (by rw [h, hstep, Option.map_none])]
    | some s' =>
      rw [run_of_some hstep, run_of_some (by rw [h, hstep, Option.map_some]), ih]

/-- A run that ends, ends where turn after turn leads to an end. -/
theorem run_eq_of_steps {s t : σ} (h : Relation.ReflTransGen (fun a b => step a = some b) s t)
    (ht : step t = none) : ∀ {n : ℕ}, step (run step n s) = none → run step n s = t := by
  induction h using Relation.ReflTransGen.head_induction_on with
  | refl =>
    intro n _
    exact run_of_none ht n
  | @head a b hab _ ih =>
    intro n hn
    cases n with
    | zero =>
      rw [run, hab] at hn
      cases hn
    | succ n =>
      rw [run_of_some hab] at hn ⊢
      exact ih hn

/-- What every turn keeps, a run keeps. -/
theorem run_induct (Inv : σ → Prop) (hkeep : ∀ s s', Inv s → step s = some s' → Inv s') :
    ∀ (n : ℕ) {s : σ}, Inv s → Inv (run step n s) := by
  intro n
  induction n with
  | zero =>
    intro s hs
    exact hs
  | succ n ih =>
    intro s hs
    cases hstep : step s with
    | none =>
      rw [run_of_none hstep]
      exact hs
    | some s' =>
      rw [run_of_some hstep]
      exact ih (hkeep s s' hs hstep)

/-- Every turn keeps the invariant and lowers the rank. -/
structure Ranked (step : σ → Option σ) (Inv : σ → Prop) (rank : σ → ℕ) : Prop where
  keeps : ∀ s s', Inv s → step s = some s' → Inv s'
  drops : ∀ s s', Inv s → step s = some s' → rank s' < rank s

/-- **From a state of rank at most `n`, `n` turns keep the invariant and reach the end.** -/
theorem Ranked.run_stops (h : Ranked step Inv rank) :
    ∀ {n : ℕ} {s : σ}, Inv s → rank s ≤ n →
      Inv (run step n s) ∧ step (run step n s) = none := by
  intro n
  induction n with
  | zero =>
    intro s hs hn
    refine ⟨hs, ?_⟩
    cases hstep : step s with
    | none => rw [run_of_none hstep, hstep]
    | some s' =>
      have hlt := h.drops s s' hs hstep
      omega
  | succ n ih =>
    intro s hs hn
    cases hstep : step s with
    | none =>
      rw [run_of_none hstep]
      exact ⟨hs, hstep⟩
    | some s' =>
      rw [run_of_some hstep]
      have hlt := h.drops s s' hs hstep
      exact ih (h.keeps s s' hs hstep) (by omega)

/-- **Two numbers of turns that are both enough give one result.** -/
theorem Ranked.run_eq (h : Ranked step Inv rank) :
    ∀ {m n : ℕ} {s : σ}, Inv s → rank s ≤ m → rank s ≤ n → run step m s = run step n s := by
  intro m
  induction m with
  | zero =>
    intro n s hs hm hn
    have hstop : step s = none := (h.run_stops (n := 0) hs hm).2
    rw [run_of_none hstop, run_of_none hstop]
  | succ m ih =>
    intro n s hs hm hn
    cases hstep : step s with
    | none => rw [run_of_none hstep, run_of_none hstep]
    | some s' =>
      have hlt := h.drops s s' hs hstep
      obtain ⟨n, rfl⟩ : ∃ k, n = k + 1 := ⟨n - 1, by omega⟩
      rw [run_of_some hstep, run_of_some hstep]
      exact ih (h.keeps s s' hs hstep) (by omega) (by omega)

end While

end Taskman
