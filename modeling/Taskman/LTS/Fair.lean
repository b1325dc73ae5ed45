import Taskman.LTS.Machine

/-!
# Endless runs under fair scheduling

The actions of a machine belong to threads, or to nobody: those are what the surroundings may or may
not do.  A thread that can act must act sometime, unless another step takes the chance away.

* `Machine.Run` : an endless run, in which nothing may happen at times;
* `Machine.Run.Fair` : a thread is not forgotten (weak fairness);
* `Machine.Progress` : a rank that no step raises, and at every state a thread whose steps lower it;
* `Machine.Run.eventually` : **a run that is fair to all threads reaches its goal**;
* `Machine.Run.ofExec` : a finite run, after which nothing happens.
-/

namespace Machine

variable {σ α θ : Type*} {step : σ → α → Option σ}

/-- An endless run; at a moment with no action nothing happens. -/
structure Run (step : σ → α → Option σ) where
  state : ℕ → σ
  action : ℕ → Option α
  next : ∀ n, match action n with
    | none => state (n + 1) = state n
    | some a => step (state n) a = some (state (n + 1))

/-- The thread has an action that can happen in `s`. -/
def Enabled (step : σ → α → Option σ) (thread : α → Option θ) (t : θ) (s : σ) : Prop :=
  ∃ a, thread a = some t ∧ (step s a).isSome

namespace Run

/-- **Weak fairness**: from any moment on the thread acts sometime or cannot act sometime. -/
def Fair (r : Run step) (thread : α → Option θ) (t : θ) : Prop :=
  ∀ n, ∃ m, n ≤ m ∧
    ((∃ a, r.action m = some a ∧ thread a = some t) ∨ ¬ Enabled step thread t (r.state m))

/-- Every action of the run meets the condition in the state it is taken in. -/
def Always (r : Run step) (C : σ → α → Prop) : Prop :=
  ∀ n a, r.action n = some a → C (r.state n) a

variable (r : Run step)

theorem step_of_action {n : ℕ} {a : α} (h : r.action n = some a) :
    step (r.state n) a = some (r.state (n + 1)) := by
  have hnext := r.next n
  rwa [h] at hnext

theorem state_succ_of_none {n : ℕ} (h : r.action n = none) : r.state (n + 1) = r.state n := by
  have hnext := r.next n
  rwa [h] at hnext

/-- What every step preserves holds at every moment from then on. -/
theorem invariant {C : σ → α → Prop} {I : σ → Prop}
    (hstep : ∀ s a s', I s → C s a → step s a = some s' → I s') (hC : r.Always C) {n m : ℕ}
    (hnm : n ≤ m) (hI : I (r.state n)) : I (r.state m) := by
  induction hnm with
  | refl => exact hI
  | @step m _ ih =>
    cases ha : r.action m with
    | none =>
      rw [Nat.succ_eq_add_one, r.state_succ_of_none ha]
      exact ih
    | some a => exact hstep _ a _ ih (hC m a ha) (r.step_of_action ha)

end Run

/-- From states with `I` on the way to `goal`: no step raises the rank, and at each of them the
helper can act, its steps lower the rank, and while the rank stays the helper does. -/
structure Progress (step : σ → α → Option σ) (thread : α → Option θ) (C : σ → α → Prop)
    (I goal : σ → Prop) (rank : σ → ℕ) (helper : σ → θ) : Prop where
  enabled : ∀ s, I s → ¬ goal s → Enabled step thread (helper s) s
  step : ∀ s a s', I s → ¬ goal s → C s a → step s a = some s' →
    goal s' ∨ I s' ∧ (rank s' < rank s ∨
      rank s' = rank s ∧ helper s' = helper s ∧ thread a ≠ some (helper s))

namespace Run

variable {r : Run step} {thread : α → Option θ} {C : σ → α → Prop} {I goal : σ → Prop}
  {rank : σ → ℕ} {helper : σ → θ}

/-- Up to any later moment the goal is reached, the rank has dropped, or all is as it was. -/
theorem advance (hp : Progress step thread C I goal rank helper) (hC : r.Always C) {n m : ℕ}
    (hnm : n ≤ m) (hI : I (r.state n)) :
    (∃ k, n ≤ k ∧ goal (r.state k)) ∨
      (∃ k, n ≤ k ∧ I (r.state k) ∧ rank (r.state k) < rank (r.state n)) ∨
      I (r.state m) ∧ rank (r.state m) = rank (r.state n) ∧
        helper (r.state m) = helper (r.state n) := by
  induction hnm with
  | refl => exact .inr (.inr ⟨hI, rfl, rfl⟩)
  | @step m hnm ih =>
    rcases ih with hgoal | hless | ⟨hm, hrank, hhelper⟩
    · exact .inl hgoal
    · exact .inr (.inl hless)
    · cases ha : r.action m with
      | none =>
        rw [Nat.succ_eq_add_one, r.state_succ_of_none ha]
        exact .inr (.inr ⟨hm, hrank, hhelper⟩)
      | some a =>
        by_cases hg : goal (r.state m)
        · exact .inl ⟨m, hnm, hg⟩
        · have hnext := hp.step _ a _ hm hg (hC m a ha) (r.step_of_action ha)
          rcases hnext with hg' | ⟨hI', hlt | ⟨heq, hsame, -⟩⟩
          · exact .inl ⟨m + 1, Nat.le_succ_of_le hnm, hg'⟩
          · exact .inr (.inl ⟨m + 1, Nat.le_succ_of_le hnm, hI', hrank ▸ hlt⟩)
          · exact .inr (.inr ⟨hI', heq.trans hrank, hsame.trans hhelper⟩)

/-- **A fair run reaches its goal.**  The induction is on the rank: as long as it stays, one thread
is the helper and can act, so it does. -/
theorem eventually (hp : Progress step thread C I goal rank helper) (hC : r.Always C)
    (hfair : ∀ t, r.Fair thread t) {n : ℕ} (hI : I (r.state n)) :
    ∃ m, n ≤ m ∧ goal (r.state m) := by
  induction hk : rank (r.state n) using Nat.strongRecOn generalizing n with
  | _ k ih =>
    have hsmaller : ∀ m, n ≤ m → I (r.state m) → rank (r.state m) < rank (r.state n) →
        ∃ m, n ≤ m ∧ goal (r.state m) := by
      intro m hnm hm hlt
      obtain ⟨j, hmj, hj⟩ := ih (rank (r.state m)) (hk ▸ hlt) hm rfl
      exact ⟨j, Nat.le_trans hnm hmj, hj⟩
    obtain ⟨m, hnm, hm⟩ := hfair (helper (r.state n)) n
    rcases advance hp hC hnm hI with hgoal | ⟨j, hnj, hj, hlt⟩ | ⟨hIm, hrank, hhelper⟩
    · exact hgoal
    · exact hsmaller j hnj hj hlt
    · by_cases hg : goal (r.state m)
      · exact ⟨m, hnm, hg⟩
      · rcases hm with ⟨a, ha, hthread⟩ | hdisabled
        · have hnext := hp.step _ a _ hIm hg (hC m a ha) (r.step_of_action ha)
          rcases hnext with hg' | ⟨hI', hlt | ⟨-, -, hother⟩⟩
          · exact ⟨m + 1, Nat.le_succ_of_le hnm, hg'⟩
          · exact hsmaller (m + 1) (Nat.le_succ_of_le hnm) hI' (hrank ▸ hlt)
          · exact absurd (hhelper ▸ hthread) hother
        · exact absurd (hhelper ▸ hp.enabled _ hIm hg) hdisabled

/-! ### Finite runs -/

/-- The state after the first `n` actions. -/
def stateAt (step : σ → α → Option σ) (s : σ) (as : List α) (n : ℕ) : σ :=
  (exec step s (as.take n)).getD s

/-- A finite run, after which nothing happens. -/
def ofExec (s : σ) (as : List α) (h : (exec step s as).isSome) : Run step where
  state := stateAt step s as
  action n := as[n]?
  next n := by
    obtain ⟨s', hs'⟩ := Option.isSome_iff_exists.mp h
    cases hn : as[n]? with
    | none =>
      have hlen : as.length ≤ n := List.getElem?_eq_none_iff.mp hn
      show stateAt step s as (n + 1) = stateAt step s as n
      rw [stateAt, stateAt, List.take_of_length_le hlen,
        List.take_of_length_le (Nat.le_succ_of_le hlen)]
    | some a =>
      -- the run up to `n`, its next step, and the rest
      have hsplit : as = as.take n ++ a :: as.drop (n + 1) := by
        obtain ⟨hlt, rfl⟩ := List.getElem?_eq_some_iff.mp hn
        rw [List.getElem_cons_drop, List.take_append_drop]
      rw [hsplit, exec_append] at hs'
      obtain ⟨t, ht, hrest⟩ := Option.bind_eq_some_iff.mp hs'
      obtain ⟨u, hu, -⟩ := exec_cons_eq_some.mp hrest
      have htake : as.take (n + 1) = as.take n ++ [a] := by
        rw [List.take_add_one, hn, Option.toList_some]
      show step (stateAt step s as n) a = some (stateAt step s as (n + 1))
      rw [stateAt, stateAt, htake, exec_append, ht, Option.getD_some, hu]
      simp [exec_cons, hu]

/-- A thread that cannot act at the end of a finite run is not forgotten in it. -/
theorem fair_ofExec {s s' : σ} {as : List α} (h : exec step s as = some s') {t : θ}
    (ht : ¬ Enabled step thread t s') :
    (ofExec s as (Option.isSome_of_eq_some h)).Fair thread t := by
  intro n
  refine ⟨max n as.length, Nat.le_max_left _ _, .inr ?_⟩
  show ¬ Enabled step thread t (stateAt step s as (max n as.length))
  rw [stateAt, List.take_of_length_le (Nat.le_max_right _ _), h]
  exact ht

end Run

end Machine
