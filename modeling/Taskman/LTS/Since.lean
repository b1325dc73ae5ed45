import Mathlib.Data.List.Basic

/-!
# Since

The past-time operator over the events of a history: something has been kept since it started.

* `Since keeps starts l` : some event of `l` starts it, and every later one keeps it;
* `since_concat` : **what one more event does to it**, the rule a monitor's invariant is proved
  with;
* `Since.mono` : what follows where less is asked for.
-/

variable {α : Type*} {keeps starts : α → Prop} {l : List α}

/-- Some event starts it, and every event after that keeps it. -/
def Since (keeps starts : α → Prop) (l : List α) : Prop :=
  ∃ pre a post, l = pre ++ a :: post ∧ starts a ∧ ∀ b ∈ post, keeps b

theorem not_since_nil : ¬ Since keeps starts ([] : List α) := by
  rintro ⟨pre, a, post, h, -⟩
  exact absurd h.symm (List.append_ne_nil_of_right_ne_nil _ (List.cons_ne_nil _ _))

/-- **One more event keeps it or starts it anew.** -/
theorem since_concat {a : α} :
    Since keeps starts (l ++ [a]) ↔ Since keeps starts l ∧ keeps a ∨ starts a := by
  constructor
  · rintro ⟨pre, b, post, h, hb, hpost⟩
    rcases List.eq_nil_or_concat' post with rfl | ⟨post, c, rfl⟩
    · obtain ⟨rfl, heq⟩ := List.append_inj' h rfl
      obtain rfl := List.singleton_inj.mp heq
      exact Or.inr hb
    · rw [← List.cons_append, ← List.append_assoc] at h
      obtain ⟨rfl, heq⟩ := List.append_inj' h rfl
      obtain rfl := List.singleton_inj.mp heq
      refine Or.inl ⟨⟨pre, b, post, rfl, hb, fun x hx => ?_⟩, ?_⟩
      · exact hpost x (List.mem_append_left _ hx)
      · exact hpost a (List.mem_append_right _ (List.mem_singleton_self a))
  · rintro (⟨⟨pre, b, post, rfl, hb, hpost⟩, ha⟩ | ha)
    · refine ⟨pre, b, post ++ [a], by simp, hb, fun x hx => ?_⟩
      rcases List.mem_append.mp hx with hx | hx
      · exact hpost x hx
      · rwa [List.mem_singleton.mp hx]
    · exact ⟨l, a, [], rfl, ha, by simp⟩

theorem Since.mono {keeps' starts' : α → Prop} (hkeeps : ∀ a ∈ l, keeps a → keeps' a)
    (hstarts : ∀ a ∈ l, starts a → starts' a) (h : Since keeps starts l) :
    Since keeps' starts' l := by
  obtain ⟨pre, a, post, rfl, ha, hpost⟩ := h
  refine ⟨pre, a, post, rfl, hstarts a (by simp) ha, fun b hb => ?_⟩
  exact hkeeps b (by simp [hb]) (hpost b hb)
