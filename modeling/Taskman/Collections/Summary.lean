import Taskman.Collections.Forest
import Taskman.Collections.Worklist
import Mathlib.Data.Finset.Card
import Mathlib.Order.Bounds.Basic

/-!
# Sums over what is linked below

Every key has a value of its own, and further keys linked under it.  A walk from a key enters the
keys below it, and combines the values of a key's kids with its own once the kids are done; a key
that is entered while it is in progress is left alone.  Walks start, one after another, from the
keys of a list that no earlier walk has finished.

Where nobody is linked under two keys, only the start of a walk is ever met in progress.

* `Summary.visit` : one turn of a walk;
* `Summary.enter_steps` : **what entering a key finishes**, whatever else is on the stack;
* `Summary.walk_steps` : **a walk finishes its start, with the sum over all that is below it**, and
  keeps what was finished before;
* `Summary.rollup_spec` : **a key that nothing earlier in the list is above ends with the sum over
  all that is below it**, cycles included.
-/

namespace Taskman

/-- Keys with a value each, and the keys linked under them. -/
structure Summary (κ β : Type*) where
  keys : Finset κ
  own : κ → β
  kids : κ → List κ

namespace Summary

variable {κ β : Type*}

/-! ### Walks -/

/-- A key to enter, or one whose kids were entered. -/
inductive Frame (κ β : Type*) where
  | enter (k : κ)
  | combine (k : κ) (kids : List κ) (own : β)

/-- The values found so far, and how far each element has come. -/
structure State (κ β : Type*) where
  values : κ → β
  done : Finset κ := ∅
  inProgress : Finset κ := ∅

/-- Nothing is lost, and the same is in progress. -/
structure Grown (s s' : State κ β) : Prop where
  inProgress : s'.inProgress = s.inProgress
  done : s.done ⊆ s'.done

theorem Grown.refl (s : State κ β) : Grown s s := ⟨rfl, Finset.Subset.refl _⟩

theorem Grown.trans {s s' s'' : State κ β} (h : Grown s s') (h' : Grown s' s'') : Grown s s'' :=
  ⟨h'.inProgress.trans h.inProgress, h.done.trans h'.done⟩

section

variable [DecidableEq κ]

/-- A key is finished with a value. -/
def finish (s : State κ β) (k : κ) (v : β) : State κ β where
  values := Function.update s.values k v
  done := insert k s.done
  inProgress := s.inProgress.erase k

@[simp]
theorem finish_values_self (s : State κ β) (k : κ) (v : β) : (finish s k v).values k = v :=
  Function.update_self _ _ _

theorem finish_values_of_ne (s : State κ β) {k a : κ} (v : β) (h : a ≠ k) :
    (finish s k v).values a = s.values a := Function.update_of_ne h _ _

/-- A key is begun. -/
def begin (s : State κ β) (k : κ) : State κ β := { s with inProgress := insert k s.inProgress }

/-- The keys not met yet. -/
def unseen (g : Summary κ β) (s : State κ β) : Finset κ := g.keys \ (s.done ∪ s.inProgress)

variable {g : Summary κ β}

theorem Grown.unseen_le {s s' : State κ β} (h : Grown s s') :
    (unseen g s').card ≤ (unseen g s).card := by
  refine Finset.card_le_card (Finset.sdiff_subset_sdiff (Finset.Subset.refl _) ?_)
  rw [h.inProgress]
  exact Finset.union_subset_union_left h.done

theorem unseen_begin_lt {s : State κ β} {k : κ} (hkeys : k ∈ g.keys) (hdone : k ∉ s.done)
    (hin : k ∉ s.inProgress) : (unseen g (begin s k)).card < (unseen g s).card := by
  refine Finset.card_lt_card ((Finset.ssubset_iff_of_subset ?_).mpr ⟨k, ?_, ?_⟩)
  · refine Finset.sdiff_subset_sdiff (Finset.Subset.refl _) ?_
    exact Finset.union_subset_union_right (Finset.subset_insert _ _)
  · simp [unseen, hkeys, hdone, hin]
  · simp [unseen, begin]

variable [SemilatticeSup β]

/-- A value joined with those of the finished kids. -/
def combined (s : State κ β) (kids : List κ) (own : β) : β :=
  kids.foldl (fun v k => if k ∈ s.done then v ⊔ s.values k else v) own

/-- The kids of a key that a walk still has to enter. -/
def pending (g : Summary κ β) (s : State κ β) (k : κ) : List κ :=
  (g.kids k).filter fun j =>
    decide (j ∉ s.done) && decide (j ∉ s.inProgress) && decide (j ∈ g.keys)

/-- One turn of a walk. -/
def visit (g : Summary κ β) (s : State κ β) : Frame κ β → State κ β × List (Frame κ β)
  | .combine k kids own => (finish s k (combined s kids own), [])
  | .enter k =>
    if k ∈ s.done ∨ k ∈ s.inProgress ∨ k ∉ g.keys then (s, [])
    else if (g.kids k).isEmpty then (finish (begin s k) k (g.own k), [])
    else
      (begin s k,
        .combine k (g.kids k) (g.own k) :: (pending g (begin s k) k).map .enter)

/-- Walks from the keys of a list, each on a number of turns. -/
def rollup (g : Summary κ β) (fuel : ℕ) (s : State κ β) (l : List κ) : State κ β :=
  l.foldl (fun s r =>
    if r ∈ s.done then s else Worklist.drain (visit g) fuel s [.enter r]) s

/-- What a combined value is below. -/
theorem combined_le_iff (s : State κ β) (kids : List κ) (own b : β) :
    combined s kids own ≤ b ↔ own ≤ b ∧ ∀ k ∈ kids, k ∈ s.done → s.values k ≤ b := by
  unfold combined
  induction kids generalizing own with
  | nil => simp
  | cons k kids ih =>
    rw [List.foldl_cons, ih, List.forall_mem_cons]
    by_cases hk : k ∈ s.done
    · rw [if_pos hk, sup_le_iff, and_assoc]
      exact and_congr_right fun _ => and_congr_left fun _ => ⟨fun h _ => h, fun h => h hk⟩
    · rw [if_neg hk]
      exact and_congr_right fun _ => ⟨fun h => ⟨fun h => absurd h hk, h⟩, fun h => h.2⟩

end

/-! ### Links -/

variable {g : Summary κ β}

variable (g) in
/-- One key is linked under another. -/
def Link (a b : κ) : Prop := b ∈ g.kids a ∧ b ∈ g.keys

variable (g) in
/-- Directly or not. -/
abbrev Below : κ → κ → Prop := Forest.Below g.Link

variable (g) in
/-- Directly or not, without going through `r` again. -/
abbrev Avoid (r : κ) : κ → κ → Prop := Relation.ReflTransGen fun a b => g.Link a b ∧ b ≠ r

theorem Avoid.below {r a b : κ} (h : g.Avoid r a b) : g.Below a b :=
  Relation.ReflTransGen.mono (fun _ _ hab => hab.1) a b h

/-- What is below a key that `r` is not below is so without going through `r`. -/
theorem avoid_of_not_below {r a b : κ} (hr : ¬ g.Below a r) (h : g.Below a b) : g.Avoid r a b := by
  induction h with
  | refl => exact Relation.ReflTransGen.refl
  | tail hab hlink ih => exact ih.tail ⟨hlink, fun heq => hr (heq ▸ hab.tail hlink)⟩

/-- What is below `r` is so without coming back to it. -/
theorem avoid_self {r b : κ} (h : g.Below r b) : g.Avoid r r b := by
  induction h with
  | refl => exact Relation.ReflTransGen.refl
  | @tail a b _ hlink ih =>
    by_cases hb : b = r
    · rw [hb]
    · exact ih.tail ⟨hlink, hb⟩

theorem avoid_eq_below {r a : κ} (hr : ¬ g.Below a r) : g.Avoid r a = g.Below a := by
  funext b
  exact propext ⟨Avoid.below, avoid_of_not_below hr⟩

theorem avoid_self_eq (r : κ) : g.Avoid r r = g.Below r := by
  funext b
  exact propext ⟨Avoid.below, avoid_self⟩

variable [SemilatticeSup β]

variable (g) in
/-- A value is the join of the own values of some keys. -/
def Sums (P : κ → Prop) (v : β) : Prop := IsLUB (g.own '' {k | P k}) v

theorem sums_iff {P : κ → Prop} {v : β} :
    g.Sums P v ↔ ∀ b, v ≤ b ↔ ∀ k, P k → g.own k ≤ b := by
  rw [Sums, isLUB_iff_le_iff]
  simp [upperBounds]

/-! ### What holds during a walk -/

variable (g) in
/-- Between two walks: what is finished is closed under links, and holds the sum over all that is
below it, unless it is on a cycle. -/
structure Settled (s : State κ β) : Prop where
  idle : s.inProgress = ∅
  keys : s.done ⊆ g.keys
  closed : ∀ a ∈ s.done, ∀ b, g.Link a b → b ∈ s.done
  sums : ∀ a ∈ s.done, ¬ Forest.OnCycle g.Link a → g.Sums (g.Below a) (s.values a)

variable (g) in
/-- During a walk from `r` that began with `s₀`. -/
structure Walking (r : κ) (s₀ s : State κ β) : Prop where
  /-- What was finished before is left as it was. -/
  known : s₀.done ⊆ s.done
  kept : ∀ a ∈ s₀.done, s.values a = s₀.values a
  /-- What the walk finishes is below its start, and sums up what it reaches without it. -/
  keys : s.done ⊆ g.keys
  below : ∀ a ∈ s.done, a ∉ s₀.done → g.Below r a
  sums : ∀ a ∈ s.done, a ∉ s₀.done → g.Sums (g.Avoid r a) (s.values a)
  closed : ∀ a ∈ s.done, ∀ b, g.Link a b → b ∈ s.done ∨ b = r
  /-- What is in progress hangs off the start. -/
  apart : ∀ a ∈ s.inProgress, a ∉ s.done
  rooted : ∀ b ∈ s.inProgress, b = r ∨ ∃ a ∈ s.inProgress, g.Link a b
  path : ∀ a ∈ s.inProgress, a ∈ g.keys ∧ g.Below r a

theorem Settled.mem_of_below {s : State κ β} (h : g.Settled s) {a b : κ} (ha : a ∈ s.done)
    (hab : g.Below a b) : b ∈ s.done := by
  induction hab with
  | refl => exact ha
  | tail _ hlink ih => exact h.closed _ ih _ hlink

theorem Settled.walking {s : State κ β} (h : g.Settled s) (r : κ) : g.Walking r s s where
  known := Finset.Subset.refl _
  kept _ _ := rfl
  keys := h.keys
  below _ ha hnot := absurd ha hnot
  sums _ ha hnot := absurd ha hnot
  closed a ha b hlink := Or.inl (h.closed a ha b hlink)
  apart a ha := by simp [h.idle] at ha
  rooted b hb := by simp [h.idle] at hb
  path a ha := by simp [h.idle] at ha

section Walking

variable (hone : Relator.LeftUnique g.Link) {r : κ} {s₀ s : State κ β} (h₀ : g.Settled s₀)
  (hr : r ∉ s₀.done)

include hone h₀ hr

/-- A finished kid of an unfinished key sums up what it reaches without the start. -/
theorem Walking.sums_kid (h : g.Walking r s₀ s) {k j : κ} (hk : k ∉ s.done) (hj : j ∈ s.done)
    (hlink : g.Link k j) : g.Sums (g.Avoid r j) (s.values j) := by
  by_cases hold : j ∈ s₀.done
  · have hcycle : ¬ Forest.OnCycle g.Link j := by
      intro hcycle
      have hback : g.Below j k := hcycle.below hone (Relation.ReflTransGen.single hlink)
      exact hk (h.known (h₀.mem_of_below hold hback))
    rw [h.kept j hold, avoid_eq_below fun hjr => hr (h₀.mem_of_below hold hjr)]
    exact h₀.sums j hold hcycle
  · exact h.sums j hj hold

end Walking

theorem settled_start (v : κ → β) : g.Settled { values := v } where
  idle := rfl
  keys := Finset.empty_subset _
  closed a ha := absurd ha (Finset.notMem_empty a)
  sums a ha := absurd ha (Finset.notMem_empty a)

variable (g) in
/-- What walks from the keys of a list leave. -/
structure Rolled (s : State κ β) (l : List κ) (s' : State κ β) : Prop where
  settled : g.Settled s'
  known : s.done ⊆ s'.done
  kept : ∀ a ∈ s.done, s'.values a = s.values a
  covered : ∀ a ∈ s'.done, a ∈ s.done ∨ ∃ r ∈ l, g.Below r a

theorem Rolled.trans {s s' s'' : State κ β} {l l' : List κ} (h : g.Rolled s l s')
    (h' : g.Rolled s' l' s'') : g.Rolled s (l ++ l') s'' where
  settled := h'.settled
  known := h.known.trans h'.known
  kept a ha := (h'.kept a (h.known ha)).trans (h.kept a ha)
  covered a ha := by
    rcases h'.covered a ha with ha' | ⟨r, hr, hra⟩
    · rcases h.covered a ha' with hs | ⟨r, hr, hra⟩
      · exact Or.inl hs
      · exact Or.inr ⟨r, List.mem_append_left _ hr, hra⟩
    · exact Or.inr ⟨r, List.mem_append_right _ hr, hra⟩

variable [DecidableEq κ]

/-- Beginning a key keeps what holds during a walk. -/
theorem Walking.begin {r : κ} {s₀ s : State κ β} (h : g.Walking r s₀ s) {k : κ}
    (hkeys : k ∈ g.keys) (hk : k ∉ s.done) (hroot : k = r ∨ ∃ a ∈ s.inProgress, g.Link a k) :
    g.Walking r s₀ (begin s k) where
  known := h.known
  kept := h.kept
  keys := h.keys
  below := h.below
  sums := h.sums
  closed := h.closed
  apart a ha := by
    rcases Finset.mem_insert.mp ha with rfl | ha
    · exact hk
    · exact h.apart a ha
  rooted b hb := by
    have hparent : b = r ∨ ∃ a ∈ s.inProgress, g.Link a b := by
      rcases Finset.mem_insert.mp hb with rfl | hb
      · exact hroot
      · exact h.rooted b hb
    exact hparent.imp_right fun ⟨a, ha, hlink⟩ => ⟨a, Finset.mem_insert_of_mem ha, hlink⟩
  path a ha := by
    rcases Finset.mem_insert.mp ha with rfl | ha
    · rcases hroot with rfl | ⟨b, hb, hlink⟩
      · exact ⟨hkeys, Relation.ReflTransGen.refl⟩
      · exact ⟨hkeys, (h.path b hb).2.tail hlink⟩
    · exact h.path a ha

section Walking

variable (hone : Relator.LeftUnique g.Link) {r : κ} {s₀ s : State κ β} (h₀ : g.Settled s₀)
  (hr : r ∉ s₀.done)

include hone h₀ hr

/-- A key whose kids are all finished, or the start, combines them to the sum over what it reaches
without the start. -/
theorem Walking.sums_combined (h : g.Walking r s₀ s) {k : κ} (hk : k ∉ s.done) (hrdone : r ∉ s.done)
    (hkids : ∀ j, g.Link k j → j ∈ s.done ∨ j = r) :
    g.Sums (g.Avoid r k) (combined s (g.kids k) (g.own k)) := by
  refine sums_iff.mpr fun b => ?_
  rw [combined_le_iff]
  constructor
  · rintro ⟨hown, hdone⟩ y hy
    rcases Relation.ReflTransGen.cases_head hy with rfl | ⟨j, ⟨hlink, hj⟩, hjy⟩
    · exact hown
    · have hjdone : j ∈ s.done := (hkids j hlink).resolve_right hj
      have hsums := h.sums_kid hone h₀ hr hk hjdone hlink
      exact (sums_iff.mp hsums b).mp (hdone j hlink.1 hjdone) y hjy
  · intro hall
    refine ⟨hall k Relation.ReflTransGen.refl, fun j hj hjdone => ?_⟩
    have hlink : g.Link k j := ⟨hj, h.keys hjdone⟩
    have hne : j ≠ r := fun heq => hrdone (heq ▸ hjdone)
    refine (sums_iff.mp (h.sums_kid hone h₀ hr hk hjdone hlink) b).mpr fun y hy => ?_
    exact hall y (Relation.ReflTransGen.head ⟨hlink, hne⟩ hy)

/-- Combining a key whose kids were all entered keeps what holds during a walk. -/
theorem Walking.finish (h : g.Walking r s₀ s) {k : κ} (hk : k ∈ s.inProgress)
    (hrin : r ∈ s.inProgress) (hkids : ∀ j, g.Link k j → j ∈ s.done ∨ j ∈ s.inProgress)
    (hback : ∀ j ∈ s.inProgress, g.Link k j → j = r) :
    g.Walking r s₀ (finish s k (combined s (g.kids k) (g.own k))) := by
  have hknot : k ∉ s.done := h.apart k hk
  have hkids' : ∀ j, g.Link k j → j ∈ s.done ∨ j = r := fun j hlink =>
    (hkids j hlink).imp_right fun hj => hback j hj hlink
  have hvalue : ∀ a ∈ s.done,
      (Summary.finish s k (combined s (g.kids k) (g.own k))).values a = s.values a := by
    intro a ha
    refine finish_values_of_ne s _ ?_
    rintro rfl
    exact hknot ha
  refine ⟨fun a ha => Finset.mem_insert_of_mem (h.known ha), ?_, ?_, ?_, ?_, ?_, ?_, ?_, ?_⟩
  · intro a ha
    rw [hvalue a (h.known ha), h.kept a ha]
  · intro a ha
    rcases Finset.mem_insert.mp ha with rfl | ha
    · exact (h.path a hk).1
    · exact h.keys ha
  · intro a ha hnot
    rcases Finset.mem_insert.mp ha with rfl | ha
    · exact (h.path a hk).2
    · exact h.below a ha hnot
  · intro a ha hnot
    rcases Finset.mem_insert.mp ha with rfl | ha
    · rw [finish_values_self]
      exact h.sums_combined hone h₀ hr hknot (h.apart r hrin) hkids'
    · rw [hvalue a ha]
      exact h.sums a ha hnot
  · intro a ha b hlink
    have hclosed : b ∈ s.done ∨ b = r := by
      rcases Finset.mem_insert.mp ha with rfl | ha
      · exact hkids' b hlink
      · exact h.closed a ha b hlink
    exact hclosed.imp_left Finset.mem_insert_of_mem
  · intro a ha hmem
    obtain ⟨hne, ha⟩ := Finset.mem_erase.mp ha
    exact h.apart a ha ((Finset.mem_insert.mp hmem).resolve_left hne)
  · intro b hb
    have hb' := Finset.mem_of_mem_erase hb
    rcases h.rooted b hb' with hbr | ⟨a, ha, hlink⟩
    · exact Or.inl hbr
    · by_cases hak : a = k
      · subst hak
        exact Or.inl (hback b hb' hlink)
      · exact Or.inr ⟨a, Finset.mem_erase.mpr ⟨hak, ha⟩, hlink⟩
  · intro a ha
    exact h.path a (Finset.mem_of_mem_erase ha)

end Walking

/-! ### Turns -/

variable (g) in
/-- Turn after turn of a walk. -/
abbrev Steps : State κ β × List (Frame κ β) → State κ β × List (Frame κ β) → Prop :=
  Relation.ReflTransGen fun x y => Worklist.pop (visit g) x = some y

variable (g) in
/-- What entering some keys leaves. -/
structure Entered (r : κ) (s₀ s : State κ β) (ks : List κ) (s' : State κ β) : Prop where
  walking : g.Walking r s₀ s'
  grown : Grown s s'
  met : ∀ k ∈ ks, k ∈ g.keys → k ∈ s'.done ∨ k ∈ s.inProgress

variable (g) in
/-- A key that may be entered: the start, or one linked under a key in progress. -/
def Hangs (r : κ) (s : State κ β) (k : κ) : Prop :=
  k = r ∨ r ∈ s.inProgress ∧ ∃ a ∈ s.inProgress, g.Link a k

section

variable {s : State κ β} {k : κ} (rest : List (Frame κ β))

theorem steps_combine (kids : List κ) (own : β) :
    g.Steps (s, .combine k kids own :: rest) (finish s k (combined s kids own), rest) :=
  Relation.ReflTransGen.single rfl

theorem steps_of_met (h : k ∈ s.done ∨ k ∈ s.inProgress ∨ k ∉ g.keys) :
    g.Steps (s, .enter k :: rest) (s, rest) := by
  refine Relation.ReflTransGen.single ?_
  rw [Worklist.pop, visit, if_pos h]
  rfl

variable (hdone : k ∉ s.done) (hin : k ∉ s.inProgress) (hkeys : k ∈ g.keys)

include hdone hin hkeys

theorem steps_of_leaf (hkids : g.kids k = []) :
    g.Steps (s, .enter k :: rest)
      (finish (begin s k) k (combined (begin s k) (g.kids k) (g.own k)), rest) := by
  refine Relation.ReflTransGen.single ?_
  rw [Worklist.pop, visit, if_neg (by simp [hdone, hin, hkeys]), hkids, if_pos List.isEmpty_nil]
  rfl

theorem steps_of_kids (hkids : g.kids k ≠ []) :
    g.Steps (s, .enter k :: rest)
      (begin s k, (pending g (begin s k) k).reverse.map .enter ++
        .combine k (g.kids k) (g.own k) :: rest) := by
  refine Relation.ReflTransGen.single ?_
  rw [Worklist.pop, visit, if_neg (by simp [hdone, hin, hkeys]),
    if_neg (by simpa using hkids), List.reverse_cons, List.append_assoc, List.singleton_append,
    List.map_reverse]

end

/-- A key in progress that is linked under one just begun is the start: its one parent was in
progress before. -/
theorem eq_of_link_begin (hone : Relator.LeftUnique g.Link) {r : κ} {s₀ s : State κ β} {k j : κ}
    (h : g.Walking r s₀ s) (hhangs : g.Hangs r s k) (hin : k ∉ s.inProgress)
    (hj : j ∈ (begin s k).inProgress) (hlink : g.Link k j) : j = r := by
  have hparent : j = r ∨ ∃ a ∈ s.inProgress, g.Link a j := by
    rcases Finset.mem_insert.mp hj with rfl | hj
    · exact hhangs.imp_right And.right
    · exact h.rooted j hj
  refine hparent.resolve_right ?_
  rintro ⟨a, ha, hlink'⟩
  obtain rfl : a = k := hone hlink' hlink
  exact hin ha

/-- Where what is begun is finished, a key was entered. -/
theorem entered_finish {r : κ} {s₀ s s₁ : State κ β} {k : κ} {v : β} (hin : k ∉ s.inProgress)
    (hgrown : Grown (begin s k) s₁) (h : g.Walking r s₀ (finish s₁ k v)) :
    g.Entered r s₀ s [k] (finish s₁ k v) := by
  refine ⟨h, ⟨?_, hgrown.done.trans (Finset.subset_insert _ _)⟩, fun j hj _ => ?_⟩
  · rw [finish, hgrown.inProgress]
    exact Finset.erase_insert hin
  · rw [List.mem_singleton.mp hj]
    exact Or.inl (Finset.mem_insert_self _ _)

/-- Where one key can be entered, several can be. -/
theorem enters_steps {r : κ} {s₀ : State κ β} {n : ℕ}
    (henter : ∀ (s : State κ β) (k : κ) (rest : List (Frame κ β)), (unseen g s).card < n →
      g.Walking r s₀ s → g.Hangs r s k →
      ∃ s', g.Steps (s, .enter k :: rest) (s', rest) ∧ g.Entered r s₀ s [k] s')
    (ks : List κ) (rest : List (Frame κ β)) :
    ∀ s : State κ β, (unseen g s).card < n → g.Walking r s₀ s → (∀ k ∈ ks, g.Hangs r s k) →
      ∃ s', g.Steps (s, ks.map .enter ++ rest) (s', rest) ∧ g.Entered r s₀ s ks s' := by
  induction ks with
  | nil =>
    intro s _ h _
    exact ⟨s, Relation.ReflTransGen.refl, h, Grown.refl s, by simp⟩
  | cons k ks ih =>
    intro s hn h hhangs
    obtain ⟨s₁, hsteps₁, h₁⟩ :=
      henter s k (ks.map .enter ++ rest) hn h (hhangs k List.mem_cons_self)
    have hhangs₁ : ∀ j ∈ ks, g.Hangs r s₁ j := by
      intro j hj
      have hj' := hhangs j (List.mem_cons_of_mem _ hj)
      rwa [Hangs, h₁.grown.inProgress]
    obtain ⟨s₂, hsteps₂, h₂⟩ := ih s₁ (h₁.grown.unseen_le.trans_lt hn) h₁.walking hhangs₁
    refine ⟨s₂, hsteps₁.trans hsteps₂, h₂.walking, h₁.grown.trans h₂.grown, ?_⟩
    intro j hj hkeys
    rcases List.mem_cons.mp hj with rfl | hj
    · exact (h₁.met j (List.mem_singleton_self j) hkeys).imp_left fun hdone => h₂.grown.done hdone
    · rw [← h₁.grown.inProgress]
      exact h₂.met j hj hkeys

/-- **Entering a key finishes it, unless it is in progress, and whatever else is on the stack.** -/
theorem enter_steps (hone : Relator.LeftUnique g.Link) {r : κ} {s₀ : State κ β}
    (h₀ : g.Settled s₀) (hr : r ∉ s₀.done) (n : ℕ) :
    ∀ (s : State κ β) (k : κ) (rest : List (Frame κ β)), (unseen g s).card < n →
      g.Walking r s₀ s → g.Hangs r s k →
      ∃ s', g.Steps (s, .enter k :: rest) (s', rest) ∧ g.Entered r s₀ s [k] s' := by
  induction n with
  | zero =>
    intro s k rest hn
    exact absurd hn (Nat.not_lt_zero _)
  | succ n ih =>
    intro s k rest hn h hhangs
    by_cases hmet : k ∈ s.done ∨ k ∈ s.inProgress ∨ k ∉ g.keys
    · refine ⟨s, steps_of_met rest hmet, h, Grown.refl s, fun j hj hjkeys => ?_⟩
      obtain rfl := List.mem_singleton.mp hj
      simpa [hjkeys] using hmet
    obtain ⟨hdone, hin, hkeys⟩ : k ∉ s.done ∧ k ∉ s.inProgress ∧ k ∈ g.keys := by
      simpa [not_or] using hmet
    have hbegun := h.begin hkeys hdone (hhangs.imp_right And.right)
    have hback : ∀ j ∈ (begin s k).inProgress, g.Link k j → j = r :=
      fun j hj hlink => eq_of_link_begin hone h hhangs hin hj hlink
    have hkin : k ∈ (begin s k).inProgress := Finset.mem_insert_self _ _
    have hrin : r ∈ (begin s k).inProgress := by
      rcases hhangs with rfl | ⟨hrin, -⟩
      · exact hkin
      · exact Finset.mem_insert_of_mem hrin
    by_cases hkids : g.kids k = []
    · have hnone : ∀ j, g.Link k j → j ∈ (begin s k).done ∨ j ∈ (begin s k).inProgress := by
        intro j hlink
        rw [Link, hkids] at hlink
        exact absurd hlink.1 List.not_mem_nil
      exact ⟨_, steps_of_leaf rest hdone hin hkeys hkids, entered_finish hin (Grown.refl _)
        (hbegun.finish hone h₀ hr hkin hrin hnone hback)⟩
    · have hlt : (unseen g (begin s k)).card < n :=
        Nat.lt_of_lt_of_le (unseen_begin_lt hkeys hdone hin) (Nat.lt_succ_iff.mp hn)
      have hpending : ∀ j, j ∈ (pending g (begin s k) k).reverse ↔
          g.Link k j ∧ j ∉ s.done ∧ j ∉ (begin s k).inProgress := by
        intro j
        rw [List.mem_reverse, pending, List.mem_filter, Link]
        simp only [Bool.and_eq_true, decide_eq_true_eq]
        exact ⟨fun ⟨hj, ⟨hd, hp⟩, hk⟩ => ⟨⟨hj, hk⟩, hd, hp⟩,
          fun ⟨⟨hj, hk⟩, hd, hp⟩ => ⟨hj, ⟨hd, hp⟩, hk⟩⟩
      obtain ⟨s₁, hsteps, h₁⟩ := enters_steps ih (pending g (begin s k) k).reverse
        (.combine k (g.kids k) (g.own k) :: rest) (begin s k) hlt hbegun
        (fun j hj => Or.inr ⟨hrin, k, hkin, ((hpending j).mp hj).1⟩)
      have hsame := h₁.grown.inProgress
      -- every kid was finished before, is in progress, or was entered in between
      have hawaited : ∀ j, g.Link k j → j ∈ s₁.done ∨ j ∈ s₁.inProgress := by
        intro j hlink
        rw [hsame]
        by_cases hjdone : j ∈ s.done
        · exact Or.inl (h₁.grown.done hjdone)
        by_cases hjin : j ∈ (begin s k).inProgress
        · exact Or.inr hjin
        exact h₁.met j ((hpending j).mpr ⟨hlink, hjdone, hjin⟩) hlink.2
      have hfinish := h₁.walking.finish hone h₀ hr (hsame ▸ hkin) (hsame ▸ hrin) hawaited
        (hsame ▸ hback)
      exact ⟨_, (steps_of_kids rest hdone hin hkeys hkids).trans
        (hsteps.trans (steps_combine rest _ _)), entered_finish hin h₁.grown hfinish⟩

/-! ### Walk after walk -/

/-- **A walk finishes its start, with the sum over all that is below it.** -/
theorem walk_steps (hone : Relator.LeftUnique g.Link) {s₀ : State κ β} (h₀ : g.Settled s₀) {r : κ}
    (hkeys : r ∈ g.keys) (hr : r ∉ s₀.done) :
    ∃ s, g.Steps (s₀, [.enter r]) (s, []) ∧ g.Rolled s₀ [r] s ∧ r ∈ s.done ∧
      g.Sums (g.Below r) (s.values r) := by
  obtain ⟨s, hsteps, hentered⟩ := enter_steps hone h₀ hr _ s₀ r [] (Nat.lt_succ_self _)
    (h₀.walking r) (Or.inl rfl)
  have h := hentered.walking
  have hidle : s.inProgress = ∅ := hentered.grown.inProgress.trans h₀.idle
  have hrdone : r ∈ s.done := by
    have hmet := hentered.met r (List.mem_singleton_self r) hkeys
    simpa [h₀.idle] using hmet
  have hclosed : ∀ a ∈ s.done, ∀ b, g.Link a b → b ∈ s.done := by
    intro a ha b hlink
    rcases h.closed a ha b hlink with hb | rfl
    · exact hb
    · exact hrdone
  have hroot : g.Sums (g.Below r) (s.values r) := by
    rw [← avoid_self_eq]
    exact h.sums r hrdone hr
  refine ⟨s, hsteps, ⟨⟨hidle, h.keys, hclosed, ?_⟩, h.known, h.kept, ?_⟩, hrdone, hroot⟩
  · intro a ha hcycle
    by_cases hold : a ∈ s₀.done
    · rw [h.kept a hold]
      exact h₀.sums a hold hcycle
    by_cases heq : a = r
    · rwa [heq]
    · -- above the start it would be on a cycle with it
      have hnot : ¬ g.Below a r := by
        intro har
        have har' := (Relation.reflTransGen_iff_eq_or_transGen.mp har).resolve_left (Ne.symm heq)
        exact hcycle (har'.trans_left (h.below a ha hold))
      rw [← avoid_eq_below hnot]
      exact h.sums a ha hold
  · intro a ha
    by_cases hold : a ∈ s₀.done
    · exact Or.inl hold
    · exact Or.inr ⟨r, List.mem_singleton_self r, h.below a ha hold⟩

theorem rollup_append (fuel : ℕ) (s : State κ β) (l l' : List κ) :
    rollup g fuel s (l ++ l') = rollup g fuel (rollup g fuel s l) l' :=
  List.foldl_append

theorem rollup_cons_of_done (fuel : ℕ) {s : State κ β} {r : κ} (hr : r ∈ s.done) (l : List κ) :
    rollup g fuel s (r :: l) = rollup g fuel s l := by
  rw [rollup, List.foldl_cons, if_pos hr, rollup]

/-- A walk on enough turns leaves what its turns lead to. -/
theorem rollup_cons_of_steps {fuel : ℕ} {s s' : State κ β} {r : κ}
    (hends : (While.run (Worklist.pop (visit g)) fuel (s, [.enter r])).2 = []) (hr : r ∉ s.done)
    (hsteps : g.Steps (s, [.enter r]) (s', [])) (l : List κ) :
    rollup g fuel s (r :: l) = rollup g fuel s' l := by
  have hstop : Worklist.pop (visit g)
      (While.run (Worklist.pop (visit g)) fuel (s, [.enter r])) = none := by
    generalize While.run (Worklist.pop (visit g)) fuel (s, [.enter r]) = x at hends
    obtain ⟨t, stack⟩ := x
    obtain rfl : stack = [] := hends
    rfl
  rw [rollup, List.foldl_cons, if_neg hr, Worklist.drain, While.run_eq_of_steps hsteps rfl hstop,
    rollup]

/-- On enough turns, one walk after another leaves what the walks leave. -/
theorem rolled_rollup (hone : Relator.LeftUnique g.Link) {fuel : ℕ}
    (hends : ∀ s r, (While.run (Worklist.pop (visit g)) fuel (s, [.enter r])).2 = [])
    (l : List κ) : ∀ s : State κ β, g.Settled s → (∀ r ∈ l, r ∈ g.keys) →
      g.Rolled s l (rollup g fuel s l) := by
  induction l with
  | nil =>
    intro s h _
    exact ⟨h, Finset.Subset.refl _, fun _ _ => rfl, fun a ha => Or.inl ha⟩
  | cons r l ih =>
    intro s h hkeys
    have hrest : ∀ a ∈ l, a ∈ g.keys := fun a ha => hkeys a (List.mem_cons_of_mem _ ha)
    by_cases hr : r ∈ s.done
    · rw [rollup_cons_of_done fuel hr]
      have hrolled := ih s h hrest
      refine ⟨hrolled.settled, hrolled.known, hrolled.kept, fun a ha => ?_⟩
      refine (hrolled.covered a ha).imp_right ?_
      rintro ⟨q, hq, hqa⟩
      exact ⟨q, List.mem_cons_of_mem _ hq, hqa⟩
    · obtain ⟨s₁, hsteps, h₁, -, -⟩ := walk_steps hone h (hkeys r List.mem_cons_self) hr
      rw [rollup_cons_of_steps (hends s r) hr hsteps]
      exact h₁.trans (ih s₁ h₁.settled hrest)

/-- **A key that nothing earlier in the list is above ends with the sum over all that is below
it.** -/
theorem rollup_spec (hone : Relator.LeftUnique g.Link) {fuel : ℕ}
    (hends : ∀ s r, (While.run (Worklist.pop (visit g)) fuel (s, [.enter r])).2 = [])
    (v : κ → β) {t u : List κ} {r : κ} (hkeys : ∀ a ∈ t ++ r :: u, a ∈ g.keys)
    (hfirst : ∀ a ∈ t, ¬ g.Below a r) :
    r ∈ (rollup g fuel { values := v } (t ++ r :: u)).done ∧
      g.Sums (g.Below r) ((rollup g fuel { values := v } (t ++ r :: u)).values r) := by
  have ht : ∀ a ∈ t, a ∈ g.keys := fun a ha => hkeys a (List.mem_append_left _ ha)
  have hrkeys : r ∈ g.keys := hkeys r (List.mem_append_right _ List.mem_cons_self)
  have hu : ∀ a ∈ u, a ∈ g.keys := fun a ha =>
    hkeys a (List.mem_append_right _ (List.mem_cons_of_mem _ ha))
  have h₁ := rolled_rollup hone hends t { values := v } (settled_start v) ht
  have hr : r ∉ (rollup g fuel { values := v } t).done := by
    intro hr
    rcases h₁.covered r hr with hr | ⟨a, ha, har⟩
    · exact Finset.notMem_empty r hr
    · exact hfirst a ha har
  obtain ⟨s₂, hsteps, h₂, hdone, hsums⟩ := walk_steps hone h₁.settled hrkeys hr
  have h₃ := rolled_rollup hone hends u s₂ h₂.settled hu
  rw [rollup_append, rollup_cons_of_steps (hends _ r) hr hsteps]
  refine ⟨h₃.known hdone, ?_⟩
  rw [h₃.kept r hdone]
  exact hsums

end Summary

end Taskman
