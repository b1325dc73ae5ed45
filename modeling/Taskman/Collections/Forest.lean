import Mathlib.Data.Fintype.Defs
import Mathlib.Data.List.Nodup
import Mathlib.Data.List.Pairwise
import Mathlib.Data.Set.Finite.List
import Mathlib.Logic.Relation
import Mathlib.Order.WellFounded

/-!
# Families in graphs with one parent

A relation under which nobody has two parents.  The family of an element is what is reached from it
through elements it accepts; two families that meet contain one another's head.  A greedy selection
goes through a list and picks what no earlier pick covers.

* `Forest.Family` : what an element reaches through elements it accepts;
* `Forest.Family.total` : **of two families that meet, one contains the head of the other**;
* `Forest.picks` : the greedy selection;
* `Forest.disjoint_picks_iff` : **greedy picks overlap exactly when something that hangs off a cycle
  comes before the whole cycle**;
* `Forest.covered_iff` : **the picks no other pick covers reach everything exactly when each of them
  reaches all that a pick in its family reaches**.
-/

namespace Taskman

namespace Forest

variable {α : Type*} {r : α → α → Prop} {ok : α → α → Prop}

/-! ### Families -/

/-- What `q` reaches through elements it accepts. -/
def Family (r : α → α → Prop) (ok : α → α → Prop) (q : α) : α → Prop :=
  Relation.ReflTransGen (fun a b => r a b ∧ ok q b) q

theorem Family.refl (q : α) : Family r ok q q := Relation.ReflTransGen.refl

/-- **Of two families that meet, one contains the head of the other.** -/
theorem Family.total (hr : Relator.LeftUnique r) {p q x : α} (hp : Family r ok p x)
    (hq : Family r ok q x) : Family r ok q p ∨ Family r ok p q := by
  induction hp with
  | refl => exact Or.inl hq
  | @tail y x hpy hstep ih =>
    rcases Relation.ReflTransGen.cases_tail hq with heq | ⟨z, hqz, hz⟩
    · subst heq
      exact Or.inr (hpy.tail hstep)
    · obtain rfl : z = y := hr hz.1 hstep.1
      exact ih hqz

/-- Everything is accepted. -/
abbrev Below (r : α → α → Prop) : α → α → Prop := Relation.ReflTransGen r

theorem family_true_iff {p x : α} : Family r (fun _ _ => True) p x ↔ Below r p x := by
  simp [Family]

theorem Below.total (hr : Relator.LeftUnique r) {p q x : α} (hp : Below r p x)
    (hq : Below r q x) : Below r q p ∨ Below r p q := by
  simp only [← family_true_iff] at hp hq ⊢
  exact hp.total hr hq

/-! ### Cycles -/

/-- An element that reaches itself again. -/
def OnCycle (r : α → α → Prop) (c : α) : Prop := Relation.TransGen r c c

theorem not_onCycle_of_lt {β : Type*} [Preorder β] (f : α → β) (h : ∀ a b, r a b → f a < f b)
    (c : α) : ¬ OnCycle r c := by
  intro hc
  have hlt : Relation.TransGen (· < ·) (f c) (f c) := Relation.TransGen.lift f h _ _ hc
  rw [Relation.transGen_eq_self] at hlt
  exact lt_irrefl _ hlt

/-- What reaches a cycle is on it. -/
theorem OnCycle.below (hr : Relator.LeftUnique r) {c y : α} (hc : OnCycle r c)
    (hy : Below r y c) : Below r c y := by
  induction hy using Relation.ReflTransGen.head_induction_on with
  | refl => exact Relation.ReflTransGen.refl
  | @head y z hyz _ ih =>
    -- the last link into `z`, around the cycle if need be, comes from its only parent
    have hpred : Relation.TransGen r c z := by
      rcases Relation.reflTransGen_iff_eq_or_transGen.mp ih with heq | htrans
      · rw [heq]
        exact hc
      · exact htrans
    obtain ⟨w, hcw, hwz⟩ := Relation.TransGen.tail'_iff.mp hpred
    obtain rfl : w = y := hr hwz hyz
    exact hcw

theorem OnCycle.of_below (hr : Relator.LeftUnique r) {c y : α} (hc : OnCycle r c)
    (hy : Below r y c) : OnCycle r y :=
  Relation.TransGen.trans_right hy (Relation.TransGen.trans_left hc (hc.below hr hy))

theorem OnCycle.parent {c : α} (hc : OnCycle r c) : ∃ y, r y c := by
  obtain ⟨y, -, hy⟩ := Relation.TransGen.tail'_iff.mp hc
  exact ⟨y, hy⟩

/-! ### Greedy selection -/

variable {covers : α → α → Prop}

open Classical in
/-- Go through a list and pick what no earlier pick covers. -/
noncomputable def picks (covers : α → α → Prop) (picked l : List α) : List α :=
  l.foldl (fun picked p => if ∃ q ∈ picked, covers q p then picked else picked ++ [p]) picked

theorem picks_cons_of_covered {picked l : List α} {p : α} (h : ∃ q ∈ picked, covers q p) :
    picks covers picked (p :: l) = picks covers picked l := by
  rw [picks, List.foldl_cons, if_pos h, picks]

theorem picks_cons_of_not {picked l : List α} {p : α} (h : ¬ ∃ q ∈ picked, covers q p) :
    picks covers picked (p :: l) = picks covers (picked ++ [p]) l := by
  rw [picks, List.foldl_cons, if_neg h, picks]

theorem picks_append (picked l l' : List α) :
    picks covers picked (l ++ l') = picks covers (picks covers picked l) l' := by
  rw [picks, List.foldl_append, picks, picks]

/-- The selection continues what was picked with a part of the list. -/
theorem exists_picks_eq (covers : α → α → Prop) (picked l : List α) :
    ∃ new : List α, picks covers picked l = picked ++ new ∧ new.Sublist l := by
  induction l generalizing picked with
  | nil => exact ⟨[], (List.append_nil _).symm, List.Sublist.refl _⟩
  | cons p l ih =>
    by_cases h : ∃ q ∈ picked, covers q p
    · rw [picks_cons_of_covered h]
      obtain ⟨new, heq, hsub⟩ := ih picked
      exact ⟨new, heq, hsub.cons p⟩
    · rw [picks_cons_of_not h]
      obtain ⟨new, heq, hsub⟩ := ih (picked ++ [p])
      exact ⟨p :: new, by rw [heq, List.append_assoc, List.singleton_append], hsub.cons_cons p⟩

theorem mem_picks_of_mem {picked l : List α} {q : α} (h : q ∈ picked) :
    q ∈ picks covers picked l := by
  obtain ⟨new, heq, -⟩ := exists_picks_eq covers picked l
  rw [heq]
  exact List.mem_append_left _ h

theorem mem_or_mem_of_mem_picks {picked l : List α} {q : α} (h : q ∈ picks covers picked l) :
    q ∈ picked ∨ q ∈ l := by
  obtain ⟨new, heq, hsub⟩ := exists_picks_eq covers picked l
  rw [heq] at h
  exact (List.mem_append.mp h).imp_right fun hnew => hsub.subset hnew

variable (covers) in
/-- Everything gone through is covered. -/
theorem exists_mem_picks (hrefl : ∀ p, covers p p) (picked : List α) {l : List α} {p : α}
    (hp : p ∈ l) :
    ∃ q ∈ picks covers picked l, covers q p := by
  obtain ⟨s, t, rfl⟩ := List.append_of_mem hp
  rw [picks_append]
  by_cases h : ∃ q ∈ picks covers picked s, covers q p
  · obtain ⟨q, hq, hqp⟩ := h
    rw [picks_cons_of_covered ⟨q, hq, hqp⟩]
    exact ⟨q, mem_picks_of_mem hq, hqp⟩
  · rw [picks_cons_of_not h]
    exact ⟨p, mem_picks_of_mem (List.mem_append_right _ (List.mem_singleton_self p)), hrefl p⟩

/-- No pick is covered by an earlier one. -/
theorem pairwise_picks {picked l : List α} (h : picked.Pairwise fun q p => ¬ covers q p) :
    (picks covers picked l).Pairwise fun q p => ¬ covers q p := by
  induction l generalizing picked with
  | nil => exact h
  | cons p l ih =>
    by_cases hcov : ∃ q ∈ picked, covers q p
    · rw [picks_cons_of_covered hcov]
      exact ih h
    · rw [picks_cons_of_not hcov]
      refine ih (List.pairwise_append.mpr ⟨h, List.pairwise_singleton _ _, ?_⟩)
      intro q hq x hx hqx
      rw [List.mem_singleton.mp hx] at hqx
      exact hcov ⟨q, hq, hqx⟩

/-- A pick was covered by nothing picked before its turn. -/
theorem split_of_mem_picks {picked l : List α} {q : α} (h : q ∈ picks covers picked l) :
    q ∈ picked ∨ ∃ s t, l = s ++ q :: t ∧ ¬ ∃ p ∈ picks covers picked s, covers p q := by
  induction l generalizing picked with
  | nil => exact Or.inl h
  | cons p l ih =>
    by_cases hcov : ∃ q ∈ picked, covers q p
    · rw [picks_cons_of_covered hcov] at h
      rcases ih h with hq | ⟨s, t, rfl, hnot⟩
      · exact Or.inl hq
      · refine Or.inr ⟨p :: s, t, rfl, ?_⟩
        rwa [picks_cons_of_covered hcov]
    · rw [picks_cons_of_not hcov] at h
      rcases ih h with hq | ⟨s, t, rfl, hnot⟩
      · rcases List.mem_append.mp hq with hq | hq
        · exact Or.inl hq
        · obtain rfl := List.mem_singleton.mp hq
          exact Or.inr ⟨[], l, rfl, hcov⟩
      · refine Or.inr ⟨p :: s, t, rfl, ?_⟩
        rwa [picks_cons_of_not hcov]

/-! ### Trees that overlap -/

section Trees

variable {l base : List α}

/-- What is in a finite graph is below an element without a parent, or below a cycle. -/
theorem below_root_or_cycle (hmem : ∀ a b, r a b → a ∈ l) {x : α} (hx : x ∈ l) :
    (∃ b ∈ l, (¬ ∃ y, r y b) ∧ Below r b x) ∨ ∃ c, OnCycle r c ∧ Below r c x := by
  by_contra hnone
  obtain ⟨hroot, hcycle⟩ := not_or.mp hnone
  let S := {a : α // a ∈ l ∧ Below r a x}
  have hfin : Finite S := (l.finite_toSet.subset fun a (h : a ∈ l ∧ Below r a x) => h.1).to_subtype
  have htrans : IsTrans S fun a b => Relation.TransGen r a.1 b.1 :=
    ⟨fun _ _ _ => Relation.TransGen.trans⟩
  have hirrefl : Std.Irrefl fun a b : S => Relation.TransGen r a.1 b.1 :=
    ⟨fun a ha => hcycle ⟨a.1, ha, a.2.2⟩⟩
  have hwf := Finite.wellFounded_of_trans_of_irrefl fun a b : S => Relation.TransGen r a.1 b.1
  obtain ⟨m, -, hmin⟩ := hwf.has_min Set.univ ⟨⟨x, hx, Relation.ReflTransGen.refl⟩, trivial⟩
  refine hroot ⟨m.1, m.2.1, ?_, m.2.2⟩
  rintro ⟨y, hy⟩
  exact hmin ⟨y, hmem y m.1 hy, Relation.ReflTransGen.head hy m.2.2⟩ trivial
    (Relation.TransGen.single hy)

/-- Everything that hangs off a cycle comes after an element of the cycle. -/
def CyclesFirst (r : α → α → Prop) (lt : α → α → Prop) : Prop :=
  ∀ c p, OnCycle r c → Below r c p → ¬ OnCycle r p → ∃ c', OnCycle r c' ∧ Below r c' p ∧ lt c' p

variable {lt : α → α → Prop}

theorem mem_of_lt (hl : l.Pairwise lt) (hasymm : ∀ a b, lt a b → ¬ lt b a) {s t : List α}
    {c p : α} (hsplit : l = s ++ p :: t) (hc : c ∈ l) (hlt : lt c p) : c ∈ s := by
  subst hsplit
  rcases List.mem_append.mp hc with hs | ht
  · exact hs
  · rcases List.mem_cons.mp ht with rfl | ht
    · exact absurd hlt (hasymm c c hlt)
    · have hpc := (List.pairwise_cons.mp (List.pairwise_append.mp hl).2.1).1 c ht
      exact absurd hlt (hasymm p c hpc)

theorem lt_of_mem (hl : l.Pairwise lt) {s t : List α} {c p : α} (hsplit : l = s ++ p :: t)
    (hc : c ∈ s) : lt c p := by
  subst hsplit
  exact (List.pairwise_append.mp hl).2.2 c hc p List.mem_cons_self

/-- The elements without a parent, and then what no tree covers, in order. -/
noncomputable abbrev roots (r : α → α → Prop) (base l : List α) : List α := picks (Below r) base l

/-- No root is below anything that comes before it. -/
theorem not_below_of_mem_roots (hbase : ∀ x ∈ base, ¬ ∃ y, r y x) {q : α} (hq : q ∈ roots r base l)
    (hl : l.Nodup) {s t : List α} (hsplit : l = s ++ q :: t) {y : α} (hy : y ∈ s) :
    ¬ Below r y q := by
  intro hyq
  have hnot : q ∉ s ∧ q ∉ t := by
    rw [hsplit] at hl
    have hdisjoint := List.nodup_append.mp hl
    exact ⟨fun hqs => hdisjoint.2.2 q hqs q List.mem_cons_self rfl,
      (List.nodup_cons.mp hdisjoint.2.1).1⟩
  rcases split_of_mem_picks hq with hqb | ⟨s', t', hsplit', hcov⟩
  · rcases Relation.ReflTransGen.cases_tail hyq with heq | ⟨z, -, hz⟩
    · exact hnot.1 (heq ▸ hy)
    · exact hbase q hqb ⟨z, hz⟩
  · rw [hsplit] at hsplit'
    obtain ⟨rfl, -⟩ := (List.append_cons_inj_of_notMem hnot.1 hnot.2).mp hsplit'
    obtain ⟨p, hp, hpy⟩ := exists_mem_picks (Below r) (fun _ => Relation.ReflTransGen.refl) base hy
    exact hcov ⟨p, hp, hpy.trans hyq⟩

variable (hr : Relator.LeftUnique r) (hmem : ∀ a b, r a b → a ∈ l ∧ b ∈ l)
  (hbase : ∀ x, x ∈ base ↔ x ∈ l ∧ ¬ ∃ y, r y x) (hnodup : base.Nodup)

include hbase hnodup

theorem pairwise_base : base.Pairwise fun q p => ¬ Below r q p := by
  refine hnodup.imp_of_mem ?_
  intro q p hq hp hne hqp
  rcases Relation.ReflTransGen.cases_tail hqp with heq | ⟨y, -, hy⟩
  · exact hne heq.symm
  · exact ((hbase p).mp hp).2 ⟨y, hy⟩

include hr hmem

/-- **The trees of the roots are disjoint exactly when cycles come first.** -/
theorem disjoint_picks_iff (hl : l.Pairwise lt) (hasymm : ∀ a b, lt a b → ¬ lt b a) :
    (roots r base l).Pairwise (fun q p => ∀ x, ¬ (Below r q x ∧ Below r p x)) ↔
      CyclesFirst r lt := by
  have huncovered := pairwise_picks (l := l) (pairwise_base hbase hnodup)
  constructor
  · intro hdisjoint c p hc hcp hp
    by_contra hnone
    have hpl : p ∈ l := by
      rcases Relation.ReflTransGen.cases_tail hcp with heq | ⟨y, -, hy⟩
      · exact absurd (heq ▸ hc) hp
      · exact (hmem y p hy).2
    obtain ⟨s, t, hsplit⟩ := List.append_of_mem hpl
    -- a root at or before `p` covers it, and it is not on the cycle
    obtain ⟨q, hq, hqp, hqc⟩ : ∃ q ∈ roots r base l, Below r q p ∧ ¬ OnCycle r q := by
      by_cases hcov : ∃ q ∈ picks (Below r) base s, Below r q p
      · obtain ⟨q, hq, hqp⟩ := hcov
        refine ⟨q, ?_, hqp, ?_⟩
        · rw [roots, hsplit, picks_append]
          exact mem_picks_of_mem hq
        · intro hcycle
          rcases mem_or_mem_of_mem_picks hq with hqb | hqs
          · exact ((hbase q).mp hqb).2 hcycle.parent
          · exact hnone ⟨q, hcycle, hqp, lt_of_mem hl hsplit hqs⟩
      · refine ⟨p, ?_, Relation.ReflTransGen.refl, hp⟩
        rw [roots, hsplit, picks_append, picks_cons_of_not hcov]
        exact mem_picks_of_mem (List.mem_append_right _ (List.mem_singleton_self p))
    obtain ⟨y, hy⟩ := hc.parent
    obtain ⟨q', hq', hqc'⟩ := exists_mem_picks (Below r) (fun _ => Relation.ReflTransGen.refl) base
      (hmem y c hy).2
    have hne : q ≠ q' := by
      rintro rfl
      exact hqc (hc.of_below hr hqc')
    have hsymm : Std.Symm fun q p => ∀ x, ¬ (Below r q x ∧ Below r p x) :=
      ⟨fun _ _ h x hx => h x ⟨hx.2, hx.1⟩⟩
    exact hdisjoint.forall hq hq' hne p ⟨hqp, hqc'.trans hcp⟩
  · intro hfirst
    obtain ⟨new, heq, hsub⟩ := exists_picks_eq (Below r) base l
    refine List.Pairwise.imp_of_mem ?_ huncovered
    intro q p hq hp hqp x hx
    rcases Below.total hr hx.1 hx.2 with hpq | hcov
    swap
    · exact hqp hcov
    rcases split_of_mem_picks hq with hqb | ⟨s, t, hsplit, hnot⟩
    · -- a root without a parent is below nothing but itself
      rcases Relation.ReflTransGen.cases_tail hpq with heq | ⟨y, -, hy⟩
      · exact hqp (heq ▸ Relation.ReflTransGen.refl)
      · exact ((hbase q).mp hqb).2 ⟨y, hy⟩
    · have hql : q ∈ l := hsplit ▸ List.mem_append_right _ List.mem_cons_self
      rcases below_root_or_cycle (fun a b h => (hmem a b h).1) hql with
        ⟨b, hbl, hb, hbq⟩ | ⟨c, hc, hcq⟩
      · -- a root without a parent would have covered it
        exact hnot ⟨b, mem_picks_of_mem ((hbase b).mpr ⟨hbl, hb⟩), hbq⟩
      · have hqc : ¬ OnCycle r q := fun h => hqp (h.below hr hpq)
        obtain ⟨c', hc', hcq', hlt⟩ := hfirst c q hc hcq hqc
        obtain ⟨y, hy⟩ := hc'.parent
        have hcs : c' ∈ s := mem_of_lt hl hasymm hsplit (hmem y c' hy).2 hlt
        obtain ⟨q₀, hq₀, hcov⟩ := exists_mem_picks (Below r)
          (fun _ => Relation.ReflTransGen.refl) base hcs
        exact hnot ⟨q₀, hq₀, hcov.trans hcq'⟩

end Trees

/-! ### Families that swallow one another -/

section Families

variable {l : List α}

/-- The picks of a list by families. -/
noncomputable abbrev leads (r ok : α → α → Prop) (l : List α) : List α :=
  picks (Family r ok) [] l

/-- A pick that is in no other pick's family. -/
def Topmost (r ok : α → α → Prop) (l : List α) (d : α) : Prop :=
  d ∈ leads r ok l ∧ ∀ q ∈ leads r ok l, Family r ok q d → q = d

/-- A topmost pick reaches all that a pick in its family reaches. -/
def Nested (r ok : α → α → Prop) (l : List α) : Prop :=
  ∀ c ∈ leads r ok l, ∀ d, Topmost r ok l d → Family r ok d c →
    ∀ x, Family r ok c x → Family r ok d x

theorem Topmost.eq (hr : Relator.LeftUnique r) {d d' x : α} (hd : Topmost r ok l d)
    (hd' : Topmost r ok l d') (hx : Family r ok d x) (hx' : Family r ok d' x) : d = d' := by
  rcases Family.total hr hx hx' with h | h
  · exact (hd.2 d' hd'.1 h).symm
  · exact hd'.2 d hd.1 h

/-- Every pick is in the family of a topmost one, when families nest. -/
theorem exists_topmost (hnested : Nested r ok l) {c : α} (hc : c ∈ leads r ok l) :
    ∃ d, Topmost r ok l d ∧ Family r ok d c := by
  obtain ⟨s, t, hsplit⟩ := List.append_of_mem hc
  generalize hn : t.length = n
  induction n using Nat.strong_induction_on generalizing c s t with
  | _ n ih =>
    by_cases htop : Topmost r ok l c
    · exact ⟨c, htop, Family.refl c⟩
    · obtain ⟨p, hp, hpc, hne⟩ : ∃ p ∈ leads r ok l, Family r ok p c ∧ p ≠ c := by
        by_contra hnone
        refine htop ⟨hc, fun q hq hqc => ?_⟩
        by_contra hne
        exact hnone ⟨q, hq, hqc, hne⟩
      -- an earlier pick would have covered it, so the swallowing one comes later
      have hpairwise : (leads r ok l).Pairwise fun q p => ¬ Family r ok q p :=
        pairwise_picks List.Pairwise.nil
      have hpt : p ∈ t := by
        have hmem := hp
        rw [hsplit] at hpairwise hmem
        rcases List.mem_append.mp hmem with hs | ht
        · exact absurd hpc ((List.pairwise_append.mp hpairwise).2.2 p hs c List.mem_cons_self)
        · exact (List.mem_cons.mp ht).resolve_left hne
      obtain ⟨t₁, t₂, rfl⟩ := List.append_of_mem hpt
      have hlt : t₂.length < n := by
        rw [← hn]
        simp only [List.length_append, List.length_cons]
        omega
      obtain ⟨d, hd, hdp⟩ := ih t₂.length hlt hp (s ++ c :: t₁) t₂
        (by rw [hsplit]; simp) rfl
      exact ⟨d, hd, hnested p hp d hd hdp c hpc⟩

/-- **The topmost picks reach everything exactly when their families nest.** -/
theorem covered_iff (hr : Relator.LeftUnique r) (hmem : ∀ a b, r a b → a ∈ l ∧ b ∈ l) :
    (∀ x ∈ l, ∃ d, Topmost r ok l d ∧ Family r ok d x) ↔ Nested r ok l := by
  constructor
  · intro hcovered c hc d hd hdc x hcx
    have hxl : x ∈ l := by
      rcases Relation.ReflTransGen.cases_tail hcx with heq | ⟨y, -, hy⟩
      · exact heq ▸ (mem_or_mem_of_mem_picks hc).resolve_left List.not_mem_nil
      · exact (hmem y x hy.1).2
    obtain ⟨d', hd', hdx'⟩ := hcovered x hxl
    rcases Family.total hr hcx hdx' with hdc' | hcd'
    · rw [hd.eq hr hd' hdc hdc']
      exact hdx'
    · obtain rfl : c = d' := hd'.2 c hc hcd'
      obtain rfl : d = c := hd'.2 d hd.1 hdc
      exact hcx
  · intro hnested x hx
    obtain ⟨c, hc, hcx⟩ := exists_mem_picks (Family r ok) (fun p => Family.refl p) [] hx
    obtain ⟨d, hd, hdc⟩ := exists_topmost hnested hc
    exact ⟨d, hd, hnested c hc d hd hdc x hcx⟩

end Families

end Forest

end Taskman
