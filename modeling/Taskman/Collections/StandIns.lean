import Taskman.Collections.Forest

/-!
# Stand-ins for components without a root

In a graph with one parent, a component without a root has a cycle.  A greedy selection through a
list takes from it what comes before everything above it: the first element of the cycle, and what
hangs off the cycle and comes earlier still.  Sorted again, only those selected elements stay at the
top that nothing above them precedes.

* `Forest.StandsIn` : an element below a cycle that is listed before everything above it;
* `Forest.mem_roots_iff` : **the greedy selection takes the roots and the stand-ins**;
* `Forest.standsIn_within_iff` : what stands in for a part that is closed upwards stands in for the
  whole, and is in the part;
* `Forest.AtTop` : a selected element that nothing above it precedes;
* `Forest.one_per_component_iff` : **every component has one element at the top exactly when the
  stand-in on a cycle precedes those that hang off it**.
-/

namespace Taskman

namespace Forest

variable {α : Type*} {r : α → α → Prop} {l base : List α}

/-! ### Components -/

/-- In a graph with one parent, connected elements have a common ancestor. -/
theorem eqvGen_iff (hr : Relator.LeftUnique r) {a b : α} :
    Relation.EqvGen r a b ↔ ∃ z, Below r z a ∧ Below r z b := by
  constructor
  · intro h
    induction h with
    | rel a b hab => exact ⟨a, Relation.ReflTransGen.refl, Relation.ReflTransGen.single hab⟩
    | refl a => exact ⟨a, Relation.ReflTransGen.refl, Relation.ReflTransGen.refl⟩
    | symm a b _ ih =>
      obtain ⟨z, hza, hzb⟩ := ih
      exact ⟨z, hzb, hza⟩
    | trans a b c _ _ ih₁ ih₂ =>
      obtain ⟨y, hya, hyb⟩ := ih₁
      obtain ⟨z, hzb, hzc⟩ := ih₂
      rcases Below.total hr hyb hzb with hzy | hyz
      · exact ⟨z, hzy.trans hya, hzc⟩
      · exact ⟨y, hya, hyz.trans hzc⟩
  · rintro ⟨z, hza, hzb⟩
    have hup : ∀ {x}, Below r z x → Relation.EqvGen r z x := by
      intro x hx
      induction hx with
      | refl => exact Relation.EqvGen.refl z
      | tail _ hstep ih => exact ih.trans _ _ _ (Relation.EqvGen.rel _ _ hstep)
    exact ((hup hza).symm _ _).trans _ _ _ (hup hzb)

theorem Below.eqvGen (hr : Relator.LeftUnique r) {a b : α} (h : Below r a b) :
    Relation.EqvGen r a b :=
  (eqvGen_iff hr).mpr ⟨a, Relation.ReflTransGen.refl, h⟩

/-! ### What is listed first -/

/-- What comes before everything above it. -/
def ListedFirst (r : α → α → Prop) (l : List α) (p : α) : Prop :=
  ∃ s t, l = s ++ p :: t ∧ ∀ q ∈ s, ¬ Below r q p

theorem ListedFirst.mem {p : α} (h : ListedFirst r l p) : p ∈ l := by
  obtain ⟨s, t, rfl, -⟩ := h
  simp

/-- Of two elements that are above each other only one can be listed first. -/
theorem ListedFirst.eq {a b : α} (ha : ListedFirst r l a) (hb : ListedFirst r l b)
    (hab : Below r a b) (hba : Below r b a) : a = b := by
  obtain ⟨s, t, rfl, hs⟩ := ha
  obtain ⟨s', t', hsplit, hs'⟩ := hb
  rcases List.append_eq_append_iff.mp hsplit with ⟨as, rfl, heq⟩ | ⟨cs, rfl, heq⟩
  · cases as with
    | nil => exact (List.cons.inj heq).1
    | cons x as =>
      obtain rfl : a = x := (List.cons.inj heq).1
      exact absurd hab (hs' a (by simp))
  · cases cs with
    | nil => exact (List.cons.inj heq).1.symm
    | cons x cs =>
      obtain rfl : b = x := (List.cons.inj heq).1
      exact absurd hba (hs b (by simp))

/-- The first element of a list with a property. -/
theorem exists_first {P : α → Prop} (h : ∃ x ∈ l, P x) :
    ∃ s x t, l = s ++ x :: t ∧ P x ∧ ∀ y ∈ s, ¬ P y := by
  induction l with
  | nil => simp at h
  | cons a l ih =>
    by_cases ha : P a
    · exact ⟨[], a, l, rfl, ha, by simp⟩
    · obtain ⟨x, hx, hpx⟩ := h
      have hne : x ≠ a := fun heq => ha (heq ▸ hpx)
      obtain ⟨s, y, t, rfl, hy, hs⟩ := ih ⟨x, (List.mem_cons.mp hx).resolve_left hne, hpx⟩
      refine ⟨a :: s, y, t, rfl, hy, ?_⟩
      simpa [ha] using hs

/-- What is listed first below a cycle. -/
structure StandsIn (r : α → α → Prop) (l : List α) (p : α) : Prop where
  cyclic : ∃ c, OnCycle r c ∧ Below r c p
  first : ListedFirst r l p

theorem OnCycle.mem (hmem : ∀ a b, r a b → a ∈ l ∧ b ∈ l) {c : α} (hc : OnCycle r c) : c ∈ l := by
  obtain ⟨y, hy⟩ := hc.parent
  exact (hmem y c hy).2

theorem exists_standsIn (hr : Relator.LeftUnique r) (hmem : ∀ a b, r a b → a ∈ l ∧ b ∈ l) {c : α}
    (hc : OnCycle r c) : ∃ c', StandsIn r l c' ∧ OnCycle r c' ∧ Below r c' c := by
  obtain ⟨s, x, t, hsplit, hx, hs⟩ := exists_first (P := fun x => Below r x c)
    ⟨c, hc.mem hmem, Relation.ReflTransGen.refl⟩
  have hcycle : OnCycle r x := hc.of_below hr hx
  exact ⟨x, ⟨⟨x, hcycle, Relation.ReflTransGen.refl⟩, s, t, hsplit,
    fun q hq hqx => hs q hq (hqx.trans hx)⟩, hcycle, hx⟩

theorem StandsIn.parent {p : α} (h : StandsIn r l p) : ∃ y, r y p := by
  obtain ⟨c, hc, hcp⟩ := h.cyclic
  rcases Relation.ReflTransGen.cases_tail hcp with rfl | ⟨y, -, hy⟩
  · exact hc.parent
  · exact ⟨y, hy⟩

/-! ### A part that is closed upwards -/

section Within

variable {keep : α → Bool} (hup : ∀ a b, r a b → keep b = true → keep a = true)

include hup

theorem keep_of_below {a b : α} (h : Below r a b) (hb : keep b = true) : keep a = true := by
  induction h with
  | refl => exact hb
  | tail _ hstep ih => exact ih (hup _ _ hstep hb)

theorem below_within_iff {a b : α} (hb : keep b = true) :
    Below (fun a b => r a b ∧ keep b = true) a b ↔ Below r a b := by
  refine ⟨Relation.ReflTransGen.mono (fun _ _ h => h.1) a b, fun h => ?_⟩
  induction h with
  | refl => exact Relation.ReflTransGen.refl
  | tail _ hstep ih => exact (ih (hup _ _ hstep hb)).tail ⟨hstep, hb⟩

theorem onCycle_within_iff {c : α} :
    OnCycle (fun a b => r a b ∧ keep b = true) c ↔ OnCycle r c ∧ keep c = true := by
  constructor
  · intro hc
    obtain ⟨_, hparent⟩ := hc.parent
    exact ⟨Relation.TransGen.mono (fun _ _ h => h.1) c c hc, hparent.2⟩
  · rintro ⟨hc, hkeep⟩
    obtain ⟨y, hcy, hyc⟩ := Relation.TransGen.tail'_iff.mp hc
    exact Relation.TransGen.tail' ((below_within_iff hup (hup y c hyc hkeep)).mpr hcy) ⟨hyc, hkeep⟩

theorem listedFirst_within_iff {p : α} :
    ListedFirst (fun a b => r a b ∧ keep b = true) (l.filter keep) p ↔
      ListedFirst r l p ∧ keep p = true := by
  constructor
  · intro h
    have hp : keep p = true := (List.mem_filter.mp h.mem).2
    obtain ⟨s, t, hsplit, hs⟩ := h
    obtain ⟨l₁, l₂, rfl, rfl, hrest⟩ := List.filter_eq_append_iff.mp hsplit
    obtain ⟨l₃, l₄, rfl, hl₃, -, -⟩ := List.filter_eq_cons_iff.mp hrest
    refine ⟨⟨l₁ ++ l₃, l₄, by simp, fun q hq hqp => ?_⟩, hp⟩
    have hkeep : keep q = true := keep_of_below hup hqp hp
    rcases List.mem_append.mp hq with hq | hq
    · exact hs q (List.mem_filter.mpr ⟨hq, hkeep⟩) ((below_within_iff hup hp).mpr hqp)
    · exact hl₃ q hq hkeep
  · rintro ⟨⟨s, t, rfl, hs⟩, hp⟩
    refine ⟨s.filter keep, t.filter keep, by simp [hp], fun q hq hqp => ?_⟩
    exact hs q (List.mem_filter.mp hq).1 ((below_within_iff hup hp).mp hqp)

/-- **What stands in for a part that is closed upwards stands in for the whole, and is in the
part.** -/
theorem standsIn_within_iff {p : α} :
    StandsIn (fun a b => r a b ∧ keep b = true) (l.filter keep) p ↔
      StandsIn r l p ∧ keep p = true := by
  constructor
  · rintro ⟨⟨c, hc, hcp⟩, hfirst⟩
    obtain ⟨hfirst, hp⟩ := (listedFirst_within_iff hup).mp hfirst
    exact ⟨⟨⟨c, ((onCycle_within_iff hup).mp hc).1, (below_within_iff hup hp).mp hcp⟩, hfirst⟩, hp⟩
  · rintro ⟨⟨⟨c, hc, hcp⟩, hfirst⟩, hp⟩
    exact ⟨⟨c, (onCycle_within_iff hup).mpr ⟨hc, keep_of_below hup hcp hp⟩,
      (below_within_iff hup hp).mpr hcp⟩, (listedFirst_within_iff hup).mpr ⟨hfirst, hp⟩⟩

end Within

/-! ### The greedy selection -/

/-- A greedy selection takes what was picked, and what nothing before it covers. -/
theorem mem_picks_iff {covers : α → α → Prop} (hrefl : ∀ p, covers p p)
    (htrans : ∀ p q x, covers p q → covers q x → covers p x) {picked : List α} {p : α} :
    p ∈ picks covers picked l ↔
      p ∈ picked ∨ ∃ s t, l = s ++ p :: t ∧ ∀ q ∈ picked ++ s, ¬ covers q p := by
  constructor
  · intro h
    refine (split_of_mem_picks h).imp_right ?_
    rintro ⟨s, t, hsplit, hnot⟩
    refine ⟨s, t, hsplit, fun q hq hqp => ?_⟩
    rcases List.mem_append.mp hq with hq | hq
    · exact hnot ⟨q, mem_picks_of_mem hq, hqp⟩
    · obtain ⟨x, hx, hxq⟩ := exists_mem_picks _ hrefl picked hq
      exact hnot ⟨x, hx, htrans x q p hxq hqp⟩
  · rintro (h | ⟨s, t, rfl, hnot⟩)
    · exact mem_picks_of_mem h
    · rw [picks_append, picks_cons_of_not]
      · exact mem_picks_of_mem (by simp)
      · rintro ⟨q, hq, hqp⟩
        exact hnot q (List.mem_append.mpr (mem_or_mem_of_mem_picks hq)) hqp

theorem picks_eq_self {covers : α → α → Prop} {picked l : List α}
    (h : ∀ p ∈ l, ∃ q ∈ picked, covers q p) : picks covers picked l = picked := by
  induction l with
  | nil => rfl
  | cons p l ih =>
    rw [picks_cons_of_covered (h p (by simp))]
    exact ih fun q hq => h q (by simp [hq])

/-- An element of a list that nothing above it precedes. -/
def AtTop (r : α → α → Prop) (rs : List α) (p : α) : Prop :=
  ∃ done rest, rs = done ++ p :: rest ∧ ∀ q ∈ done, ¬ Below r q p

theorem AtTop.mem {rs : List α} {p : α} (h : AtTop r rs p) : p ∈ rs := by
  obtain ⟨done, rest, rfl, -⟩ := h
  simp

/-- In a sorted list, nothing smaller is above what is at the top. -/
theorem atTop_iff {rs : List α} {lt : α → α → Prop} (hsorted : rs.Pairwise lt)
    (hasymm : ∀ a b, lt a b → ¬ lt b a) {p : α} :
    AtTop r rs p ↔ p ∈ rs ∧ ∀ q ∈ rs, lt q p → ¬ Below r q p := by
  constructor
  · intro h
    refine ⟨h.mem, fun q hq hlt => ?_⟩
    obtain ⟨done, rest, hsplit, hnot⟩ := h
    exact hnot q (mem_of_lt hsorted hasymm hsplit hq hlt)
  · rintro ⟨hp, hnot⟩
    obtain ⟨done, rest, hsplit⟩ := List.append_of_mem hp
    exact ⟨done, rest, hsplit, fun q hq =>
      hnot q (hsplit ▸ List.mem_append_left _ hq) (lt_of_mem hsorted hsplit hq)⟩

section Roots

variable (hr : Relator.LeftUnique r) (hmem : ∀ a b, r a b → a ∈ l ∧ b ∈ l)
  (hbase : ∀ x, x ∈ base ↔ x ∈ l ∧ ¬ ∃ y, r y x)

include hr hmem hbase

/-- **The greedy selection takes the roots and the stand-ins.** -/
theorem mem_roots_iff {p : α} : p ∈ roots r base l ↔ p ∈ base ∨ StandsIn r l p := by
  rw [roots, mem_picks_iff (fun _ => Relation.ReflTransGen.refl) fun _ _ _ => .trans]
  refine or_congr_right ⟨?_, ?_⟩
  · rintro ⟨s, t, hsplit, hnot⟩
    refine ⟨?_, s, t, hsplit, fun q hq => hnot q (List.mem_append_right _ hq)⟩
    have hp : p ∈ l := by simp [hsplit]
    refine (below_root_or_cycle (fun a b h => (hmem a b h).1) hp).resolve_left ?_
    rintro ⟨b, hb, hroot, hbp⟩
    exact hnot b (List.mem_append_left _ ((hbase b).mpr ⟨hb, hroot⟩)) hbp
  · rintro ⟨⟨c, hc, hcp⟩, s, t, hsplit, hfirst⟩
    refine ⟨s, t, hsplit, fun q hq hqp => ?_⟩
    rcases List.mem_append.mp hq with hq | hq
    · -- a root is not above what a cycle is above
      have hroot := ((hbase q).mp hq).2
      rcases Below.total hr hcp hqp with hqc | hcq
      · exact hroot (hc.of_below hr hqc).parent
      · rcases Relation.ReflTransGen.cases_tail hcq with rfl | ⟨y, -, hy⟩
        · exact hroot hc.parent
        · exact hroot ⟨y, hy⟩
    · exact hfirst q hq hqp

theorem standsIn_of_mem {p : α} (hp : p ∈ roots r base l) (hparent : ∃ y, r y p) :
    StandsIn r l p :=
  ((mem_roots_iff hr hmem hbase).mp hp).resolve_left fun h => ((hbase p).mp h).2 hparent

theorem eq_of_below_standsIn {c q : α} (hc : StandsIn r l c) (hcycle : OnCycle r c)
    (hq : q ∈ roots r base l) (hqc : Below r q c) : q = c := by
  have hqcycle : OnCycle r q := hcycle.of_below hr hqc
  exact (standsIn_of_mem hr hmem hbase hq hqcycle.parent).first.eq hc.first hqc
    (hcycle.below hr hqc)

omit hr in
theorem roots_eq_base (hacyclic : ¬ ∃ c, OnCycle r c) : roots r base l = base := by
  refine picks_eq_self fun p hp => ?_
  obtain ⟨b, hb, hroot, hbp⟩ :=
    (below_root_or_cycle (fun a b h => (hmem a b h).1) hp).resolve_right fun ⟨c, hc, _⟩ =>
      hacyclic ⟨c, hc⟩
  exact ⟨b, (hbase b).mpr ⟨hb, hroot⟩, hbp⟩

/-! ### At the top -/

section Top

variable {rs : List α} {lt : α → α → Prop} (hrs : ∀ x, x ∈ rs ↔ x ∈ roots r base l)

include hrs

theorem atTop_of_standsIn (hnodup : rs.Nodup) {c : α} (hc : StandsIn r l c)
    (hcycle : OnCycle r c) : AtTop r rs c := by
  obtain ⟨done, rest, rfl⟩ :=
    List.append_of_mem ((hrs c).mpr ((mem_roots_iff hr hmem hbase).mpr (Or.inr hc)))
  refine ⟨done, rest, rfl, fun q hq hqc => ?_⟩
  have heq := eq_of_below_standsIn hr hmem hbase hc hcycle ((hrs q).mp (by simp [hq])) hqc
  exact (List.nodup_append.mp hnodup).2.2 q hq c (by simp) heq

/-- **Every component has one element at the top exactly when the stand-in on a cycle precedes
those that hang off it.** -/
theorem one_per_component_iff (hsorted : rs.Pairwise lt) (hasymm : ∀ a b, lt a b → ¬ lt b a) :
    (∀ a b, AtTop r rs a → AtTop r rs b → (∃ y, r y a) → (∃ y, r y b) →
      Relation.EqvGen r a b → a = b) ↔
      ∀ c t, StandsIn r l c → OnCycle r c → StandsIn r l t → ¬ OnCycle r t → Below r c t →
        lt c t := by
  have hnodup : rs.Nodup := by
    refine hsorted.imp ?_
    rintro a _ hab rfl
    exact hasymm a a hab hab
  have hmemRs : ∀ {x}, StandsIn r l x → x ∈ rs := fun {x} hx =>
    (hrs x).mpr ((mem_roots_iff hr hmem hbase).mpr (Or.inr hx))
  constructor
  · intro hone c t hc hcycle ht hoff hct
    have hne : c ≠ t := fun heq => hoff (heq ▸ hcycle)
    by_contra hlt
    have htc : lt t c := by
      have hpair : rs.Pairwise fun x y => lt x y ∨ lt y x := hsorted.imp Or.inl
      have hsymm : Std.Symm fun x y : α => lt x y ∨ lt y x := ⟨fun _ _ h => h.symm⟩
      exact (hpair.forall (hmemRs hc) (hmemRs ht) hne).resolve_left hlt
    -- the first selected element above `t` is at the top, and it is not `c`
    obtain ⟨s, x, rest, hsplit, hxt, hs⟩ := exists_first (P := fun x => Below r x t)
      ⟨t, hmemRs ht, Relation.ReflTransGen.refl⟩
    have htop : AtTop r rs x := ⟨s, rest, hsplit, fun q hq hqx => hs q hq (hqx.trans hxt)⟩
    have hxc : x ≠ c := by
      rintro rfl
      have htmem := hmemRs ht
      rw [hsplit] at htmem hsorted
      rcases List.mem_append.mp htmem with hts | hrest
      · exact hs t hts Relation.ReflTransGen.refl
      · have hxt' := (List.mem_cons.mp hrest).resolve_left (Ne.symm hne)
        exact hlt ((List.pairwise_cons.mp (List.pairwise_append.mp hsorted).2.1).1 t hxt')
    have hparent : (∃ y, r y x) ∧ Relation.EqvGen r x c := by
      rcases Below.total hr hxt hct with hcx | hxc'
      · refine ⟨?_, (hcx.eqvGen hr).symm _ _⟩
        rcases Relation.ReflTransGen.cases_tail hcx with heq | ⟨y, -, hy⟩
        · exact absurd heq hxc
        · exact ⟨y, hy⟩
      · exact ⟨(hcycle.of_below hr hxc').parent, hxc'.eqvGen hr⟩
    exact hxc (hone x c htop (atTop_of_standsIn hr hmem hbase hrs hnodup hc hcycle) hparent.1
      hc.parent hparent.2)
  · intro hfirst a b ha hb hpa hpb hab
    have hcycle : ∀ {x}, AtTop r rs x → (∃ y, r y x) → StandsIn r l x ∧ OnCycle r x := by
      intro x hx hparent
      have hstands := standsIn_of_mem hr hmem hbase ((hrs x).mp hx.mem) hparent
      refine ⟨hstands, ?_⟩
      by_contra hoff
      obtain ⟨c, hc, hcx⟩ := hstands.cyclic
      obtain ⟨c', hc', hcycle', hcc'⟩ := exists_standsIn hr hmem hc
      have hlt := hfirst c' x hc' hcycle' hstands hoff (hcc'.trans hcx)
      obtain ⟨done, rest, hsplit, hnot⟩ := hx
      have hmem' : c' ∈ done := mem_of_lt hsorted hasymm hsplit (hmemRs hc') hlt
      exact hnot c' hmem' (hcc'.trans hcx)
    obtain ⟨hsa, hca⟩ := hcycle ha hpa
    obtain ⟨hsb, hcb⟩ := hcycle hb hpb
    obtain ⟨z, hza, hzb⟩ := (eqvGen_iff hr).mp hab
    exact hsa.first.eq hsb.first ((hca.below hr hza).trans hzb) ((hcb.below hr hzb).trans hza)

end Top

end Roots

end Forest

end Taskman
