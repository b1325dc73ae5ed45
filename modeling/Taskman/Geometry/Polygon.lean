import Taskman.Geometry.Triangle
import Mathlib.Data.List.Chain
import Mathlib.Data.List.Permutation
import Mathlib.Data.List.Rotate
import Mathlib.Data.List.Triplewise

/-!
# Convex polygons as fans

A convex polygon is cut into the triangles between one of its corners and its other edges.  Corners
on a straight line with their neighbours are allowed.

* `Polygon.fan` : the triangles between a corner and the edges of a chain of corners;
* `Polygon.Convex`, `Polygon.Inside` : the corners of a convex polygon, and the points strictly
  inside;
* `Polygon.IsFan` : its triangles, from any corner, in any order and with any winding;
* `Polygon.countP_covers_fan` : **a point strictly inside a convex polygon is owned by exactly one
  triangle of every fan**.
-/

namespace Polygon

open Point

variable {R : Type*} [CommRing R] [LinearOrder R]

/-- The triangles between a corner and the edges of a chain of corners. -/
def fan (a : Point R) : List (Point R) → List (Point R × Point R × Point R)
  | u :: v :: rest => (a, u, v) :: fan a (v :: rest)
  | _ => []

/-- The corners of a convex polygon, in either direction. -/
def Convex (corners : List (Point R)) : Prop :=
  corners.Nodup ∧ (corners.Triplewise (fun u v w => 0 ≤ orient u v w) ∨
    corners.Triplewise fun u v w => orient u v w ≤ 0)

/-- The point is on one side of all edges. -/
def Inside (corners : List (Point R)) (p : Point R) : Prop :=
  (corners ++ corners.take 1).IsChain (fun u v => 0 < orient u v p) ∨
    (corners ++ corners.take 1).IsChain fun u v => orient u v p < 0

section Chain

variable [IsStrictOrderedRing R] {a b u v w z p : Point R}

/-- The edges into and out of the corner of a fan divide the points. -/
theorem wins_reverse (hne : v ≠ a) : Wins v a p ↔ ¬ Wins a v p := by
  have hdir : v.x - a.x ≠ 0 ∨ v.y - a.y ≠ 0 := by
    by_contra hboth
    rw [not_or, not_ne_iff, not_ne_iff] at hboth
    exact hne (Point.ext (sub_eq_zero.mp hboth.1) (sub_eq_zero.mp hboth.2))
  unfold Wins
  rw [orient_swap, ← neg_sub v.x, ← neg_sub v.y, isTopLeft_neg hdir]
  rcases lt_trichotomy (orient a v p) 0 with hs | hs | hs
  · refine iff_of_true (.inl (neg_pos.mpr hs)) ?_
    rintro (hpos | ⟨hzero, -⟩)
    · exact hs.not_gt hpos
    · exact hs.ne hzero
  · simp [hs]
  · refine iff_of_false ?_ (not_not.mpr (.inl hs))
    rintro (hneg | ⟨hzero, -⟩)
    · exact hs.not_gt (neg_pos.mp hneg)
    · exact hs.ne' (neg_eq_zero.mp hzero)

/-- A triangle of a fan owns a point inside if its first edge wins it and its last does not. -/
theorem covers_iff_wins_fan (hne : v ≠ a) (harea : 0 ≤ orient a u v) (hedge : 0 < orient u v p) :
    Covers a u v p ↔ Wins a u p ∧ ¬ Wins a v p := by
  rcases harea.lt_or_eq with hpos | hzero
  · rw [covers_iff_wins hpos, wins_reverse hne]
    exact and_congr_right fun _ => and_iff_right (.inl hedge)
  · refine iff_of_false (not_covers_of_orient_eq_zero hzero.symm) ?_
    rintro ⟨hu, hv⟩
    have hadd := orient_add a u v p
    have hu' := hu.nonneg
    have hv' : 0 ≤ orient v a p := ((wins_reverse hne).mpr hv).nonneg
    linarith

theorem eq_of_orient_eq_zero (hb : 0 < orient a b p) (hbu : orient a b u = 0)
    (hup : orient a u p = 0) : u = a := by
  have hx := orient_mul_sub_x a b p u
  have hy := orient_mul_sub_y a b p u
  rw [hbu, hup, zero_mul, zero_mul, add_zero] at hx hy
  exact Point.ext (sub_eq_zero.mp ((mul_eq_zero.mp hx).resolve_left hb.ne'))
    (sub_eq_zero.mp ((mul_eq_zero.mp hy).resolve_left hb.ne'))

/-- Where a fan wins a point again, its corner is on the line of four others. -/
theorem line_of_rise (hua : u ≠ a) (hva : v ≠ a) (hb : 0 < orient a b p)
    (hbu : 0 ≤ orient a b u) (hbv : 0 ≤ orient a b v)
    (huz : 0 ≤ orient a u z) (hvz : 0 ≤ orient a v z) (harea : 0 ≤ orient a u v)
    (hedge : 0 < orient u v p) (hv : Wins a v p) (hu : ¬ Wins a u p) :
    orient a u p < 0 ∧ 0 < orient a v p ∧ orient a b u = 0 ∧ orient a b v = 0 ∧
      orient a v z = 0 := by
  have hv0 := hv.nonneg
  have hu0 : orient a u p ≤ 0 := not_lt.mp fun hpos => hu (.inl hpos)
  have hfirst := orient_mul_orient a b p u v
  have hlast := orient_mul_orient a z p u v
  have hadd := orient_add a u v p
  rw [orient_swap a v p] at hadd
  rw [orient_swap_right a v z, orient_swap_right a u z, neg_mul, neg_mul, sub_neg_eq_add] at hlast
  have hbv' := mul_nonpos_of_nonneg_of_nonpos hbv hu0
  have hbu' := mul_nonneg hbu hv0
  have hvz' := mul_nonpos_of_nonneg_of_nonpos hvz hu0
  have huz' := mul_nonneg huz hv0
  -- the signs of the other products of the first identity leave no area at `a`, `u` and `v`
  have hflat : orient a u v = 0 := by
    have hle : orient a b p * orient a u v ≤ 0 := by linarith
    refine le_antisymm ?_ harea
    by_contra hpos
    exact hle.not_gt (mul_pos hb (not_le.mp hpos))
  rw [hflat, mul_zero] at hfirst hlast
  have hbv0 : orient a b v * orient a u p = 0 := by linarith
  have hbu0 : orient a b u * orient a v p = 0 := by linarith
  have hvz0 : orient a v z * orient a u p = 0 := by linarith
  have hu1 : orient a u p ≠ 0 := fun hzero => by
    rcases mul_eq_zero.mp hbu0 with hline | hzero'
    · exact hua (eq_of_orient_eq_zero hb hline hzero)
    · rw [hzero, hzero'] at hadd
      linarith
  have hv1 : orient a v p ≠ 0 := fun hzero => by
    rcases mul_eq_zero.mp hbv0 with hline | hzero'
    · exact hva (eq_of_orient_eq_zero hb hline hzero)
    · exact hu1 hzero'
  exact ⟨lt_of_le_of_ne hu0 hu1, lt_of_le_of_ne hv0 hv1.symm,
    (mul_eq_zero.mp hbu0).resolve_right hv1, (mul_eq_zero.mp hbv0).resolve_right hu1,
    (mul_eq_zero.mp hvz0).resolve_right hu1⟩

/-- Corners on the line through the first edge see the point at growing distance. -/
theorem orient_lt_of_line (hb : 0 < orient a b p) (hbu : orient a b u = 0)
    (hbv : orient a b v = 0) (hedge : 0 < orient u v p) : orient a u p < orient a v p := by
  have hflat : orient a u v = 0 := by
    have hmul := orient_mul_orient a b p u v
    rw [hbu, hbv, zero_mul, zero_mul, sub_zero] at hmul
    exact (mul_eq_zero.mp hmul).resolve_left hb.ne'
  have hadd := orient_add a u v p
  rw [orient_swap a v p, hflat] at hadd
  linarith

/-- A corner off that line is on the wrong side of two corners on it. -/
theorem orient_neg_of_line (hb : 0 < orient a b p) (hz : orient a z p < 0)
    (hv : 0 < orient a v p) (hbv : orient a b v = 0) (hvz : orient a v z = 0)
    (hbw : 0 < orient a b w) : orient w v z < 0 := by
  have hbz : orient a b z = 0 := by
    have hmul := orient_mul_orient a b p v z
    rw [hvz, hbv, mul_zero, zero_mul, sub_zero] at hmul
    exact (mul_eq_zero.mp hmul.symm).resolve_right hv.ne'
  have hwv := orient_mul_orient a b p w v
  have hwz := orient_mul_orient a b p w z
  have hadd := orient_add w v z a
  rw [hbv, zero_mul, zero_sub] at hwv
  rw [hbz, zero_mul, zero_sub] at hwz
  rw [orient_rotate, orient_rotate a v z, hvz, add_zero, orient_rotate a z w,
    orient_swap_right a w z] at hadd
  have hmul : orient a b p * orient w v z < 0 := by
    calc orient a b p * orient w v z
        = orient a b p * orient a w v - orient a b p * orient a w z := by rw [← hadd]; ring
      _ = orient a b w * (orient a z p - orient a v p) := by rw [hwv, hwz]; ring
      _ < 0 := mul_neg_of_pos_of_neg hbw (by linarith)
  exact neg_of_mul_neg_right hmul hb.le

/-- Along the corners of a convex polygon a fan does not win a point again. -/
theorem isChain_wins {t : List (Point R)} (ha : a ∉ t) (hb : ∀ b ∈ t.head?, 0 < orient a b p)
    (hz : ∀ z ∈ t.getLast?, orient a z p < 0) (hpair : t.Pairwise fun u v => 0 ≤ orient a u v)
    (htriple : t.Triplewise fun u v w => 0 ≤ orient u v w)
    (hedge : t.IsChain fun u v => 0 < orient u v p) :
    t.IsChain fun u v => Wins a v p → Wins a u p := by
  rw [List.isChain_iff_getElem] at hedge ⊢
  rw [List.pairwise_iff_getElem] at hpair
  rw [List.triplewise_iff_getElem] at htriple
  intro i hi hv
  by_contra hu
  have hne : ∀ j (hj : j < t.length), t[j] ≠ a := fun j hj heq => ha (heq ▸ List.getElem_mem hj)
  have hb0 : (0 : R) < orient a t[0] p := hb t[0] (by simp [List.head?_eq_getElem?])
  have hz0 : orient a t[t.length - 1] p < 0 := hz _ (by simp [List.getLast?_eq_getElem?])
  have hfirst : ∀ j (hj : j < t.length), (0 : R) ≤ orient a t[0] t[j] := by
    intro j hj
    rcases Nat.eq_zero_or_pos j with rfl | hpos
    · exact (orient_right a _).ge
    · exact hpair 0 j (by omega) hj hpos
  have hlast : ∀ j (hj : j < t.length), (0 : R) ≤ orient a t[j] t[t.length - 1] := by
    intro j hj
    rcases (show j ≤ t.length - 1 by omega).lt_or_eq with hlt | rfl
    · exact hpair j _ hj (by omega) hlt
    · rw [orient_right]
  obtain ⟨hus, hvs, hbu, hbv, hvz⟩ := line_of_rise (hne i _) (hne (i + 1) hi) hb0
    (hfirst i _) (hfirst (i + 1) hi) (hlast i _) (hlast (i + 1) hi)
    (hpair i (i + 1) (by omega) hi (by omega)) (hedge i hi) hv hu
  have hend : i + 1 < t.length - 1 := by
    by_contra hge
    have heq : i + 1 = t.length - 1 := by omega
    simp only [heq] at hvs
    exact hvs.not_gt hz0
  -- All corners up to this one are on the line, along which the distance grows.
  have hline : ∀ j (hj : j ≤ i), orient a t[0] t[j] = (0 : R) := by
    intro j hj
    by_contra hoff
    have hw : (0 : R) < orient a t[0] t[j] := lt_of_le_of_ne (hfirst j (by omega)) (Ne.symm hoff)
    have hneg := orient_neg_of_line hb0 hz0 hvs hbv hvz hw
    exact hneg.not_ge (htriple j (i + 1) (t.length - 1) (by omega) hend (by omega))
  have hpos : ∀ j (hj : j ≤ i), 0 < orient a t[j] p := by
    intro j
    induction j with
    | zero => exact fun _ => hb0
    | succ j ih =>
      intro hj
      exact (ih (by omega)).trans
        (orient_lt_of_line hb0 (hline j (by omega)) (hline (j + 1) hj) (hedge j (by omega)))
  exact hus.not_gt (hpos i le_rfl)

omit [IsStrictOrderedRing R] in
/-- Where every triangle owns the points won at its first edge and not at its last. -/
theorem countP_fan {t : List (Point R)} (hlast : ∀ z ∈ (b :: t).getLast?, ¬ Wins a z p)
    (hchain : (b :: t).IsChain fun u v => (Covers a u v p ↔ Wins a u p ∧ ¬ Wins a v p) ∧
      (Wins a v p → Wins a u p)) :
    (fan a (b :: t)).countP (fun f => Covers f.1 f.2.1 f.2.2 p) =
      if Wins a b p then 1 else 0 := by
  induction t generalizing b with
  | nil =>
    have hb : ¬ Wins a b p := hlast b rfl
    rw [if_neg hb, fan, List.countP_nil]
    exact fun _ _ _ heq => by simp at heq
  | cons v t ih =>
    rw [List.isChain_cons_cons] at hchain
    obtain ⟨⟨hcover, hmono⟩, hchain⟩ := hchain
    rw [List.getLast?_cons_cons] at hlast
    rw [fan, List.countP_cons, ih hlast hchain]
    by_cases hv : Wins a v p
    · simp [hcover, hv, hmono hv]
    · simp [hcover, hv]

/-- The corners of a convex polygon wound so that no three of them turn back, and a point on the
positive side of its edges. -/
theorem countP_covers_fan_of_nonneg {t : List (Point R)} (hnodup : (a :: t).Nodup)
    (htriple : (a :: t).Triplewise fun u v w => 0 ≤ orient u v w)
    (hinside : (a :: t ++ [a]).IsChain fun u v => 0 < orient u v p) :
    (fan a t).countP (fun f => Covers f.1 f.2.1 f.2.2 p) = 1 := by
  cases t with
  | nil => simp at hinside
  | cons b t =>
    obtain ⟨hpair, htriple⟩ := List.triplewise_cons.mp htriple
    obtain ⟨hedges, -, hback⟩ := List.isChain_append.mp hinside
    obtain ⟨hb, hedges⟩ := List.isChain_cons_cons.mp hedges
    have ha : a ∉ b :: t := (List.nodup_cons.mp hnodup).1
    have hz : ∀ z ∈ (b :: t).getLast?, orient a z p < 0 := by
      intro z hz
      rw [← List.getLast?_cons_cons (a := a)] at hz
      have hpos := hback z hz a rfl
      rwa [orient_swap, neg_pos] at hpos
    have hrise := isChain_wins ha (by rintro _ ⟨⟩; exact hb) hz hpair htriple hedges
    rw [countP_fan, if_pos (.inl hb)]
    · intro z hz' hwins
      exact (hz z hz').not_ge hwins.nonneg
    · rw [List.isChain_iff_getElem] at hedges hrise ⊢
      rw [List.pairwise_iff_getElem] at hpair
      intro i hi
      have hne : (b :: t)[i + 1] ≠ a := fun heq => ha (heq ▸ List.getElem_mem hi)
      exact ⟨covers_iff_wins_fan hne (hpair i (i + 1) (by omega) hi (by omega)) (hedges i hi),
        hrise i hi⟩

/-- The edges of a convex polygon turn the way its corners do. -/
theorem not_inside_of_nonneg {t : List (Point R)}
    (htriple : (a :: t).Triplewise fun u v w => 0 ≤ orient u v w)
    (hinside : (a :: t ++ [a]).IsChain fun u v => orient u v p < 0) : False := by
  cases t with
  | nil => simp at hinside
  | cons b t =>
    obtain ⟨hpair, -⟩ := List.triplewise_cons.mp htriple
    obtain ⟨hedges, -, hback⟩ := List.isChain_append.mp hinside
    obtain ⟨hb, hedges⟩ := List.isChain_cons_cons.mp hedges
    have hz : 0 < orient a ((b :: t).getLast (by simp)) p := by
      have hneg := hback ((b :: t).getLast (by simp))
        (by simp [List.getLast?_eq_some_getLast]) a rfl
      rwa [orient_swap, neg_lt_zero] at hneg
    have hfall : (b :: t).IsChain fun u v => orient a v p < orient a u p := by
      rw [List.isChain_iff_getElem] at hedges ⊢
      rw [List.pairwise_iff_getElem] at hpair
      intro i hi
      have hadd := orient_add a (b :: t)[i] (b :: t)[i + 1] p
      rw [orient_swap a (b :: t)[i + 1] p] at hadd
      linarith [hpair i (i + 1) (by omega) hi (by omega), hedges i hi]
    have htrans : IsTrans (Point R) fun u v => orient a v p < orient a u p :=
      ⟨fun _ _ _ huv hvw => hvw.trans huv⟩
    have hle : orient a ((b :: t).getLast (by simp)) p ≤ orient a b p := by
      rcases List.mem_cons.mp (List.getLast_mem (l := b :: t) (by simp)) with heq | hmem
      · rw [heq]
      · exact ((List.pairwise_cons.mp hfall.pairwise).1 _ hmem).le
    exact (hz.trans_le hle).not_gt hb

end Chain

/-! ### Corners in another order -/

section Reverse

variable {a p : Point R} {t : List (Point R)}

omit [CommRing R] [LinearOrder R] in
theorem fan_append_pair (a u v : Point R) (l : List (Point R)) :
    fan a (l ++ [u, v]) = fan a (l ++ [u]) ++ [(a, u, v)] := by
  induction l with
  | nil => rfl
  | cons w l ih =>
    cases l with
    | nil => rfl
    | cons w' l =>
      simp only [List.cons_append, fan] at ih ⊢
      rw [ih]

/-- The fan of the corners in the other direction has the same triangles. -/
theorem countP_fan_reverse (a p : Point R) (t : List (Point R)) :
    (fan a t.reverse).countP (fun f => Covers f.1 f.2.1 f.2.2 p) =
      (fan a t).countP fun f => Covers f.1 f.2.1 f.2.2 p := by
  induction t with
  | nil => rfl
  | cons u t ih =>
    cases t with
    | nil => rfl
    | cons v t =>
      have hsame : Covers a v u p ↔ Covers a u v p := by
        rw [← covers_rotate, covers_swap, covers_rotate]
      have hsplit : fan a (u :: v :: t).reverse = fan a (v :: t).reverse ++ [(a, v, u)] := by
        rw [List.reverse_cons, List.reverse_cons, List.append_assoc, List.singleton_append,
          fan_append_pair]
      rw [hsplit, List.countP_append, ih, List.countP_singleton, fan, List.countP_cons]
      simp only [hsame]

omit [LinearOrder R] in
theorem orient_reverse (u v w : Point R) : orient w v u = -orient u v w := by
  rw [orient_swap, orient_rotate]

omit [LinearOrder R] in
theorem triplewise_reverse_tail {r : R → Prop}
    (h : (a :: t).Triplewise fun u v w => r (-orient u v w)) :
    (a :: t.reverse).Triplewise fun u v w => r (orient u v w) := by
  obtain ⟨hpair, htriple⟩ := List.triplewise_cons.mp h
  refine .cons ?_ ?_
  · rw [List.pairwise_reverse]
    exact hpair.imp fun {u v} huv => by rwa [orient_swap_right]
  · rw [List.triplewise_reverse]
    exact htriple.imp fun {u v w} huvw => by rwa [orient_reverse]

omit [LinearOrder R] in
theorem isChain_reverse_tail {r : R → Prop}
    (h : (a :: t ++ [a]).IsChain fun u v => r (-orient u v p)) :
    (a :: t.reverse ++ [a]).IsChain fun u v => r (orient u v p) := by
  have hrev : a :: t.reverse ++ [a] = (a :: t ++ [a]).reverse := by simp
  rw [hrev, List.isChain_reverse]
  exact h.imp fun u v huv => by rwa [orient_swap]

end Reverse

section Rotate

variable {a p : Point R} {t : List (Point R)}

theorem Convex.rotate_one (h : Convex (a :: t)) : Convex (t ++ [a]) := by
  have hturn : ∀ {r : R → Prop}, ((a :: t).Triplewise fun u v w => r (orient u v w)) →
      (t ++ [a]).Triplewise fun u v w => r (orient u v w) := by
    intro r htriple
    obtain ⟨hpair, htriple⟩ := List.triplewise_cons.mp htriple
    refine List.triplewise_append.mpr ⟨htriple, by simp, by simp, ?_⟩
    rintro b hb
    rw [List.mem_singleton.mp hb]
    exact hpair.imp fun {u v} huv => by rwa [orient_rotate]
  exact ⟨(List.perm_append_singleton a t).nodup_iff.mpr h.1,
    h.2.imp (hturn (r := (0 ≤ ·))) (hturn (r := (· ≤ 0)))⟩

theorem Inside.rotate_one (h : Inside (a :: t) p) : Inside (t ++ [a]) p := by
  have hturn : ∀ {r : R → Prop}, ((a :: t ++ [a]).IsChain fun u v => r (orient u v p)) →
      (t ++ [a] ++ (t ++ [a]).take 1).IsChain fun u v => r (orient u v p) := by
    intro r hchain
    cases t with
    | nil => exact hchain
    | cons b t =>
      obtain ⟨hb, hrest⟩ := List.isChain_cons_cons.mp hchain
      show ((b :: t ++ [a]) ++ [b]).IsChain fun u v => r (orient u v p)
      refine List.IsChain.append hrest (List.isChain_singleton b) ?_
      rintro u hu v ⟨⟩
      rw [List.getLast?_concat, Option.mem_some] at hu
      rwa [← hu]
  exact h.imp (hturn (r := (0 < ·))) (hturn (r := (· < 0)))

theorem Convex.rotate {corners : List (Point R)} (h : Convex corners) (k : ℕ) :
    Convex (corners.rotate k) := by
  induction k generalizing corners with
  | zero => rwa [List.rotate_zero]
  | succ k ih =>
    cases corners with
    | nil => rwa [List.rotate_nil]
    | cons a t =>
      rw [List.rotate_cons_succ]
      exact ih h.rotate_one

theorem Inside.rotate {corners : List (Point R)} (h : Inside corners p) (k : ℕ) :
    Inside (corners.rotate k) p := by
  induction k generalizing corners with
  | zero => rwa [List.rotate_zero]
  | succ k ih =>
    cases corners with
    | nil => rwa [List.rotate_nil]
    | cons a t =>
      rw [List.rotate_cons_succ]
      exact ih h.rotate_one

end Rotate

/-! ### Fans -/

/-- Triangles with the same corners, in any order. -/
def SameCorners (f g : Point R × Point R × Point R) : Prop :=
  [f.1, f.2.1, f.2.2].Perm [g.1, g.2.1, g.2.2]

/-- The triangles of a polygon fanned out from one of its corners, in any order and each with its
corners in any order. -/
def IsFan (corners : List (Point R)) (triangles : List (Point R × Point R × Point R)) : Prop :=
  ∃ k a t, corners.rotate k = a :: t ∧ ∃ fanned, fanned.Perm triangles ∧
    List.Forall₂ SameCorners fanned (fan a t)

theorem SameCorners.covers_iff {f g : Point R × Point R × Point R} {p : Point R}
    (h : SameCorners f g) : Covers f.1 f.2.1 f.2.2 p ↔ Covers g.1 g.2.1 g.2.2 p := by
  obtain ⟨a, b, c⟩ := f
  obtain ⟨x, y, z⟩ := g
  show Covers a b c p ↔ Covers x y z p
  have hperm := List.mem_permutations'.mpr h
  simp only [List.permutations', List.permutations'Aux, List.flatMap_cons, List.flatMap_nil,
    List.map_cons, List.map_nil, List.append_nil, List.cons_append, List.nil_append,
    List.mem_cons, List.cons.injEq, and_true, List.not_mem_nil, or_false] at hperm
  rcases hperm with ⟨rfl, rfl, rfl⟩ | ⟨rfl, rfl, rfl⟩ | ⟨rfl, rfl, rfl⟩ | ⟨rfl, rfl, rfl⟩ |
    ⟨rfl, rfl, rfl⟩ | ⟨rfl, rfl, rfl⟩
  · rfl
  · exact covers_swap
  · exact covers_rotate
  · rw [← covers_rotate, covers_swap]
    exact covers_rotate
  · exact covers_rotate.symm
  · rw [covers_swap, covers_rotate]

variable [IsStrictOrderedRing R]

/-- One corner of a convex polygon. -/
theorem countP_covers_apex {a p : Point R} {t : List (Point R)} (hconvex : Convex (a :: t))
    (hinside : Inside (a :: t) p) :
    (fan a t).countP (fun f => Covers f.1 f.2.1 f.2.2 p) = 1 := by
  obtain ⟨hnodup, htriple | htriple⟩ := hconvex
  · rcases hinside with hpos | hneg
    · exact countP_covers_fan_of_nonneg hnodup htriple hpos
    · exact (not_inside_of_nonneg htriple hneg).elim
  · -- In the other direction the corners turn the other way.
    have hnodup' : (a :: t.reverse).Nodup :=
      ((List.reverse_perm t).cons a).nodup_iff.mpr hnodup
    have htriple' : (a :: t.reverse).Triplewise fun u v w => 0 ≤ orient u v w :=
      triplewise_reverse_tail (htriple.imp fun huvw => neg_nonneg.mpr huvw)
    rw [← countP_fan_reverse]
    rcases hinside with hpos | hneg
    · refine (not_inside_of_nonneg (p := p) htriple' ?_).elim
      exact isChain_reverse_tail (r := (· < 0)) (hpos.imp fun _ _ huv => neg_lt_zero.mpr huv)
    · refine countP_covers_fan_of_nonneg hnodup' htriple' ?_
      exact isChain_reverse_tail (r := (0 < ·)) (hneg.imp fun _ _ huv => neg_pos.mpr huv)

/-- **A point strictly inside a convex polygon is owned by exactly one triangle of every fan.** -/
theorem countP_covers_fan {corners : List (Point R)} {p : Point R} (hconvex : Convex corners)
    (hinside : Inside corners p) {triangles : List (Point R × Point R × Point R)}
    (hfan : IsFan corners triangles) :
    triangles.countP (fun f => Covers f.1 f.2.1 f.2.2 p) = 1 := by
  obtain ⟨k, a, t, hrotate, fanned, hperm, hsame⟩ := hfan
  rw [← hperm.countP_eq]
  have hcount : fanned.countP (fun f => Covers f.1 f.2.1 f.2.2 p) =
      (fan a t).countP fun f => Covers f.1 f.2.1 f.2.2 p := by
    clear hperm hrotate
    generalize fan a t = cut at hsame ⊢
    induction hsame with
    | nil => rfl
    | cons hfg _ ih =>
      rw [List.countP_cons, List.countP_cons, ih, decide_eq_decide.mpr hfg.covers_iff]
  rw [hcount]
  have hconvex' := hconvex.rotate k
  have hinside' := hinside.rotate k
  rw [hrotate] at hconvex' hinside'
  exact countP_covers_apex hconvex' hinside'

end Polygon
