import Mathlib.Algebra.Order.Ring.Defs
import Mathlib.Tactic.Linarith
import Mathlib.Tactic.LinearCombination
import Mathlib.Tactic.Ring

/-!
# Triangles and the points they own

Points of a plane over an ordered ring, whose second coordinate grows downward.  A triangle owns the
points strictly inside and those on its top and left edges alone, so that triangles that meet own no
point together.

* `orient` : twice the signed area of a triangle, and the identities between such areas;
* `Point.Covers` : the triangle owns the point, in terms of its edges;
* `Point.Wins` : the test of one edge of a positively wound triangle;
* `Point.covers_iff_wins` : **a positively wound triangle owns the points that pass the tests of its
  three edges**;
* `Point.not_covers_of_opposite` : **triangles on opposite sides of a common edge own no point
  together**.
-/

/-- A point of the plane. -/
@[ext]
structure Point (R : Type*) where
  x : R
  y : R
  deriving DecidableEq

variable {R : Type*}

namespace Point

section Ring

variable [CommRing R] (a b c p u v : Point R)

/-- Twice the signed area of the triangle `a`, `b`, `p`. -/
def orient : R := (b.x - a.x) * (p.y - a.y) - (b.y - a.y) * (p.x - a.x)

theorem orient_rotate : orient b p a = orient a b p := by
  unfold orient
  ring

theorem orient_swap : orient b a p = -orient a b p := by
  unfold orient
  ring

theorem orient_swap_right : orient a p b = -orient a b p := by
  unfold orient
  ring

@[simp] theorem orient_left : orient a b a = 0 := by
  unfold orient
  ring

@[simp] theorem orient_right : orient a b b = 0 := by
  unfold orient
  ring

@[simp] theorem orient_same : orient a a p = 0 := by
  unfold orient
  ring

theorem orient_add : orient a b p + orient b c p + orient c a p = orient a b c := by
  unfold orient
  ring

theorem orient_mul_x :
    orient a b c * p.x = orient b c p * a.x + orient c a p * b.x + orient a b p * c.x := by
  unfold orient
  ring

theorem orient_mul_y :
    orient a b c * p.y = orient b c p * a.y + orient c a p * b.y + orient a b p * c.y := by
  unfold orient
  ring

theorem orient_mul_orient :
    orient a b p * orient a u v = orient a b v * orient a u p - orient a b u * orient a v p := by
  unfold orient
  ring

theorem orient_mul_sub_x :
    orient a b p * (u.x - a.x) = orient a u p * (b.x - a.x) + orient a b u * (p.x - a.x) := by
  unfold orient
  ring

theorem orient_mul_sub_y :
    orient a b p * (u.y - a.y) = orient a u p * (b.y - a.y) + orient a b u * (p.y - a.y) := by
  unfold orient
  ring

end Ring

/-! ### Edges -/

/-- The edges of a triangle, each with the corner that is not on it. -/
def edges (a b c : Point R) : List (Point R × Point R × Point R) :=
  [(a, b, c), (b, c, a), (c, a, b)]

theorem forall_mem_edges {a b c : Point R}
    {P : Point R × Point R × Point R → Prop} :
    (∀ e ∈ edges a b c, P e) ↔ P (a, b, c) ∧ P (b, c, a) ∧ P (c, a, b) := by
  simp [edges]

theorem exists_mem_edges {a b c : Point R}
    {P : Point R × Point R × Point R → Prop} :
    (∃ e ∈ edges a b c, P e) ↔ P (a, b, c) ∨ P (b, c, a) ∨ P (c, a, b) := by
  simp [edges]

section Order

variable [CommRing R] [LinearOrder R]

/-- The edge from `u` to `v` is the top of the triangle with the third corner `w`. -/
def IsTop (u v w : Point R) : Prop := u.y = v.y ∧ u.y < w.y

/-- The third corner `w` lies to the right of the edge from `u` to `v`. -/
def IsLeft (u v w : Point R) : Prop := (v.y - u.y) * orient u v w < 0

/-- The point is on the edge, its ends included. -/
structure OnEdge (u v p : Point R) : Prop where
  line : orient u v p = 0
  x : min u.x v.x ≤ p.x ∧ p.x ≤ max u.x v.x
  y : min u.y v.y ≤ p.y ∧ p.y ≤ max u.y v.y

/-- The point is on the side of every edge on which the triangle is. -/
def StrictlyInside (a b c p : Point R) : Prop :=
  ∀ e ∈ edges a b c, 0 < orient e.1 e.2.1 e.2.2 * orient e.1 e.2.1 p

/-- The triangle owns the point: it is strictly inside, or on a top or left edge and on no edge of
another kind. -/
def Covers (a b c p : Point R) : Prop :=
  StrictlyInside a b c p ∨
    (∃ e ∈ edges a b c, OnEdge e.1 e.2.1 p ∧
      (IsTop e.1 e.2.1 e.2.2 ∨ IsLeft e.1 e.2.1 e.2.2)) ∧
    ∀ e ∈ edges a b c, OnEdge e.1 e.2.1 p → IsTop e.1 e.2.1 e.2.2 ∨ IsLeft e.1 e.2.1 e.2.2

section Decidable

instance (u v p : Point R) : Decidable (OnEdge u v p) :=
  decidable_of_iff (orient u v p = 0 ∧ (min u.x v.x ≤ p.x ∧ p.x ≤ max u.x v.x) ∧
      min u.y v.y ≤ p.y ∧ p.y ≤ max u.y v.y)
    ⟨fun h => ⟨h.1, h.2.1, h.2.2⟩, fun h => ⟨h.line, h.x, h.y⟩⟩

instance (u v w : Point R) : Decidable (IsTop u v w) :=
  inferInstanceAs (Decidable (_ ∧ _))

instance (u v w : Point R) : Decidable (IsLeft u v w) :=
  inferInstanceAs (Decidable (_ < _))

instance (a b c p : Point R) : Decidable (StrictlyInside a b c p) :=
  inferInstanceAs (Decidable (∀ e ∈ edges a b c, _ < _))

instance (a b c p : Point R) : Decidable (Covers a b c p) :=
  inferInstanceAs (Decidable (_ ∨ _))

end Decidable

/-- A direction in which a positively wound triangle has a top or left edge. -/
def IsTopLeft (dx dy : R) : Prop := dy = 0 ∧ 0 < dx ∨ dy < 0

/-- The point is on the positive side of the edge, or on an edge that owns it. -/
def Wins (a b p : Point R) : Prop :=
  0 < orient a b p ∨ orient a b p = 0 ∧ IsTopLeft (b.x - a.x) (b.y - a.y)

section Corners

variable {a b c p : Point R}

theorem onEdge_swap : OnEdge b a p ↔ OnEdge a b p := by
  constructor
  · rintro ⟨hline, hx, hy⟩
    rw [orient_swap, neg_eq_zero] at hline
    exact ⟨hline, by rwa [min_comm, max_comm], by rwa [min_comm, max_comm]⟩
  · rintro ⟨hline, hx, hy⟩
    refine ⟨?_, by rwa [min_comm, max_comm], by rwa [min_comm, max_comm]⟩
    rw [orient_swap, hline, neg_zero]

omit [CommRing R] in
theorem isTop_swap : IsTop b a c ↔ IsTop a b c := by
  constructor
  · exact fun ⟨heq, hlt⟩ => ⟨heq.symm, heq ▸ hlt⟩
  · exact fun ⟨heq, hlt⟩ => ⟨heq.symm, heq ▸ hlt⟩

theorem isLeft_swap : IsLeft b a c ↔ IsLeft a b c := by
  have hmul : (a.y - b.y) * orient b a c = (b.y - a.y) * orient a b c := by
    rw [orient_swap]
    ring
  rw [IsLeft, IsLeft, hmul]

theorem covers_rotate : Covers b c a p ↔ Covers a b c p := by
  have hmem : ∀ e, e ∈ edges b c a ↔ e ∈ edges a b c := fun e =>
    (List.perm_append_singleton (a, b, c) [(b, c, a), (c, a, b)]).mem_iff
  simp only [Covers, StrictlyInside, hmem]

/-- The corners may be listed in the other direction. -/
theorem covers_swap : Covers b a c p ↔ Covers a b c p := by
  have hside : ∀ u v w : Point R, orient v u w * orient v u p = orient u v w * orient u v p :=
    fun u v w => by rw [orient_swap, orient_swap u v p, neg_mul_neg]
  have hkind : ∀ u v w : Point R, IsTop v u w ∨ IsLeft v u w ↔ IsTop u v w ∨ IsLeft u v w :=
    fun u v w => or_congr isTop_swap isLeft_swap
  unfold Covers StrictlyInside
  refine or_congr ?_ (and_congr ?_ ?_)
  · rw [forall_mem_edges, forall_mem_edges, hside a b c, hside c a b, hside b c a]
    exact and_congr_right fun _ => and_comm
  · rw [exists_mem_edges, exists_mem_edges]
    refine or_congr (and_congr onEdge_swap (hkind a b c)) ?_
    rw [or_comm]
    exact or_congr (and_congr onEdge_swap (hkind b c a)) (and_congr onEdge_swap (hkind c a b))
  · rw [forall_mem_edges, forall_mem_edges]
    refine and_congr (imp_congr onEdge_swap (hkind a b c)) ?_
    rw [and_comm]
    exact and_congr (imp_congr onEdge_swap (hkind b c a)) (imp_congr onEdge_swap (hkind c a b))

end Corners

variable [IsStrictOrderedRing R] {a b c p : Point R}

theorem isTopLeft_neg {dx dy : R} (h : dx ≠ 0 ∨ dy ≠ 0) :
    IsTopLeft (-dx) (-dy) ↔ ¬ IsTopLeft dx dy := by
  unfold IsTopLeft
  rcases lt_trichotomy dy 0 with hy | hy | hy
  · refine iff_of_false ?_ (not_not.mpr (.inr hy))
    rintro (⟨h0, -⟩ | h0) <;> linarith
  · subst hy
    have hx : dx ≠ 0 := h.resolve_right fun h0 => h0 rfl
    rcases lt_or_gt_of_ne hx with hx | hx
    · refine iff_of_true (.inl ⟨neg_zero, by linarith⟩) ?_
      rintro (⟨-, h0⟩ | h0) <;> linarith
    · refine iff_of_false ?_ (not_not.mpr (.inl ⟨rfl, hx⟩))
      rintro (⟨-, h0⟩ | h0) <;> linarith
  · refine iff_of_true (.inr (by linarith)) ?_
    rintro (⟨h0, -⟩ | h0) <;> linarith

/-- In a positively wound triangle the edges that own their points are the top and left ones. -/
theorem isTopLeft_iff (h : 0 < orient a b c) :
    IsTopLeft (b.x - a.x) (b.y - a.y) ↔ IsTop a b c ∨ IsLeft a b c := by
  unfold IsTopLeft IsTop IsLeft
  refine or_congr ?_ ?_
  · refine ⟨fun ⟨hy, hx⟩ => ?_, fun ⟨hy, hlow⟩ => ?_⟩
    · have hdir : 0 < (b.x - a.x) * (c.y - a.y) := by
        unfold orient at h
        rwa [hy, zero_mul, sub_zero] at h
      exact ⟨(sub_eq_zero.mp hy).symm, sub_pos.mp ((mul_pos_iff_of_pos_left hx).mp hdir)⟩
    · have hdy : b.y - a.y = 0 := sub_eq_zero.mpr hy.symm
      refine ⟨hdy, ?_⟩
      unfold orient at h
      rw [hdy, zero_mul, sub_zero] at h
      exact (mul_pos_iff_of_pos_right (sub_pos.mpr hlow)).mp h
  · refine ⟨fun hy => mul_neg_of_neg_of_pos hy h, fun hmul => lt_of_not_ge fun hy => ?_⟩
    exact absurd hmul (not_lt.mpr (mul_nonneg hy h.le))

/-- What balances two numbers is between them. -/
theorem between_of_balance {s t l r m n : R} (hs : 0 < s) (hsum : m + n = s)
    (hbalance : s * t = m * l + n * r) (hm : 0 ≤ m) (hn : 0 ≤ n) :
    min l r ≤ t ∧ t ≤ max l r := by
  constructor
  · refine le_of_mul_le_mul_left ?_ hs
    rw [hbalance, ← hsum, add_mul]
    exact add_le_add (mul_le_mul_of_nonneg_left (min_le_left l r) hm)
      (mul_le_mul_of_nonneg_left (min_le_right l r) hn)
  · refine le_of_mul_le_mul_left ?_ hs
    rw [hbalance, ← hsum, add_mul]
    exact add_le_add (mul_le_mul_of_nonneg_left (le_max_left l r) hm)
      (mul_le_mul_of_nonneg_left (le_max_right l r) hn)

/-- What is between two different numbers balances them with weights that are not negative. -/
theorem balance_of_between {s t l r m n : R} (hs : 0 < s) (hsum : m + n = s)
    (hbalance : s * t = m * l + n * r) (hlr : l ≠ r) (hlo : min l r ≤ t) (hhi : t ≤ max l r) :
    0 ≤ m ∧ 0 ≤ n := by
  have hm : m * (r - l) = s * (r - t) := by
    linear_combination hbalance + r * hsum
  have hn : n * (r - l) = s * (t - l) := by
    linear_combination -hbalance - l * hsum
  rcases lt_or_gt_of_ne hlr with hlt | hlt
  · rw [min_eq_left hlt.le] at hlo
    rw [max_eq_right hlt.le] at hhi
    constructor
    · refine nonneg_of_mul_nonneg_left ?_ (sub_pos.mpr hlt)
      rw [hm]
      exact mul_nonneg hs.le (sub_nonneg.mpr hhi)
    · refine nonneg_of_mul_nonneg_left ?_ (sub_pos.mpr hlt)
      rw [hn]
      exact mul_nonneg hs.le (sub_nonneg.mpr hlo)
  · rw [min_eq_right hlt.le] at hlo
    rw [max_eq_left hlt.le] at hhi
    have hm' : m * (l - r) = s * (t - r) := by linear_combination -hm
    have hn' : n * (l - r) = s * (l - t) := by linear_combination -hn
    constructor
    · refine nonneg_of_mul_nonneg_left ?_ (sub_pos.mpr hlt)
      rw [hm']
      exact mul_nonneg hs.le (sub_nonneg.mpr hlo)
    · refine nonneg_of_mul_nonneg_left ?_ (sub_pos.mpr hlt)
      rw [hn']
      exact mul_nonneg hs.le (sub_nonneg.mpr hhi)

/-- A point on the line of an edge and not beyond the other edges is on the edge. -/
theorem onEdge_of_orient (h : 0 < orient a b c) (hab : orient a b p = 0)
    (hbc : 0 ≤ orient b c p) (hca : 0 ≤ orient c a p) : OnEdge a b p := by
  have hadd := orient_add a b c p
  have hx := orient_mul_x a b c p
  have hy := orient_mul_y a b c p
  rw [hab, zero_add] at hadd
  rw [hab, zero_mul, add_zero] at hx hy
  exact ⟨hab, between_of_balance h hadd hx hbc hca, between_of_balance h hadd hy hbc hca⟩

/-- A point on an edge is not beyond the other edges. -/
theorem OnEdge.orient_nonneg (hp : OnEdge a b p) (h : 0 < orient a b c) :
    0 ≤ orient b c p ∧ 0 ≤ orient c a p := by
  have hadd := orient_add a b c p
  have hx := orient_mul_x a b c p
  have hy := orient_mul_y a b c p
  rw [hp.line, zero_add] at hadd
  rw [hp.line, zero_mul, add_zero] at hx hy
  by_cases hab : a.x = b.x
  · have hne : a.y ≠ b.y := fun heq => by
      rw [Point.ext hab heq, orient_same] at h
      exact lt_irrefl _ h
    exact balance_of_between h hadd hy hne hp.y.1 hp.y.2
  · exact balance_of_between h hadd hx hab hp.x.1 hp.x.2

/-! ### The test of the edges -/

omit [IsStrictOrderedRing R] in
theorem Wins.nonneg (h : Wins a b p) : 0 ≤ orient a b p := by
  rcases h with hpos | ⟨hzero, -⟩
  · exact hpos.le
  · exact hzero.ge

theorem wins_of_nonneg (h : 0 < orient a b c) (hab : 0 ≤ orient a b p) (hbc : 0 ≤ orient b c p)
    (hca : 0 ≤ orient c a p) (hkind : OnEdge a b p → IsTop a b c ∨ IsLeft a b c) :
    Wins a b p := by
  rcases hab.lt_or_eq with hpos | hzero
  · exact .inl hpos
  · have hedge := onEdge_of_orient h hzero.symm hbc hca
    exact .inr ⟨hzero.symm, (isTopLeft_iff h).mpr (hkind hedge)⟩

instance (a b p : Point R) : Decidable (Wins a b p) :=
  inferInstanceAs (Decidable (_ ∨ _ ∧ (_ ∧ _ ∨ _)))

/-- **A positively wound triangle owns the points that pass the tests of its edges.** -/
theorem covers_iff_wins (h : 0 < orient a b c) :
    Covers a b c p ↔ Wins a b p ∧ Wins b c p ∧ Wins c a p := by
  have hbca : 0 < orient b c a := by rwa [orient_rotate]
  have hcab : 0 < orient c a b := by rwa [orient_rotate]
  unfold Covers StrictlyInside
  rw [forall_mem_edges, forall_mem_edges, exists_mem_edges]
  constructor
  · rintro (hinside | ⟨hsome, hall⟩)
    · exact ⟨.inl ((mul_pos_iff_of_pos_left h).mp hinside.1),
        .inl ((mul_pos_iff_of_pos_left hbca).mp hinside.2.1),
        .inl ((mul_pos_iff_of_pos_left hcab).mp hinside.2.2)⟩
    · -- a point of an edge is not on the outer side of the other two
      have hnonneg : 0 ≤ orient a b p ∧ 0 ≤ orient b c p ∧ 0 ≤ orient c a p := by
        rcases hsome with ⟨hon, -⟩ | ⟨hon, -⟩ | ⟨hon, -⟩
        · exact ⟨hon.line.ge, hon.orient_nonneg h⟩
        · obtain ⟨hca, hab⟩ := hon.orient_nonneg hbca
          exact ⟨hab, hon.line.ge, hca⟩
        · obtain ⟨hab, hbc⟩ := hon.orient_nonneg hcab
          exact ⟨hab, hbc, hon.line.ge⟩
      obtain ⟨hab, hbc, hca⟩ := hnonneg
      exact ⟨wins_of_nonneg h hab hbc hca hall.1, wins_of_nonneg hbca hbc hca hab hall.2.1,
        wins_of_nonneg hcab hca hab hbc hall.2.2⟩
  · rintro ⟨hab, hbc, hca⟩
    -- a point won on the line of an edge is won by the kind of the edge
    have hkind : ∀ {u v w : Point R}, 0 < orient u v w → Wins u v p → OnEdge u v p →
        IsTop u v w ∨ IsLeft u v w := by
      intro u v w harea hwins hon
      rcases hwins with hpos | ⟨-, hdir⟩
      · exact absurd hon.line hpos.ne'
      · exact (isTopLeft_iff harea).mp hdir
    by_cases hinside : 0 < orient a b p ∧ 0 < orient b c p ∧ 0 < orient c a p
    · exact .inl ⟨mul_pos h hinside.1, mul_pos hbca hinside.2.1, mul_pos hcab hinside.2.2⟩
    · refine .inr ⟨?_, hkind h hab, hkind hbca hbc, hkind hcab hca⟩
      rcases hab with habpos | ⟨habzero, habdir⟩
      · rcases hbc with hbcpos | ⟨hbczero, hbcdir⟩
        · rcases hca with hcapos | ⟨hcazero, hcadir⟩
          · exact absurd ⟨habpos, hbcpos, hcapos⟩ hinside
          · exact .inr (.inr ⟨onEdge_of_orient hcab hcazero habpos.le hbcpos.le,
              (isTopLeft_iff hcab).mp hcadir⟩)
        · exact .inr (.inl ⟨onEdge_of_orient hbca hbczero hca.nonneg habpos.le,
            (isTopLeft_iff hbca).mp hbcdir⟩)
      · exact .inl ⟨onEdge_of_orient h habzero hbc.nonneg hca.nonneg,
          (isTopLeft_iff h).mp habdir⟩

/-- What balances three numbers is between them. -/
theorem between_of_balance_three {s t l m r i j k : R} (hs : 0 < s) (hsum : i + j + k = s)
    (hbalance : s * t = i * l + j * m + k * r) (hi : 0 ≤ i) (hj : 0 ≤ j) (hk : 0 ≤ k) :
    min (min l m) r ≤ t ∧ t ≤ max (max l m) r := by
  constructor
  · refine le_of_mul_le_mul_left ?_ hs
    rw [hbalance, ← hsum, add_mul, add_mul]
    exact add_le_add (add_le_add
      (mul_le_mul_of_nonneg_left ((min_le_left _ _).trans (min_le_left _ _)) hi)
      (mul_le_mul_of_nonneg_left ((min_le_left _ _).trans (min_le_right _ _)) hj))
      (mul_le_mul_of_nonneg_left (min_le_right _ _) hk)
  · refine le_of_mul_le_mul_left ?_ hs
    rw [hbalance, ← hsum, add_mul, add_mul]
    exact add_le_add (add_le_add
      (mul_le_mul_of_nonneg_left ((le_max_left _ _).trans (le_max_left _ _)) hi)
      (mul_le_mul_of_nonneg_left ((le_max_right _ _).trans (le_max_left _ _)) hj))
      (mul_le_mul_of_nonneg_left (le_max_right _ _) hk)

/-- A point that is not beyond any edge is in the bounding box. -/
theorem between_of_wins (h : 0 < orient a b c) (hab : Wins a b p) (hbc : Wins b c p)
    (hca : Wins c a p) :
    (min (min a.x b.x) c.x ≤ p.x ∧ p.x ≤ max (max a.x b.x) c.x) ∧
      min (min a.y b.y) c.y ≤ p.y ∧ p.y ≤ max (max a.y b.y) c.y := by
  have hadd : orient b c p + orient c a p + orient a b p = orient a b c := by
    rw [← orient_add a b c p]
    ring
  exact ⟨between_of_balance_three h hadd (orient_mul_x a b c p) hbc.nonneg hca.nonneg hab.nonneg,
    between_of_balance_three h hadd (orient_mul_y a b c p) hbc.nonneg hca.nonneg hab.nonneg⟩

/-- The top of a degenerate triangle is a corner, which is on another edge too. -/
theorem onEdge_of_isTop (h : orient a b c = 0) (htop : IsTop a b c) (hon : OnEdge a b p) :
    OnEdge b c p ∧ ¬ (IsTop b c a ∨ IsLeft b c a) := by
  obtain ⟨hy, hlow⟩ := htop
  have hx : a.x = b.x := by
    have harea : (b.x - a.x) * (c.y - a.y) = 0 := by
      rw [orient, hy, sub_self, zero_mul, sub_zero] at h
      rwa [hy]
    rcases mul_eq_zero.mp harea with hzero | hzero
    · exact (sub_eq_zero.mp hzero).symm
    · exact absurd (sub_eq_zero.mp hzero) hlow.ne'
  have hp : p = b := by
    obtain ⟨-, ⟨hxlo, hxhi⟩, hylo, hyhi⟩ := hon
    rw [hx, min_self] at hxlo
    rw [hx, max_self] at hxhi
    rw [hy, min_self] at hylo
    rw [hy, max_self] at hyhi
    exact Point.ext (le_antisymm hxhi hxlo) (le_antisymm hyhi hylo)
  rw [hp]
  refine ⟨⟨orient_left b c, ⟨min_le_left _ _, le_max_left _ _⟩, min_le_left _ _,
    le_max_left _ _⟩, ?_⟩
  rintro (⟨hy', -⟩ | hleft)
  · exact hlow.ne (hy.trans hy')
  · rw [IsLeft, orient_rotate, h, mul_zero] at hleft
    exact lt_irrefl _ hleft

/-- A degenerate triangle owns nothing. -/
theorem not_covers_of_orient_eq_zero (h : orient a b c = 0) : ¬ Covers a b c p := by
  have hbca : orient b c a = 0 := by rwa [orient_rotate]
  have hcab : orient c a b = 0 := by rwa [orient_rotate]
  have htop : ∀ {u v w : Point R}, orient u v w = 0 → IsTop u v w ∨ IsLeft u v w →
      IsTop u v w := by
    rintro u v w hzero (htop | hleft)
    · exact htop
    · rw [IsLeft, hzero, mul_zero] at hleft
      exact absurd hleft (lt_irrefl _)
  unfold Covers StrictlyInside
  rw [forall_mem_edges, forall_mem_edges, exists_mem_edges]
  rintro (⟨hinside, -⟩ | ⟨hsome, hab, hbc, hca⟩)
  · rw [h, zero_mul] at hinside
    exact lt_irrefl _ hinside
  · rcases hsome with ⟨hon, hkind⟩ | ⟨hon, hkind⟩ | ⟨hon, hkind⟩
    · obtain ⟨hnext, hother⟩ := onEdge_of_isTop h (htop h hkind) hon
      exact hother (hbc hnext)
    · obtain ⟨hnext, hother⟩ := onEdge_of_isTop hbca (htop hbca hkind) hon
      exact hother (hca hnext)
    · obtain ⟨hnext, hother⟩ := onEdge_of_isTop hcab (htop hcab hkind) hon
      exact hother (hab hnext)

/-- What a triangle owns is in its bounding box. -/
theorem Covers.between (h : Covers a b c p) :
    (min (min a.x b.x) c.x ≤ p.x ∧ p.x ≤ max (max a.x b.x) c.x) ∧
      min (min a.y b.y) c.y ≤ p.y ∧ p.y ≤ max (max a.y b.y) c.y := by
  obtain hneg | hzero | hpos := lt_trichotomy (orient a b c) 0
  · have hpos : 0 < orient b a c := by
      rw [orient_swap]
      exact neg_pos.mpr hneg
    obtain ⟨hba, hac, hcb⟩ := (covers_iff_wins hpos).mp (covers_swap.mpr h)
    rw [min_comm a.x, max_comm a.x, min_comm a.y, max_comm a.y]
    exact between_of_wins hpos hba hac hcb
  · exact absurd h (not_covers_of_orient_eq_zero hzero)
  · obtain ⟨hab, hbc, hca⟩ := (covers_iff_wins hpos).mp h
    exact between_of_wins hpos hab hbc hca

/-- **Triangles on opposite sides of a common edge own no point together.** -/
theorem not_covers_of_opposite {d : Point R} (hc : 0 < orient a b c) (hd : orient a b d < 0) :
    ¬ (Covers a b c p ∧ Covers a b d p) := by
  have hbad : 0 < orient b a d := by
    rw [orient_swap]
    exact neg_pos.mpr hd
  rw [← covers_swap (a := a) (b := b) (c := d), covers_iff_wins hc, covers_iff_wins hbad]
  rintro ⟨⟨hab, -⟩, ⟨hba, -⟩⟩
  have hzero : orient a b p = 0 := by
    have hle := hba.nonneg
    rw [orient_swap] at hle
    exact le_antisymm (neg_nonneg.mp hle) hab.nonneg
  have hne : b.x - a.x ≠ 0 ∨ b.y - a.y ≠ 0 := by
    by_contra hboth
    rw [not_or, not_ne_iff, not_ne_iff] at hboth
    rw [orient, hboth.1, hboth.2, zero_mul, zero_mul, sub_zero] at hc
    exact lt_irrefl _ hc
  have hdir : IsTopLeft (b.x - a.x) (b.y - a.y) := (hab.resolve_left hzero.not_gt).2
  have hdir' : IsTopLeft (a.x - b.x) (a.y - b.y) := by
    refine (hba.resolve_left ?_).2
    rw [orient_swap, hzero, neg_zero]
    exact lt_irrefl _
  rw [← neg_sub b.x, ← neg_sub b.y, isTopLeft_neg hne] at hdir'
  exact hdir' hdir

end Order

end Point
