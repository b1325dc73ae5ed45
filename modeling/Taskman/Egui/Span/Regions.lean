import Taskman.Egui.Span.Blend

/-!
# The pixels of a rectangle, filled and drawn

The fast path changes the clipped pixels of the rectangle.  The two triangles change the same ones,
once each, as far as coordinates are not clamped to the grid.

* `fill_eq_update`, `fill_of_countOverflows` : the fast path;
* `countP_halves` : **the two triangles own every pixel of the rectangle once**;
* `drawTriangles_eq_update` : the two triangles.
-/

namespace Taskman.Egui.Span

open Raster Point

/-! ### The fast path -/

/-- The pixels the fast path fills. -/
def boundsOf (T : Target) (clip rect : PixelRect) : PixelRect :=
  (clip.intersect T.bounds).intersect rect

/-- What it does to a pixel. -/
def fillPaint (color : Color32) : UInt32 → UInt32 :=
  if color.a = 255 then fun _ => packRgb color.r color.g color.b else fastPixel color

/-- Rows one after the other. -/
theorem foldl_mapSlice {T : Target} (x len : ℕ) (hx : x + len ≤ T.width) {ys : List ℤ}
    (hnodup : ys.Nodup) (hys : ∀ y ∈ ys, 0 ≤ y ∧ y.toNat < T.height) (f : UInt32 → UInt32)
    {step : Target → ℤ → Target}
    (hstep : ∀ T' : Target, T'.width = T.width → T'.height = T.height → ∀ y : ℤ, 0 ≤ y →
      y.toNat < T'.height → step T' y = T'.mapSlice (y.toNat * T'.stride + x) len f) :
    ys.foldl step T = T.update (fun x' y' => (x ≤ x' ∧ x' < x + len) ∧ y' ∈ ys) f := by
  induction ys generalizing T with
  | nil => exact (Target.update_of_forall_not fun x y h => List.not_mem_nil h.2).symm
  | cons y ys ih =>
    obtain ⟨hy, hnodup⟩ := List.nodup_cons.mp hnodup
    obtain ⟨hy0, hylt⟩ := hys y List.mem_cons_self
    rw [List.foldl_cons, hstep T rfl rfl y hy0 hylt, Target.mapSlice_eq_update hx,
      ih (by exact hx) hnodup (by exact fun z hz => hys z (List.mem_cons_of_mem y hz))
        (by exact hstep)]
    refine (Target.update_update ?_).trans (Target.update_congr fun x' y' => ?_)
    · rintro x' y' ⟨⟨-, heq⟩, -, hmem⟩
      rw [Int.toNat_of_nonneg hy0] at heq
      exact hy (heq ▸ hmem)
    · rw [List.mem_cons, Int.toNat_of_nonneg hy0, and_or_left]

section Bounds

variable {T : Target} {clip rect : PixelRect} (hne : ¬ (boundsOf T clip rect).IsEmpty)

include hne

/-- Where there is something to fill, it is in the target. -/
theorem boundsOf_le : (0 ≤ (boundsOf T clip rect).minX ∧
      (boundsOf T clip rect).minX < (boundsOf T clip rect).maxX ∧
      (boundsOf T clip rect).maxX ≤ T.width) ∧
    0 ≤ (boundsOf T clip rect).minY ∧
      (boundsOf T clip rect).minY < (boundsOf T clip rect).maxY ∧
      (boundsOf T clip rect).maxY ≤ T.height := by
  have hx : (boundsOf T clip rect).maxX ≤ T.bounds.maxX :=
    (min_le_left _ _).trans (min_le_right _ _)
  have hy : (boundsOf T clip rect).maxY ≤ T.bounds.maxY :=
    (min_le_left _ _).trans (min_le_right _ _)
  have hwidth : T.bounds.maxX ≤ T.width := by
    simp only [Target.bounds]
    exact asI32_le T.width
  have hheight : T.bounds.maxY ≤ T.height := by
    simp only [Target.bounds]
    exact asI32_le T.height
  have hx0 : T.bounds.minX ≤ (boundsOf T clip rect).minX :=
    (le_max_right _ _).trans (le_max_left _ _)
  have hy0 : T.bounds.minY ≤ (boundsOf T clip rect).minY :=
    (le_max_right _ _).trans (le_max_left _ _)
  obtain ⟨hltx, hlty⟩ := not_or.mp hne
  exact ⟨⟨hx0, not_le.mp hltx, hx.trans hwidth⟩, hy0, not_le.mp hlty, hy.trans hheight⟩

end Bounds

/-- **The fast path changes the clipped pixels of the rectangle**, unless it counts too many. -/
theorem fill_eq_update {T : Target} {clip rect : PixelRect} {color : Color32}
    (h : color.a = 255 → ¬ T.CountOverflows (boundsOf T clip rect)) :
    fill T clip rect color =
      .ok (T.update (boundsOf T clip rect).Contains (fillPaint color)) := by
  show (if (boundsOf T clip rect).IsEmpty then _ else _) = _
  split_ifs with hempty ha
  · rw [Target.update_of_forall_not fun x y hin => hin.not_isEmpty hempty]
  · obtain ⟨⟨hx, -, hx'⟩, hy, -, hy'⟩ := boundsOf_le hempty
    rw [fillPaint, if_pos ha]
    exact Target.fillRect_eq_update hx hx' hy hy' hempty _ (h ha)
  · obtain ⟨⟨hx, hxlt, hx'⟩, hy, hylt, hy'⟩ := boundsOf_le hempty
    rw [fillPaint, if_neg ha]
    refine congrArg Except.ok ?_
    have hwidth : (boundsOf T clip rect).maxX.toNat ≤ T.width := by omega
    have hlen : (boundsOf T clip rect).minX.toNat ≤ (boundsOf T clip rect).maxX.toNat := by omega
    refine (foldl_mapSlice (boundsOf T clip rect).minX.toNat
      ((boundsOf T clip rect).maxX.toNat - (boundsOf T clip rect).minX.toNat) (by omega)
      (nodup_range _ _) ?_ (fastPixel color) ?_).trans (Target.update_congr fun x y => ?_)
    · intro y hmem
      obtain ⟨hlo, hhi⟩ : (boundsOf T clip rect).minY ≤ y ∧ y < (boundsOf T clip rect).maxY :=
        Int.mem_range_iff.mp hmem
      exact ⟨hy.trans hlo, by omega⟩
    · intro T' hwidth' hheight' y hy0 hylt
      rw [Target.rowMut_eq_some hylt]
      exact if_pos ⟨hlen, hwidth' ▸ hwidth⟩
    · rw [Int.mem_range_iff]
      constructor
      · rintro ⟨⟨hminX, hmaxX⟩, hminY, hmaxY⟩
        exact ⟨by omega, by omega, hminY, hmaxY⟩
      · rintro ⟨hminX, hmaxX, hminY, hmaxY⟩
        exact ⟨⟨by omega, by omega⟩, hminY, hmaxY⟩

theorem fill_of_countOverflows {T : Target} {clip rect : PixelRect} {color : Color32}
    (ha : color.a = 255) (h : T.CountOverflows (boundsOf T clip rect)) :
    fill T clip rect color = .error (.panic .overflow) := by
  have hne : ¬ (boundsOf T clip rect).IsEmpty := by
    obtain ⟨hrect, -, hge⟩ := h
    rw [hrect]
    rintro (hx | hy)
    · have hzero : T.width = 0 := by simpa using hx
      rw [hzero] at hge
      omega
    · have hzero : T.height = 0 := by simpa using hy
      rw [hzero] at hge
      omega
  obtain ⟨⟨hx, -, hx'⟩, hy, -, hy'⟩ := boundsOf_le hne
  show (if (boundsOf T clip rect).IsEmpty then _ else _) = _
  rw [if_neg hne, if_pos ha]
  exact Target.fillRect_of_countOverflows hx hx' hy hy' hne _ h

/-! ### The two triangles -/

/-- A coordinate as the grid can hold it. -/
def clampCoord (n : ℤ) : ℤ := max (-2 ^ 25) (min n (2 ^ 25))

/-- The rectangle as the grid can hold it. -/
def clampRect (rect : PixelRect) : PixelRect :=
  ⟨clampCoord rect.minX, clampCoord rect.minY, clampCoord rect.maxX, clampCoord rect.maxY⟩

theorem toFixed_intCast (n : ℤ) : toFixed n = 16 * clampCoord n := by
  have hscaled : roundHalfAway ((n : ℚ) * subOne) = n * 16 := by
    rw [subOne, ← Int.cast_mul]
    exact roundHalfAway_intCast (n * 16)
  rw [toFixed, hscaled, clampCoord]
  omega

/-- A corner of whole pixels. -/
def gridPoint (x y : ℤ) : Point ℤ := ⟨16 * x, 16 * y⟩

/-- The corners, clockwise. -/
def corners (rect : PixelRect) : List (Point ℤ) :=
  [gridPoint rect.minX rect.minY, gridPoint rect.maxX rect.minY, gridPoint rect.maxX rect.maxY,
    gridPoint rect.minX rect.maxY]

/-- The corners of a triangle on the grid. -/
def fixedCorners (v : Three ScreenVertex) : Point ℤ × Point ℤ × Point ℤ :=
  ((fixed v).e0, (fixed v).e1, (fixed v).e2)

theorem owns_iff_covers {v : Three ScreenVertex} {x y : ℤ} :
    Owns (fixed v) x y ↔ Covers (fixedCorners v).1 (fixedCorners v).2.1 (fixedCorners v).2.2
      (centreAt x y) := Iff.rfl

section Halves

variable {rect : PixelRect} {x y : ℤ} (color : Color32) (cut : Diagonal)

theorem fixedCorners_triangles :
    [fixedCorners (triangles rect color cut).1, fixedCorners (triangles rect color cut).2] =
      match cut, clampRect rect with
      | .falling, r =>
        [(gridPoint r.minX r.minY, gridPoint r.maxX r.minY, gridPoint r.maxX r.maxY),
          (gridPoint r.minX r.minY, gridPoint r.maxX r.maxY, gridPoint r.minX r.maxY)]
      | .rising, r =>
        [(gridPoint r.minX r.minY, gridPoint r.maxX r.minY, gridPoint r.minX r.maxY),
          (gridPoint r.minX r.maxY, gridPoint r.maxX r.minY, gridPoint r.maxX r.maxY)] := by
  cases cut with
  | falling =>
    simp only [fixedCorners, fixed, triangles, Three.map, toFixed_intCast, gridPoint, clampRect]
  | rising =>
    simp only [fixedCorners, fixed, triangles, Three.map, toFixed_intCast, gridPoint, clampRect]

/-- The two triangles are a fan of the rectangle. -/
theorem isFan_triangles : Polygon.IsFan (corners (clampRect rect))
    [fixedCorners (triangles rect color cut).1, fixedCorners (triangles rect color cut).2] := by
  rw [fixedCorners_triangles]
  cases cut with
  | falling =>
    exact ⟨0, _, _, rfl, _, List.Perm.refl _, .cons (List.Perm.refl _)
      (.cons (List.Perm.refl _) .nil)⟩
  | rising =>
    -- From the second corner on the triangles come in the other order.
    refine ⟨1, _, _, rfl, _, List.Perm.swap _ _ [], .cons ?_ (.cons ?_ .nil)⟩
    · exact (List.perm_append_comm : List.Perm ([_] ++ [_, _]) _)
    · exact List.Perm.swap _ _ _ |>.trans ((List.Perm.swap _ _ _).cons _)

theorem convex_corners (hx : rect.minX < rect.maxX) (hy : rect.minY < rect.maxY) :
    Polygon.Convex (corners rect) := by
  constructor
  · have hne : ∀ {m n m' n' : ℤ}, m ≠ m' ∨ n ≠ n' → gridPoint m n ≠ gridPoint m' n' := by
      intro m n m' n' hor heq
      simp only [gridPoint, Point.mk.injEq] at heq
      omega
    simp only [corners, List.nodup_cons, List.mem_cons, List.not_mem_nil, or_false, not_or,
      not_false_iff, List.nodup_nil, and_true]
    exact ⟨⟨hne (.inl hx.ne), hne (.inl hx.ne), hne (.inr hy.ne)⟩,
      ⟨hne (.inr hy.ne), hne (.inl hx.ne')⟩, hne (.inl hx.ne')⟩
  · have harea : 0 ≤ (16 * rect.maxX - 16 * rect.minX) * (16 * rect.maxY - 16 * rect.minY) :=
      mul_nonneg (by omega) (by omega)
    refine .inl ?_
    simp only [corners, List.triplewise_cons, List.pairwise_cons, List.forall_mem_cons,
      List.not_mem_nil, false_imp_iff, implies_true, List.Pairwise.nil, List.Triplewise.nil,
      and_true, orient, gridPoint]
    refine ⟨⟨⟨?_, ?_⟩, ?_⟩, ?_⟩ <;> nlinarith

/-- A centre is strictly inside where its pixel is in the rectangle. -/
theorem inside_corners (h : rect.Contains x y) :
    Polygon.Inside (corners rect) (centreAt x y) := by
  obtain ⟨hminX, hmaxX, hminY, hmaxY⟩ := h
  have hw : 0 < 16 * rect.maxX - 16 * rect.minX := by omega
  have hh : 0 < 16 * rect.maxY - 16 * rect.minY := by omega
  have htop := mul_pos hw (show 0 < 16 * y + 8 - 16 * rect.minY by omega)
  have hright := mul_pos hh (show 0 < 16 * rect.maxX - (16 * x + 8) by omega)
  have hbottom := mul_pos hw (show 0 < 16 * rect.maxY - (16 * y + 8) by omega)
  have hleft := mul_pos hh (show 0 < 16 * x + 8 - 16 * rect.minX by omega)
  refine .inl ?_
  simp only [corners, List.take_succ_cons, List.take_zero, List.cons_append, List.nil_append,
    List.isChain_cons_cons, List.isChain_singleton, and_true, orient, gridPoint, centreAt]
  refine ⟨?_, ?_, ?_, ?_⟩ <;> nlinarith

/-- **The two triangles own every pixel of the rectangle once.** -/
theorem countP_halves (h : (clampRect rect).Contains x y) :
    [(triangles rect color cut).1, (triangles rect color cut).2].countP
      (fun v => Owns (fixed v) x y) = 1 := by
  have hconvex := convex_corners (h.minX.trans_lt h.maxX) (h.minY.trans_lt h.maxY)
  have hcount := Polygon.countP_covers_fan hconvex (inside_corners h) (isFan_triangles color cut)
  rw [← hcount]
  rfl

/-- They own no other pixel. -/
theorem contains_of_owns (hx : rect.minX ≤ rect.maxX) (hy : rect.minY ≤ rect.maxY)
    {v : Three ScreenVertex}
    (hv : v ∈ [(triangles rect color cut).1, (triangles rect color cut).2])
    (howns : Owns (fixed v) x y) : (clampRect rect).Contains x y := by
  have hmem : fixedCorners v ∈ [fixedCorners (triangles rect color cut).1,
      fixedCorners (triangles rect color cut).2] := List.mem_map_of_mem (f := fixedCorners) hv
  rw [fixedCorners_triangles] at hmem
  obtain ⟨⟨hxlo, hxhi⟩, hylo, hyhi⟩ := Covers.between (owns_iff_covers.mp howns)
  -- all corners are corners of the rectangle, so that a covered centre is inside it
  have hbox : ∀ q ∈ [(fixedCorners v).1, (fixedCorners v).2.1, (fixedCorners v).2.2],
      (16 * (clampRect rect).minX ≤ q.x ∧ q.x ≤ 16 * (clampRect rect).maxX) ∧
        16 * (clampRect rect).minY ≤ q.y ∧ q.y ≤ 16 * (clampRect rect).maxY := by
    have hx' : (clampRect rect).minX ≤ (clampRect rect).maxX := by
      simp only [clampRect, clampCoord]
      omega
    have hy' : (clampRect rect).minY ≤ (clampRect rect).maxY := by
      simp only [clampRect, clampCoord]
      omega
    cases cut with
    | falling =>
      rcases List.mem_pair.mp hmem with heq | heq
      · rw [heq]
        simp only [List.forall_mem_cons, gridPoint, List.not_mem_nil, false_imp_iff,
          implies_true, and_true]
        omega
      · rw [heq]
        simp only [List.forall_mem_cons, gridPoint, List.not_mem_nil, false_imp_iff,
          implies_true, and_true]
        omega
    | rising =>
      rcases List.mem_pair.mp hmem with heq | heq
      · rw [heq]
        simp only [List.forall_mem_cons, gridPoint, List.not_mem_nil, false_imp_iff,
          implies_true, and_true]
        omega
      · rw [heq]
        simp only [List.forall_mem_cons, gridPoint, List.not_mem_nil, false_imp_iff,
          implies_true, and_true]
        omega
  simp only [List.forall_mem_cons, List.not_mem_nil, false_imp_iff, implies_true,
    and_true] at hbox
  simp only [centreAt] at hxlo hxhi hylo hyhi
  constructor <;> omega

end Halves

/-- **The two triangles change the same pixels once**, as far as coordinates are not clamped. -/
theorem drawTriangles_eq_update {T : Target} {clip rect : PixelRect} {color : Color32}
    (cut : Diagonal) (hx : rect.minX ≤ rect.maxX) (hy : rect.minY ≤ rect.maxY)
    (ha : color.a ≠ 0) :
    drawTriangles T clip rect color cut =
      .ok (T.update (boundsOf T clip (clampRect rect)).Contains (uniformPaint color)) := by
  have hcolors : ∀ v ∈ [(triangles rect color cut).1, (triangles rect color cut).2],
      v.e0.color = color ∧ v.e1.color = color ∧ v.e2.color = color := by
    cases cut <;> simp [triangles]
  obtain ⟨h10, h11, h12⟩ := hcolors _ List.mem_cons_self
  obtain ⟨h20, h21, h22⟩ := hcolors _ (List.mem_cons_of_mem _ List.mem_cons_self)
  rw [drawTriangles, triangle_uniform T clip h10 h11 h12 ha, Checked.bind_ok,
    triangle_uniform _ clip h20 h21 h22 ha]
  have hbounds : ∀ x y, (boundsOf T clip (clampRect rect)).Contains x y ↔
      (clip.Contains x y ∧ T.bounds.Contains x y) ∧ (clampRect rect).Contains x y := fun x y => by
    rw [boundsOf, PixelRect.contains_intersect, PixelRect.contains_intersect]
  have hcount : ∀ {x y}, (clampRect rect).Contains x y →
      (Owns (fixed (triangles rect color cut).1) x y ↔
        ¬ Owns (fixed (triangles rect color cut).2) x y) := by
    intro x y h
    have hone := countP_halves color cut h
    simp only [List.countP_cons, List.countP_nil, decide_eq_true_eq] at hone
    split_ifs at hone with h1 h2 <;> simp_all
  refine congrArg Except.ok ((Target.update_update ?_).trans (Target.update_congr fun x y => ?_))
  · rintro x y ⟨hin, hin'⟩
    have h := contains_of_owns color cut hx hy List.mem_cons_self hin.owns
    exact (hcount h).mp hin.owns hin'.owns
  · rw [hbounds]
    constructor
    · rintro (hin | hin)
      · exact ⟨⟨hin.clip, hin.target⟩,
          contains_of_owns color cut hx hy List.mem_cons_self hin.owns⟩
      · exact ⟨⟨hin.clip, hin.target⟩, contains_of_owns color cut hx hy
          (List.mem_cons_of_mem _ List.mem_cons_self) hin.owns⟩
    · rintro ⟨⟨hclip, htarget⟩, h⟩
      by_cases h2 : Owns (fixed (triangles rect color cut).2) x y
      · exact .inr ⟨hclip, htarget, h2⟩
      · exact .inl ⟨hclip, htarget, (hcount h).mpr h2⟩

end Taskman.Egui.Span
