import Taskman.Egui.Raster.Coverage
import Mathlib.Tactic.FieldSimp

/-!
# The rasterizer is watertight

For vertices on the grid the snapped corners are the vertices themselves, so that what the loops
cover can be said of the triangle as it is given, in pixels.

* `covers_iff_of_snapped` : a triangle owns the same points on the grid and in pixels;
* `watertight` : **a triangle covers the clipped pixels whose centres it owns, neighbours cover no
  pixel together, and every fan of a convex polygon covers what is inside exactly once**.
-/

namespace Taskman.Egui.Raster

open Point

/-- Where a vertex is, in pixels. -/
def ScreenVertex.position (vertex : ScreenVertex) : Point ℚ := ⟨vertex.x, vertex.y⟩

/-- The three of them. -/
def positions (v : Three ScreenVertex) : Point ℚ × Point ℚ × Point ℚ :=
  (v.e0.position, v.e1.position, v.e2.position)

/-- The centre of a pixel, in pixels. -/
def pixelCentre (x y : ℤ) : Point ℚ := ⟨x + 1 / 2, y + 1 / 2⟩

/-- The point in pixels is that point of the grid. -/
structure Snapped (q : Point ℚ) (g : Point ℤ) : Prop where
  x : q.x * 16 = g.x
  y : q.y * 16 = g.y

/-- The vertices are on the grid, and not beyond what coordinates are clamped to. -/
def OnGrid (v : Three ScreenVertex) : Prop :=
  ∀ vertex ∈ [v.e0, v.e1, v.e2], ∃ g, Snapped vertex.position g ∧ Within (2 ^ 29) g

/-- The pixel is one of the target. -/
def InTarget (T : Target) (x y : ℤ) : Prop := (0 ≤ x ∧ x < T.width) ∧ 0 ≤ y ∧ y < T.height

/-- The triangle covers the pixel. -/
def coversPixel (T : Target) (clip : PixelRect) (x y : ℤ) (v : Three ScreenVertex) : Bool :=
  match covered T clip v with
  | .ok pixels => (x, y) ∈ pixels
  | .error _ => false

/-! ### On the grid and in pixels -/

section Sign

variable {n : ℤ} {k q : ℚ} (hk : 0 < k) (h : (n : ℚ) = k * q)

include hk h

theorem pos_iff_of_cast : 0 < q ↔ 0 < n := by
  rw [← Int.cast_pos (R := ℚ), h]
  exact (mul_pos_iff_of_pos_left hk).symm

theorem eq_zero_iff_of_cast : q = 0 ↔ n = 0 := by
  rw [← Int.cast_eq_zero (α := ℚ), h, mul_eq_zero, or_iff_right hk.ne']

theorem neg_iff_of_cast : q < 0 ↔ n < 0 := by
  rw [← Int.cast_lt_zero (R := ℚ), h]
  exact (smul_neg_iff_of_pos_left hk).symm

end Sign

section Snapped

variable {a b c p : Point ℚ} {a' b' c' p' : Point ℤ} (ha : Snapped a a') (hb : Snapped b b')
  (hc : Snapped c c') (hp : Snapped p p')

include ha hb hp

theorem orient_snapped : ((orient a' b' p' : ℤ) : ℚ) = 256 * orient a b p := by
  unfold orient
  push_cast
  rw [← ha.x, ← ha.y, ← hb.x, ← hb.y, ← hp.x, ← hp.y]
  ring

theorem wins_iff_of_snapped : Wins a b p ↔ Wins a' b' p' := by
  have horient := orient_snapped ha hb hp
  have hdx : ((b'.x - a'.x : ℤ) : ℚ) = 16 * (b.x - a.x) := by
    push_cast
    rw [← ha.x, ← hb.x]
    ring
  have hdy : ((b'.y - a'.y : ℤ) : ℚ) = 16 * (b.y - a.y) := by
    push_cast
    rw [← ha.y, ← hb.y]
    ring
  have h16 : (0 : ℚ) < 16 := by norm_num
  have h256 : (0 : ℚ) < 256 := by norm_num
  exact or_congr (pos_iff_of_cast h256 horient) (and_congr (eq_zero_iff_of_cast h256 horient)
    (or_congr (and_congr (eq_zero_iff_of_cast h16 hdy) (pos_iff_of_cast h16 hdx))
      (neg_iff_of_cast h16 hdy)))

include hc

/-- **A triangle owns the same points on the grid and in pixels.** -/
theorem covers_iff_of_snapped : Covers a b c p ↔ Covers a' b' c' p' := by
  have horient := orient_snapped ha hb hc
  have h256 : (0 : ℚ) < 256 := by norm_num
  obtain hneg | hzero | hpos := lt_trichotomy (orient a' b' c') 0
  · have hpos : 0 < orient b' a' c' := by
      rw [orient_swap]
      exact neg_pos.mpr hneg
    have hpos' : 0 < orient b a c := by
      rw [orient_swap]
      exact neg_pos.mpr ((neg_iff_of_cast h256 horient).mpr hneg)
    rw [← covers_swap, ← covers_swap (a := a'), covers_iff_wins hpos, covers_iff_wins hpos']
    exact and_congr (wins_iff_of_snapped hb ha hp)
      (and_congr (wins_iff_of_snapped ha hc hp) (wins_iff_of_snapped hc hb hp))
  · have hzero' := (eq_zero_iff_of_cast h256 horient).mpr hzero
    exact iff_of_false (not_covers_of_orient_eq_zero hzero') (not_covers_of_orient_eq_zero hzero)
  · rw [covers_iff_wins hpos, covers_iff_wins ((pos_iff_of_cast h256 horient).mpr hpos)]
    exact and_congr (wins_iff_of_snapped ha hb hp)
      (and_congr (wins_iff_of_snapped hb hc hp) (wins_iff_of_snapped hc ha hp))

end Snapped

theorem snapped_pixelCentre (x y : ℤ) : Snapped (pixelCentre x y) (centreAt x y) := by
  constructor
  · simp only [pixelCentre, centreAt]
    push_cast
    ring
  · simp only [pixelCentre, centreAt]
    push_cast
    ring

theorem toFixed_eq {v : ℚ} {n : ℤ} (h : v * 16 = n) (hn : |n| ≤ 2 ^ 29) : toFixed v = n := by
  have hscaled : roundHalfAway (v * subOne) = n := by
    rw [subOne, show v * ((16 : ℤ) : ℚ) = n by exact_mod_cast h]
    exact roundHalfAway_intCast n
  have hn' := abs_le.mp hn
  rw [toFixed, hscaled]
  omega

theorem snapped_fixed {vertex : ScreenVertex}
    (h : ∃ g, Snapped vertex.position g ∧ Within (2 ^ 29) g) :
    Snapped vertex.position ⟨toFixed vertex.x, toFixed vertex.y⟩ := by
  obtain ⟨g, hsnapped, hwithin⟩ := h
  have hx : toFixed vertex.x = g.x := toFixed_eq hsnapped.x hwithin.x
  have hy : toFixed vertex.y = g.y := toFixed_eq hsnapped.y hwithin.y
  rw [hx, hy]
  exact hsnapped

section OnGrid

variable {T : Target} {clip : PixelRect} {v : Three ScreenVertex} (hv : OnGrid v) {x y : ℤ}

include hv

theorem owns_iff : Owns (fixed v) x y ↔
    Covers v.e0.position v.e1.position v.e2.position (pixelCentre x y) :=
  (covers_iff_of_snapped (snapped_fixed (hv v.e0 (by simp))) (snapped_fixed (hv v.e1 (by simp)))
    (snapped_fixed (hv v.e2 (by simp))) (snapped_pixelCentre x y)).symm

omit hv in
theorem contains_bounds_iff (hw : T.width < 2 ^ 26) (hh : T.height < 2 ^ 26) :
    T.bounds.Contains x y ↔ InTarget T x y := by
  have hsize : ∀ {n : ℕ}, n < 2 ^ 26 → asI32 n = n := by
    intro n hn
    refine (Int.bmod_def _ _).trans ?_
    split_ifs <;> omega
  constructor
  · rintro ⟨hminX, hmaxX, hminY, hmaxY⟩
    simp only [Target.bounds, hsize hw, hsize hh] at hminX hmaxX hminY hmaxY
    exact ⟨⟨hminX, hmaxX⟩, hminY, hmaxY⟩
  · rintro ⟨⟨hminX, hmaxX⟩, hminY, hmaxY⟩
    constructor <;> simp only [Target.bounds, hsize hw, hsize hh] <;> assumption

theorem inRegion_iff (hw : T.width < 2 ^ 26) (hh : T.height < 2 ^ 26) :
    InRegion T clip v x y ↔ clip.Contains x y ∧ InTarget T x y ∧
      Covers v.e0.position v.e1.position v.e2.position (pixelCentre x y) := by
  rw [← contains_bounds_iff hw hh, ← owns_iff hv]
  exact ⟨fun h => ⟨h.clip, h.target, h.owns⟩, fun h => ⟨h.1, h.2.1, h.2.2⟩⟩

omit hv in
theorem coversPixel_iff : coversPixel T clip x y v ↔ InRegion T clip v x y := by
  obtain ⟨pixels, hcovered, henum⟩ := covered_enumerates T clip v
  unfold coversPixel
  simp only [hcovered, decide_eq_true_eq]
  exact henum.mem_iff x y

end OnGrid

/-- The triangles are on opposite sides of an edge they have in common. -/
def Opposite (v v' : Three ScreenVertex) : Prop :=
  ∃ a b c d : Point ℚ, Polygon.SameCorners (positions v) (a, b, c) ∧
    Polygon.SameCorners (positions v') (a, b, d) ∧ orient a b c * orient a b d < 0

theorem Opposite.not_covers {v v' : Three ScreenVertex} (h : Opposite v v') (p : Point ℚ) :
    ¬ (Covers v.e0.position v.e1.position v.e2.position p ∧
      Covers v'.e0.position v'.e1.position v'.e2.position p) := by
  obtain ⟨a, b, c, d, hv, hv', hopposite⟩ := h
  rintro ⟨hcovers, hcovers'⟩
  have hc : Covers a b c p := hv.covers_iff.mp hcovers
  have hd : Covers a b d p := hv'.covers_iff.mp hcovers'
  obtain ⟨hpos, hneg⟩ | ⟨hneg, hpos⟩ := mul_neg_iff.mp hopposite
  · exact not_covers_of_opposite hpos hneg ⟨hc, hd⟩
  · exact not_covers_of_opposite hpos hneg ⟨hd, hc⟩

section Watertight

variable (T : Target) (hw : T.width < 2 ^ 26) (hh : T.height < 2 ^ 26) (clip : PixelRect)

include hw hh

/-- **The rasterizer is watertight.** -/
theorem watertight :
    (∀ v texture, OnGrid v → ∃ pixels T', covered T clip v = .ok pixels ∧
      triangle T clip v texture = .ok T' ∧ pixels.Nodup ∧
      (∀ x y, (x, y) ∈ pixels ↔ clip.Contains x y ∧ InTarget T x y ∧
        Covers v.e0.position v.e1.position v.e2.position (pixelCentre x y)) ∧
      (∀ i : ℕ, T'.pixels[i]? ≠ T.pixels[i]? → (↑(i % T.stride), ↑(i / T.stride)) ∈ pixels) ∧
      ∀ color : Color32, (∀ vertex ∈ [v.e0, v.e1, v.e2], vertex.color = color) → color.a ≠ 0 →
        texture = none → T' = T.update (fun x y => (x, y) ∈ pixels) (uniformPaint color)) ∧
    (∀ v v', OnGrid v → OnGrid v' → Opposite v v' →
      ∀ x y, ¬ (coversPixel T clip x y v ∧ coversPixel T clip x y v')) ∧
    ∀ (polygon : List (Point ℚ)) (triangles : List (Three ScreenVertex)),
      Polygon.Convex polygon → (∀ v ∈ triangles, OnGrid v) →
      Polygon.IsFan polygon (triangles.map positions) →
      ∀ x y, clip.Contains x y → InTarget T x y → Polygon.Inside polygon (pixelCentre x y) →
        triangles.countP (coversPixel T clip x y) = 1 := by
  refine ⟨fun v texture hv => ?_, fun v v' hv hv' hopposite x y => ?_, ?_⟩
  · obtain ⟨pixels, hcovered, henum⟩ := covered_enumerates T clip v
    obtain ⟨T', htriangle, hframe⟩ := triangle_frame T clip v texture
    refine ⟨pixels, T', hcovered, htriangle, henum.nodup,
      fun x y => (henum.mem_iff x y).trans (inRegion_iff hv hw hh),
      fun i hi => (henum.mem_iff _ _).mpr (hframe i hi), ?_⟩
    rintro color hcolor ha rfl
    have huniform := triangle_uniform T clip (hcolor v.e0 (by simp)) (hcolor v.e1 (by simp))
      (hcolor v.e2 (by simp)) ha
    rw [Target.update_congr henum.mem_iff]
    exact Except.ok.inj (htriangle.symm.trans huniform)
  · rw [coversPixel_iff, coversPixel_iff, inRegion_iff hv hw hh, inRegion_iff hv' hw hh]
    rintro ⟨⟨-, -, hcovers⟩, -, -, hcovers'⟩
    exact hopposite.not_covers _ ⟨hcovers, hcovers'⟩
  · intro polygon triangles hconvex hgrid hfan x y hclip htarget hinside
    rw [← Polygon.countP_covers_fan hconvex hinside hfan, List.countP_map]
    refine List.countP_congr fun v hv => ?_
    rw [coversPixel_iff, inRegion_iff (hgrid v hv) hw hh, Function.comp_apply, decide_eq_true_iff]
    exact ⟨fun h => h.2.2, fun h => ⟨hclip, htarget, h⟩⟩

end Watertight

/-- A square of four by four pixels, as two triangles on a target of that size. -/
def pane : Target where
  pixels := List.replicate 16 0
  width := 4
  height := 4
  stride := 4
  width_lt := by decide
  height_lt := by decide
  stride_lt := by decide
  width_le := le_rfl
  fits := by decide

/-- A grey corner. -/
def corner (x y : ℚ) : ScreenVertex := ⟨x, y, 0, 0, ⟨128, 128, 128, 128⟩⟩

/-- One half of a square. -/
def upperHalf : Three ScreenVertex := ⟨corner 0 0, corner 4 0, corner 4 4⟩

/-- The other half of the square. -/
def lowerHalf : Three ScreenVertex := ⟨corner 0 0, corner 4 4, corner 0 4⟩

theorem onGrid_corner {x y : ℚ} {m n : ℤ} (hx : x * 16 = m) (hy : y * 16 = n)
    (hm : |m| ≤ 2 ^ 29) (hn : |n| ≤ 2 ^ 29) :
    ∃ g, Snapped (corner x y).position g ∧ Within (2 ^ 29) g :=
  ⟨⟨m, n⟩, ⟨hx, hy⟩, hm, hn⟩

theorem onGrid_halves : ∀ v ∈ [upperHalf, lowerHalf], OnGrid v := by
  have h00 : ∃ g, Snapped (corner 0 0).position g ∧ Within (2 ^ 29) g :=
    onGrid_corner (m := 0) (n := 0) (by norm_num) (by norm_num) (by norm_num) (by norm_num)
  have h40 : ∃ g, Snapped (corner 4 0).position g ∧ Within (2 ^ 29) g :=
    onGrid_corner (m := 64) (n := 0) (by norm_num) (by norm_num) (by norm_num) (by norm_num)
  have h44 : ∃ g, Snapped (corner 4 4).position g ∧ Within (2 ^ 29) g :=
    onGrid_corner (m := 64) (n := 64) (by norm_num) (by norm_num) (by norm_num) (by norm_num)
  have h04 : ∃ g, Snapped (corner 0 4).position g ∧ Within (2 ^ 29) g :=
    onGrid_corner (m := 0) (n := 64) (by norm_num) (by norm_num) (by norm_num) (by norm_num)
  simp only [OnGrid, upperHalf, lowerHalf, List.forall_mem_cons, List.not_mem_nil, false_imp_iff,
    implies_true, and_true]
  exact ⟨⟨h00, h40, h44⟩, h00, h44, h04⟩

theorem convex_pane : Polygon.Convex [⟨0, 0⟩, ⟨4, 0⟩, ⟨4, 4⟩, (⟨0, 4⟩ : Point ℚ)] := by
  refine ⟨by decide, .inl ?_⟩
  simp [List.triplewise_cons, orient]

theorem isFan_halves : Polygon.IsFan [⟨0, 0⟩, ⟨4, 0⟩, ⟨4, 4⟩, ⟨0, 4⟩]
    ([upperHalf, lowerHalf].map positions) :=
  ⟨0, ⟨0, 0⟩, [⟨4, 0⟩, ⟨4, 4⟩, ⟨0, 4⟩], rfl, _, List.Perm.refl _,
    .cons (List.Perm.refl _) (.cons (List.Perm.refl _) .nil)⟩

theorem watertight_pane :
    [upperHalf, lowerHalf].countP (coversPixel pane ⟨0, 0, 4, 4⟩ 2 2) = 1 ∧
      ¬ (coversPixel pane ⟨0, 0, 4, 4⟩ 2 2 upperHalf ∧
        coversPixel pane ⟨0, 0, 4, 4⟩ 2 2 lowerHalf) := by
  obtain ⟨-, hopposite, hfan⟩ :=
    watertight pane (show 4 < 2 ^ 26 by decide) (show 4 < 2 ^ 26 by decide) ⟨0, 0, 4, 4⟩
  constructor
  · refine hfan _ _ convex_pane onGrid_halves isFan_halves 2 2 (by decide) ?_ (.inl ?_)
    · simp [InTarget, pane]
    · simp [pixelCentre, orient]
      norm_num
  · refine hopposite _ _ (onGrid_halves _ (by simp)) (onGrid_halves _ (by simp)) ?_ 2 2
    refine ⟨⟨0, 0⟩, ⟨4, 4⟩, ⟨4, 0⟩, ⟨0, 4⟩, ?_, List.Perm.refl _, ?_⟩
    · exact (List.Perm.swap _ _ []).cons _
    · norm_num [orient]

end Taskman.Egui.Raster
