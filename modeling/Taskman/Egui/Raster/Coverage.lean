import Taskman.Egui.Raster.Loops
import Taskman.Geometry.Polygon

/-!
# What a triangle covers

The loops start at the clipped bounding box, in which every pixel of the triangle is, with a
triangle that is positively wound; so they visit the pixels of the triangle that are clipped and in
the target, once each, and nothing is stored anywhere else.

* `InRegion` : these pixels, for the corners on the grid;
* `covered_enumerates` : **the pixels a triangle covers are those of its region, once each**;
* `triangle_uniform`, `triangle_frame` : what is stored there, and that nothing else changes.
-/

namespace Taskman.Egui.Raster

open Point

/-! ### Setting up -/

theorem toFixed_abs_le (v : ℚ) : |toFixed v| ≤ 2 ^ 29 := by
  rw [toFixed, abs_le]
  omega

theorem within_fixed (v : ScreenVertex) : Within (2 ^ 29) ⟨toFixed v.x, toFixed v.y⟩ :=
  ⟨toFixed_abs_le v.x, toFixed_abs_le v.y⟩

/-- The bounding box in whole pixels. -/
def boxOf (p : Three (Point ℤ)) : PixelRect where
  minX := min (min p.e0.x p.e1.x) p.e2.x >>> subBits
  minY := min (min p.e0.y p.e1.y) p.e2.y >>> subBits
  maxX := (max (max p.e0.x p.e1.x) p.e2.x >>> subBits) + 1
  maxY := (max (max p.e0.y p.e1.y) p.e2.y >>> subBits) + 1

/-- What of the box is clipped and in the target. -/
def boundsOf (T : Target) (clip : PixelRect) (p : Three (Point ℤ)) : PixelRect :=
  (clip.intersect T.bounds).intersect (boxOf p)

theorem shiftRight_subBits (n : ℤ) : n >>> subBits = n / 16 := Int.shiftRight_eq_div_pow n 4

theorem centre_eq {x y : ℤ} (hx : 0 ≤ x) (hx' : x ≤ 2 ^ 25 + 1) (hy : 0 ≤ y)
    (hy' : y ≤ 2 ^ 25 + 1) : centre x y = .ok (centreAt x y) := by
  have hok : ∀ {z : ℤ}, 0 ≤ z → z ≤ 2 ^ 25 + 1 → i32 (z * subOne) = .ok (16 * z) ∧
      i32 (16 * z + subOne / 2) = .ok (16 * z + 8) := by
    intro z hz hz'
    constructor
    · rw [subOne, mul_comm]
      exact i32_ok (abs_lt.mpr (by omega))
    · exact i32_ok (abs_lt.mpr (by simp only [subOne]; omega))
  rw [centre, (hok hx hx').1, Checked.bind_ok, (hok hx hx').2, Checked.bind_ok, (hok hy hy').1,
    Checked.bind_ok, (hok hy hy').2, Checked.bind_ok]
  rfl

theorem Three.mapM_eq {α β : Type} {t : Three α} {f : α → Checked Empty β} {g : α → β}
    (h0 : f t.e0 = .ok (g t.e0)) (h1 : f t.e1 = .ok (g t.e1)) (h2 : f t.e2 = .ok (g t.e2)) :
    t.mapM f = .ok (t.map g) := by
  rw [Three.mapM, h0, h1, h2]
  rfl

section Wound

variable {T : Target} {clip : PixelRect} {v : Three ScreenVertex} {p : Three (Point ℤ)}
  (h0 : Within (2 ^ 29) p.e0) (h1 : Within (2 ^ 29) p.e1) (h2 : Within (2 ^ 29) p.e2)

include h0 h1 h2

theorem boxOf_le : (-2 ^ 25 ≤ (boxOf p).maxX ∧ (boxOf p).maxX ≤ 2 ^ 25 + 1) ∧
    -2 ^ 25 ≤ (boxOf p).maxY ∧ (boxOf p).maxY ≤ 2 ^ 25 + 1 := by
  have hx0 := abs_le.mp h0.x
  have hx1 := abs_le.mp h1.x
  have hx2 := abs_le.mp h2.x
  have hy0 := abs_le.mp h0.y
  have hy1 := abs_le.mp h1.y
  have hy2 := abs_le.mp h2.y
  simp only [boxOf, shiftRight_subBits]
  omega

theorem boundingBox_eq : boundingBox p = .ok (boxOf p) := by
  obtain ⟨⟨hx, hx'⟩, hy, hy'⟩ := boxOf_le h0 h1 h2
  have hokX : i32 (boxOf p).maxX = .ok (boxOf p).maxX := i32_ok (abs_lt.mpr (by omega))
  have hokY : i32 (boxOf p).maxY = .ok (boxOf p).maxY := i32_ok (abs_lt.mpr (by omega))
  show (i32 (boxOf p).maxX >>= fun maxX => i32 (boxOf p).maxY >>= fun maxY => _) = _
  rw [hokX, Checked.bind_ok, hokY, Checked.bind_ok]
  rfl

/-- What the loops start with. -/
def setupOf (T : Target) (clip : PixelRect) (v : Three ScreenVertex) (p : Three (Point ℤ))
    (area : ℤ) : Setup where
  v := v
  area := area
  bounds := boundsOf T clip p
  rowW := weights p (boundsOf T clip p).minX (boundsOf T clip p).minY
  stepX := (edges p).map fun e => (e.1.y - e.2.y) * subOne
  stepY := (edges p).map fun e => (e.2.x - e.1.x) * subOne

theorem exact_setupOf (area : ℤ) : (setupOf T clip v p area).Exact p := by
  obtain ⟨⟨-, hx⟩, -, hy⟩ := boxOf_le h0 h1 h2
  exact {
    e0 := h0
    e1 := h1
    e2 := h2
    minX := (le_max_right _ _).trans (le_max_left _ _)
    minY := (le_max_right _ _).trans (le_max_left _ _)
    maxX := (min_le_right _ _).trans hx
    maxY := (min_le_right _ _).trans hy
    rowW := rfl
    stepX := rfl
    stepY := rfl }

/-- The set-up of a positively wound triangle. -/
theorem setupWound_eq (area : ℤ) :
    setupWound T clip v p area =
      .ok (if (boundsOf T clip p).IsEmpty then none else some (setupOf T clip v p area)) := by
  have hexact : (setupOf T clip v p area).Exact p := exact_setupOf h0 h1 h2 area
  rw [setupWound, boundingBox_eq h0 h1 h2, Checked.bind_ok]
  show (if (boundsOf T clip p).IsEmpty then _ else _) = _
  split_ifs with hempty
  · rfl
  · have hx : (boundsOf T clip p).minX < (boundsOf T clip p).maxX :=
      not_le.mp (not_or.mp hempty).1
    have hy : (boundsOf T clip p).minY < (boundsOf T clip p).maxY :=
      not_le.mp (not_or.mp hempty).2
    have hc : Within (2 ^ 30) (centreAt (boundsOf T clip p).minX (boundsOf T clip p).minY) :=
      hexact.within_centre le_rfl hx.le le_rfl hy.le
    have hfirst : centre (boundsOf T clip p).minX (boundsOf T clip p).minY =
        .ok (centreAt (boundsOf T clip p).minX (boundsOf T clip p).minY) :=
      centre_eq hexact.minX (hx.le.trans hexact.maxX) hexact.minY (hy.le.trans hexact.maxY)
    show ((edges p).mapM stepX >>= fun rightward => (edges p).mapM stepY >>= fun downward =>
      centre (boundsOf T clip p).minX (boundsOf T clip p).minY >>= fun first =>
        (edges p).mapM (weight first) >>= fun rowW => pure (some _)) = _
    rw [Three.mapM_eq (g := fun e => (e.1.y - e.2.y) * subOne) (stepX_eq h1 h2) (stepX_eq h2 h0)
        (stepX_eq h0 h1), Checked.bind_ok,
      Three.mapM_eq (g := fun e => (e.2.x - e.1.x) * subOne) (stepY_eq h1 h2) (stepY_eq h2 h0)
        (stepY_eq h0 h1), Checked.bind_ok, hfirst, Checked.bind_ok,
      Three.mapM_eq (g := edgeValue _ _) (weight_eq h1 h2 hc) (weight_eq h2 h0 hc)
        (weight_eq h0 h1 hc), Checked.bind_ok]
    rfl

end Wound

/-! ### The pixels of a triangle -/

/-- The centre of the pixel is the triangle's, for corners on the grid. -/
def Owns (p : Three (Point ℤ)) (x y : ℤ) : Prop := Covers p.e0 p.e1 p.e2 (centreAt x y)

instance (p : Three (Point ℤ)) (x y : ℤ) : Decidable (Owns p x y) :=
  inferInstanceAs (Decidable (Covers _ _ _ _))

/-- The pixel is clipped, in the target, and the triangle's. -/
structure InRegion (T : Target) (clip : PixelRect) (v : Three ScreenVertex) (x y : ℤ) : Prop where
  clip : clip.Contains x y
  target : T.bounds.Contains x y
  owns : Owns (fixed v) x y

instance (T : Target) (clip : PixelRect) (v : Three ScreenVertex) (x y : ℤ) :
    Decidable (InRegion T clip v x y) :=
  decidable_of_iff (clip.Contains x y ∧ T.bounds.Contains x y ∧ Owns (fixed v) x y)
    ⟨fun h => ⟨h.1, h.2.1, h.2.2⟩, fun h => ⟨h.clip, h.target, h.owns⟩⟩

theorem owns_iff_inside {p : Three (Point ℤ)} (h : 0 < orient p.e0 p.e1 p.e2) {x y : ℤ} :
    Owns p x y ↔ inside (weights p x y) := by
  rw [Owns, covers_iff_wins h, inside_weights_iff, and_comm, and_assoc]

theorem contains_boxOf {p : Three (Point ℤ)} (h : 0 < orient p.e0 p.e1 p.e2) {x y : ℤ}
    (howns : Owns p x y) : (boxOf p).Contains x y := by
  obtain ⟨h01, h12, h20⟩ := (covers_iff_wins h).mp howns
  obtain ⟨⟨hx, hx'⟩, hy, hy'⟩ := between_of_wins h h01 h12 h20
  simp only [centreAt] at hx hx' hy hy'
  constructor <;> simp only [boxOf, shiftRight_subBits] <;> omega

theorem contains_boundsOf_iff {T : Target} {clip : PixelRect} {p : Three (Point ℤ)}
    (h : 0 < orient p.e0 p.e1 p.e2) {x y : ℤ} :
    (boundsOf T clip p).Contains x y ∧ inside (weights p x y) ↔
      clip.Contains x y ∧ T.bounds.Contains x y ∧ Owns p x y := by
  rw [boundsOf, PixelRect.contains_intersect, PixelRect.contains_intersect, ← owns_iff_inside h]
  constructor
  · rintro ⟨⟨⟨hclip, htarget⟩, -⟩, howns⟩
    exact ⟨hclip, htarget, howns⟩
  · rintro ⟨hclip, htarget, howns⟩
    exact ⟨⟨⟨hclip, htarget⟩, contains_boxOf h howns⟩, howns⟩

/-- What the loops of a triangle start with, if they start. -/
structure Setup.Draws (s : Setup) (T : Target) (clip : PixelRect) (v : Three ScreenVertex)
    (p : Three (Point ℤ)) : Prop where
  exact : s.Exact p
  nonempty : ¬ s.bounds.IsEmpty
  vertices : s.v = v ∨ s.v = v.swap
  region : ∀ x y, s.bounds.Contains x y ∧ inside (weights p x y) ↔ InRegion T clip v x y
  rows : ∀ y, s.bounds.minY ≤ y → y < s.bounds.maxY → (T.rowMut y.toNat).isSome

theorem asI32_le (n : ℕ) : asI32 n ≤ n := by
  unfold asI32
  rw [Int.bmod_def]
  split_ifs <;> omega

theorem toNat_lt_of_lt_asI32 {n : ℕ} {z : ℤ} (hz : 0 ≤ z) (h : z < asI32 n) : z.toNat < n := by
  have := asI32_le n
  omega

section Setup

variable (T : Target) (clip : PixelRect) (v : Three ScreenVertex)

theorem setupWound_draws {v' : Three ScreenVertex} {p : Three (Point ℤ)} {area : ℤ}
    (h0 : Within (2 ^ 29) p.e0) (h1 : Within (2 ^ 29) p.e1) (h2 : Within (2 ^ 29) p.e2)
    (hpos : 0 < orient p.e0 p.e1 p.e2) (hv : v' = v ∨ v' = v.swap)
    (howns : ∀ x y, Owns p x y ↔ Owns (fixed v) x y) :
    (setupWound T clip v' p area = .ok none ∧ ∀ x y, ¬ InRegion T clip v x y) ∨
      ∃ s, setupWound T clip v' p area = .ok (some s) ∧ s.Draws T clip v p := by
  have hregion : ∀ x y, (boundsOf T clip p).Contains x y ∧ inside (weights p x y) ↔
      InRegion T clip v x y := by
    intro x y
    rw [contains_boundsOf_iff hpos, howns]
    exact ⟨fun h => ⟨h.1, h.2.1, h.2.2⟩, fun h => ⟨h.clip, h.target, h.owns⟩⟩
  rw [setupWound_eq h0 h1 h2]
  by_cases hempty : (boundsOf T clip p).IsEmpty
  · rw [if_pos hempty]
    exact .inl ⟨rfl, fun x y hin => ((hregion x y).mpr hin).1.not_isEmpty hempty⟩
  · rw [if_neg hempty]
    have hexact : (setupOf T clip v' p area).Exact p := exact_setupOf h0 h1 h2 area
    refine .inr ⟨setupOf T clip v' p area, rfl, hexact, hempty, hv, hregion, fun y hy hy' => ?_⟩
    have hle : (boundsOf T clip p).maxY ≤ T.bounds.maxY :=
      (min_le_left _ _).trans (min_le_right _ _)
    have hlt : y < T.bounds.maxY := lt_of_lt_of_le hy' hle
    simp only [Target.bounds] at hlt
    have h0y : 0 ≤ y := le_trans hexact.minY hy
    have hrow : y.toNat < T.height := toNat_lt_of_lt_asI32 h0y hlt
    rw [Target.rowMut_eq_some hrow]
    rfl

/-- **The set-up of every triangle.** -/
theorem setup_draws :
    (setup T clip v = .ok none ∧ ∀ x y, ¬ InRegion T clip v x y) ∨
      ∃ s p, setup T clip v = .ok (some s) ∧ s.Draws T clip v p := by
  have h0 := within_fixed v.e0
  have h1 := within_fixed v.e1
  have h2 := within_fixed v.e2
  have hle : ∀ {q}, Within (2 ^ 29) q → Within (2 ^ 30) q :=
    fun hq => ⟨hq.x.trans (by norm_num), hq.y.trans (by norm_num)⟩
  have harea : orient2d (fixed v).e0 (fixed v).e1 (fixed v).e2 =
      .ok (orient (fixed v).e0 (fixed v).e1 (fixed v).e2) := orient2d_eq h0 h1 (hle h2)
  have hlt := (abs_orient_le h0 h1 (hle h2)).trans_lt (show (3 * 2 ^ 60 : ℤ) < 2 ^ 63 by norm_num)
  rw [setup, harea, Checked.bind_ok]
  obtain hneg | hzero | hpos := lt_trichotomy (orient (fixed v).e0 (fixed v).e1 (fixed v).e2) 0
  · rw [if_neg hneg.ne, if_pos hneg, i64_ok (by rwa [abs_neg]), Checked.bind_ok]
    have hpos : 0 < orient (fixed v).swap.e0 (fixed v).swap.e1 (fixed v).swap.e2 := by
      show 0 < orient (fixed v).e1 (fixed v).e0 (fixed v).e2
      rw [orient_swap]
      exact neg_pos.mpr hneg
    obtain hnone | ⟨s, hs, hdraws⟩ := setupWound_draws T clip v h1 h0 h2 hpos (.inr rfl)
      fun x y => covers_swap
    · exact .inl hnone
    · exact .inr ⟨s, _, hs, hdraws⟩
  · rw [if_pos hzero]
    exact .inl ⟨rfl, fun x y hin => not_covers_of_orient_eq_zero hzero hin.owns⟩
  · rw [if_neg hpos.ne', if_neg hpos.not_gt]
    obtain hnone | ⟨s, hs, hdraws⟩ := setupWound_draws T clip v h0 h1 h2 hpos (.inl rfl)
      fun x y => Iff.rfl
    · exact .inl hnone
    · exact .inr ⟨s, _, hs, hdraws⟩

end Setup

/-! ### The pixels the loops visit -/

/-- The pixels of the region, in the order of the loops. -/
structure Enumerates (T : Target) (clip : PixelRect) (v : Three ScreenVertex)
    (pixels : List (ℤ × ℤ)) : Prop where
  nodup : pixels.Nodup
  mem_iff : ∀ x y, (x, y) ∈ pixels ↔ InRegion T clip v x y

namespace Setup.Draws

variable {s : Setup} {T : Target} {clip : PixelRect} {v : Three ScreenVertex}
  {p : Three (Point ℤ)} (h : s.Draws T clip v p)

include h

theorem enumerates : Enumerates T clip v (hits s.bounds p) :=
  ⟨nodup_hits s.bounds p, fun x y => mem_hits.trans (h.region x y)⟩

theorem scan_eq {σ : Type} (visit : ℤ → ℤ → Three ℤ → σ → σ) (a : σ) :
    s.scan (fun y => (T.rowMut y.toNat).isSome) visit a =
      .ok ((hits s.bounds p).foldl (fun a q => visit q.1 q.2 (weights p q.1 q.2) a) a) :=
  h.exact.scan_eq h.nonempty h.rows a

end Setup.Draws

/-- **The pixels a triangle covers are those of its region, once each.** -/
theorem covered_enumerates (T : Target) (clip : PixelRect) (v : Three ScreenVertex) :
    ∃ pixels, covered T clip v = .ok pixels ∧ Enumerates T clip v pixels := by
  obtain ⟨hnone, hregion⟩ | ⟨s, p, hs, hdraws⟩ := setup_draws T clip v
  · refine ⟨[], ?_, List.nodup_nil, fun x y => iff_of_false List.not_mem_nil (hregion x y)⟩
    rw [covered, hnone]
    rfl
  · refine ⟨hits s.bounds p, ?_, hdraws.enumerates⟩
    rw [covered, hs, Checked.bind_ok]
    show s.scan _ _ [] = _
    rw [hdraws.scan_eq]
    have hcopy : ∀ l acc : List (ℤ × ℤ), l.foldl (fun acc q => acc ++ [(q.1, q.2)]) acc =
        acc ++ l := by
      intro l
      induction l with
      | nil => exact fun acc => (List.append_nil acc).symm
      | cons q l ih => exact fun acc => (ih _).trans (List.append_assoc acc [q] l)
    exact congrArg Except.ok (hcopy (hits s.bounds p) [])

/-! ### What is stored -/

theorem toNat_lt_of_contains {T : Target} {x y : ℤ} (h : T.bounds.Contains x y) :
    (0 ≤ x ∧ x.toNat < T.width) ∧ 0 ≤ y ∧ y.toNat < T.height := by
  have hx := h.maxX
  have hy := h.maxY
  simp only [Target.bounds] at hx hy
  exact ⟨⟨h.minX, toNat_lt_of_lt_asI32 h.minX hx⟩, h.minY, toNat_lt_of_lt_asI32 h.minY hy⟩

/-- A store to a pixel of the target. -/
theorem store_eq_update {T : Target} {x y : ℤ} (h : T.bounds.Contains x y)
    (paint : Three ℤ → UInt32 → UInt32) (w : Three ℤ) :
    store paint x y w T = T.update (fun x' y' => x' = x ∧ y' = y) (paint w) := by
  obtain ⟨⟨hx, hx'⟩, hy, hy'⟩ := toNat_lt_of_contains h
  rw [store, Target.rowMut_eq_some hy']
  show T.modify (y.toNat * T.stride) x.toNat (paint w) = _
  rw [Target.modify_eq_update hx']
  simp only [Int.toNat_of_nonneg hx, Int.toNat_of_nonneg hy]

/-- The stores of one colour after the other. -/
theorem foldl_store_const {T : Target} {pixels : List (ℤ × ℤ)} (hnodup : pixels.Nodup)
    (hin : ∀ q ∈ pixels, T.bounds.Contains q.1 q.2) (f : UInt32 → UInt32)
    (w : ℤ × ℤ → Three ℤ) :
    pixels.foldl (fun T q => store (fun _ => f) q.1 q.2 (w q) T) T =
      T.update (fun x y => (x, y) ∈ pixels) f := by
  induction pixels generalizing T with
  | nil => exact (Target.update_of_forall_not fun x y => List.not_mem_nil).symm
  | cons q pixels ih =>
    obtain ⟨hq, hnodup⟩ := List.nodup_cons.mp hnodup
    rw [List.foldl_cons, store_eq_update (hin q List.mem_cons_self),
      ih hnodup (by exact fun r hr => hin r (List.mem_cons_of_mem q hr))]
    refine (Target.update_update ?_).trans (Target.update_congr fun x y => ?_)
    · rintro x y ⟨⟨rfl, rfl⟩, hmem⟩
      exact hq hmem
    · rw [List.mem_cons, Prod.ext_iff]

/-- Stores leave the other pixels as they are. -/
theorem foldl_store_getElem? {T : Target} {pixels : List (ℤ × ℤ)}
    (hin : ∀ q ∈ pixels, T.bounds.Contains q.1 q.2) (paint : Three ℤ → UInt32 → UInt32)
    (w : ℤ × ℤ → Three ℤ) {i : ℕ}
    (hi : (((i % T.stride : ℕ) : ℤ), ((i / T.stride : ℕ) : ℤ)) ∉ pixels) :
    (pixels.foldl (fun T q => store paint q.1 q.2 (w q) T) T).pixels[i]? = T.pixels[i]? := by
  induction pixels generalizing T with
  | nil => rfl
  | cons q pixels ih =>
    obtain ⟨hq, hrest⟩ := not_or.mp (mt List.mem_cons.mpr hi)
    rw [List.foldl_cons, store_eq_update (hin q List.mem_cons_self)]
    rw [ih (by exact fun r hr => hin r (List.mem_cons_of_mem q hr)) (by exact hrest),
      Target.getElem?_update]
    have hne : ¬ (((i % T.stride : ℕ) : ℤ) = q.1 ∧ ((i / T.stride : ℕ) : ℤ) = q.2) :=
      fun h => hq (Prod.ext h.1 h.2)
    simp only [if_neg hne, Option.map_id']

theorem Enumerates.contains {T : Target} {clip : PixelRect} {v : Three ScreenVertex}
    {pixels : List (ℤ × ℤ)} (h : Enumerates T clip v pixels) :
    ∀ q ∈ pixels, T.bounds.Contains q.1 q.2 :=
  fun q hq => ((h.mem_iff q.1 q.2).mp hq).target

/-- What a triangle of one colour and without a texture does to a pixel. -/
def uniformPaint (color : Color32) : UInt32 → UInt32 :=
  if color.a = 255 then fun _ => packRgb color.r color.g color.b
  else blendOver (Shade.ofColor color)

/-- **A uniform triangle blends its colour into the pixels of its region once.** -/
theorem triangle_uniform (T : Target) (clip : PixelRect) {v : Three ScreenVertex} {color : Color32}
    (h0 : v.e0.color = color) (h1 : v.e1.color = color) (h2 : v.e2.color = color)
    (ha : color.a ≠ 0) :
    triangle T clip v none = .ok (T.update (InRegion T clip v) (uniformPaint color)) := by
  obtain ⟨hnone, hregion⟩ | ⟨s, p, hs, hdraws⟩ := setup_draws T clip v
  · rw [triangle, hnone, Target.update_of_forall_not hregion]
    rfl
  · have hscan : ∀ f : UInt32 → UInt32,
        s.scan (fun y => (T.rowMut y.toNat).isSome) (store fun _ => f) T =
          .ok (T.update (InRegion T clip v) f) := by
      intro f
      rw [hdraws.scan_eq, foldl_store_const hdraws.enumerates.nodup hdraws.enumerates.contains]
      exact congrArg Except.ok (Target.update_congr hdraws.enumerates.mem_iff)
    have hcolor : s.v.e0.color = color ∧ s.v.e1.color = color ∧ s.v.e2.color = color := by
      rcases hdraws.vertices with hv | hv
      · rw [hv]
        exact ⟨h0, h1, h2⟩
      · rw [hv]
        exact ⟨h1, h0, h2⟩
    obtain ⟨hc0, hc1, hc2⟩ := hcolor
    rw [triangle, hs, Checked.bind_ok]
    dsimp only
    rw [if_pos ⟨rfl, hc0.trans hc1.symm, hc1.trans hc2.symm⟩, hc0, if_neg ha, uniformPaint]
    split_ifs with hopaque
    · exact hscan fun _ => packRgb color.r color.g color.b
    · exact hscan (blendOver (Shade.ofColor color))

/-- **Whatever its colours, a triangle changes pixels of its region alone.** -/
theorem triangle_frame (T : Target) (clip : PixelRect) (v : Three ScreenVertex)
    (texture : Option Texture) :
    ∃ T', triangle T clip v texture = .ok T' ∧ ∀ i : ℕ, T'.pixels[i]? ≠ T.pixels[i]? →
      InRegion T clip v ↑(i % T.stride) ↑(i / T.stride) := by
  have hsame : ∃ T', (.ok T : Checked Empty Target) = .ok T' ∧
      ∀ i : ℕ, T'.pixels[i]? ≠ T.pixels[i]? →
        InRegion T clip v ↑(i % T.stride) ↑(i / T.stride) :=
    ⟨T, rfl, fun i hi => absurd rfl hi⟩
  obtain ⟨hnone, -⟩ | ⟨s, p, hs, hdraws⟩ := setup_draws T clip v
  · rw [triangle, hnone]
    exact hsame
  · have hscan : ∀ paint : Three ℤ → UInt32 → UInt32, ∃ T',
        s.scan (fun y => (T.rowMut y.toNat).isSome) (store paint) T = .ok T' ∧
          ∀ i : ℕ, T'.pixels[i]? ≠ T.pixels[i]? →
            InRegion T clip v ↑(i % T.stride) ↑(i / T.stride) := by
      intro paint
      refine ⟨_, hdraws.scan_eq (store paint) T, fun i hi => ?_⟩
      refine (hdraws.enumerates.mem_iff _ _).mp ?_
      by_contra hmem
      exact hi (foldl_store_getElem? hdraws.enumerates.contains paint
        (fun q => weights p q.1 q.2) hmem)
    rw [triangle, hs, Checked.bind_ok]
    dsimp only
    split_ifs
    · exact hsame
    · exact hscan _
    · exact hscan _
    · exact hscan _

end Taskman.Egui.Raster
