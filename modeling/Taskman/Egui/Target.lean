import Taskman.Binary.Checked
import Mathlib.Data.List.Basic
import Mathlib.Tactic.Ring

/-!
# The pixel buffer of the software renderer

Model of `vendor/egui/crates/egui_software/src/target.rs`: the buffer the renderer draws into, one
`u32` a pixel in the layout `0x00RRGGBB`, its rows `stride` pixels apart, and the integer rectangles
that say what is drawn.

* `PixelRect` : half-open pixel rectangles;
* `Target` : a buffer that is large enough for its sizes;
* `Target.update` : the buffer with the pixels of a region changed, which is what every operation
  on it comes to;
* `Target.fillRect_eq_update` : **`fill_rect` stores the colour in the pixels of the rectangle**.
-/

namespace Taskman.Egui

/-- `Color32`: premultiplied red, green and blue, and alpha. -/
structure Color32 where
  r : UInt8
  g : UInt8
  b : UInt8
  a : UInt8
  deriving DecidableEq

/-- `pack_rgb`. -/
def packRgb (r g b : UInt8) : UInt32 :=
  (r.toUInt32 <<< 16) ||| (g.toUInt32 <<< 8) ||| b.toUInt32

/-- `usize as i32` of a size, which is a `u32`. -/
def asI32 (n : ℕ) : ℤ := (n : ℤ).bmod (2 ^ 32)

/-! ### Rectangles -/

/-- A half-open pixel rectangle. -/
structure PixelRect where
  minX : ℤ
  minY : ℤ
  maxX : ℤ
  maxY : ℤ
  deriving DecidableEq

namespace PixelRect

/-- A rectangle without pixels. -/
def IsEmpty (rect : PixelRect) : Prop := rect.maxX ≤ rect.minX ∨ rect.maxY ≤ rect.minY

instance (rect : PixelRect) : Decidable rect.IsEmpty := inferInstanceAs (Decidable (_ ∨ _))

/-- The pixels of two rectangles. -/
def intersect (rect other : PixelRect) : PixelRect where
  minX := max rect.minX other.minX
  minY := max rect.minY other.minY
  maxX := min rect.maxX other.maxX
  maxY := min rect.maxY other.maxY

/-- The pixel is in the rectangle. -/
structure Contains (rect : PixelRect) (x y : ℤ) : Prop where
  minX : rect.minX ≤ x
  maxX : x < rect.maxX
  minY : rect.minY ≤ y
  maxY : y < rect.maxY

instance (rect : PixelRect) (x y : ℤ) : Decidable (rect.Contains x y) :=
  decidable_of_iff (rect.minX ≤ x ∧ x < rect.maxX ∧ rect.minY ≤ y ∧ y < rect.maxY)
    ⟨fun h => ⟨h.1, h.2.1, h.2.2.1, h.2.2.2⟩, fun h => ⟨h.minX, h.maxX, h.minY, h.maxY⟩⟩

theorem contains_intersect {rect other : PixelRect} {x y : ℤ} :
    (rect.intersect other).Contains x y ↔ rect.Contains x y ∧ other.Contains x y := by
  constructor
  · rintro ⟨hminX, hmaxX, hminY, hmaxY⟩
    simp only [intersect, max_le_iff, lt_min_iff] at hminX hmaxX hminY hmaxY
    exact ⟨⟨hminX.1, hmaxX.1, hminY.1, hmaxY.1⟩, ⟨hminX.2, hmaxX.2, hminY.2, hmaxY.2⟩⟩
  · rintro ⟨h, h'⟩
    exact ⟨max_le h.minX h'.minX, lt_min h.maxX h'.maxX, max_le h.minY h'.minY,
      lt_min h.maxY h'.maxY⟩

theorem Contains.not_isEmpty {rect : PixelRect} {x y : ℤ} (h : rect.Contains x y) :
    ¬ rect.IsEmpty := by
  rintro (hx | hy)
  · exact (h.minX.trans_lt h.maxX).not_ge hx
  · exact (h.minY.trans_lt h.maxY).not_ge hy

end PixelRect

/-! ### Buffers -/

/-- A buffer with its sizes, which are `u32`. -/
@[ext]
structure Target where
  pixels : List UInt32
  width : ℕ
  height : ℕ
  stride : ℕ
  width_lt : width < 2 ^ 32
  height_lt : height < 2 ^ 32
  stride_lt : stride < 2 ^ 32
  width_le : width ≤ stride
  fits : stride * height - (stride - width) ≤ pixels.length

namespace Target

/-- `with_stride`: a buffer too small for the sizes is rejected. -/
def withStride (pixels : List UInt32) (width height stride : UInt32) : Option Target :=
  if hstride : stride.toNat < width.toNat then none
  else if hfits : pixels.length < stride.toNat * height.toNat - (stride.toNat - width.toNat) then
    none
  else
    some ⟨pixels, width.toNat, height.toNat, stride.toNat, width.toNat_lt, height.toNat_lt,
      stride.toNat_lt, not_lt.mp hstride, not_lt.mp hfits⟩

/-- The whole target as a rectangle. -/
def bounds (T : Target) : PixelRect := ⟨0, 0, asI32 T.width, asI32 T.height⟩

/-- `row_mut`: where the row starts, which is `width` pixels long. -/
def rowMut (T : Target) (y : ℕ) : Option ℕ :=
  if T.height ≤ y then none
  else
    let start := y * T.stride
    if start + T.width ≤ T.pixels.length then some start else none

/-- Other pixels in a buffer of the same sizes. -/
def withPixels (T : Target) (pixels : List UInt32) (h : pixels.length = T.pixels.length) :
    Target :=
  { T with pixels, fits := h ▸ T.fits }

/-- `row.get_mut(x)` and a store through it, in the row that starts there. -/
def modify (T : Target) (start x : ℕ) (f : UInt32 → UInt32) : Target :=
  T.withPixels (if x < T.width then T.pixels.modify (start + x) f else T.pixels)
    (by split_ifs <;> simp)

/-- `f` on every pixel of a slice. -/
def mapSlice (T : Target) (start len : ℕ) (f : UInt32 → UInt32) : Target :=
  T.withPixels (T.pixels.mapIdx fun i p => if start ≤ i ∧ i < start + len then f p else p)
    List.length_mapIdx

/-- `pixels[start..start + len].fill(..)`. -/
def fillSlice (T : Target) (start len : ℕ) (bgrx : UInt32) : Checked Empty Target :=
  if start + len ≤ T.pixels.length then .ok (T.mapSlice start len fun _ => bgrx)
  else .error (.panic .slice)

/-- Fill an already-clipped rectangle with an opaque colour. -/
def fillRect (T : Target) (rect : PixelRect) (bgrx : UInt32) : Checked Empty Target :=
  let minY := (max rect.minY 0).toNat
  let maxY := min (max rect.maxY 0).toNat T.height
  if maxY ≤ minY then .ok T
  else
    let minX := (max rect.minX 0).toNat
    let maxX := min (max rect.maxX 0).toNat T.width
    if maxX ≤ minX then .ok T
    else if minX = 0 ∧ maxX = T.width ∧ minY = 0 ∧ maxY = T.height ∧ T.stride = T.width then do
      let total ← Checked.mul (2 ^ 32) T.width T.height
      T.fillSlice 0 total bgrx
    else
      (List.range' minY (maxY - minY)).foldlM
        (fun T y => T.fillSlice (y * T.stride + minX) (maxX - minX) bgrx) T

/-! ### Changing the pixels of a region -/

/-- `f` on the pixels of a region. -/
def update (T : Target) (S : ℤ → ℤ → Prop) [∀ x y, Decidable (S x y)] (f : UInt32 → UInt32) :
    Target :=
  T.withPixels
    (T.pixels.mapIdx fun i p => if S ↑(i % T.stride) ↑(i / T.stride) then f p else p)
    List.length_mapIdx

section Sizes

variable (T : Target) (start len x : ℕ) (f : UInt32 → UInt32)

@[simp] theorem withPixels_width (l : List UInt32) (h : l.length = T.pixels.length) :
    (T.withPixels l h).width = T.width := rfl

@[simp] theorem withPixels_height (l : List UInt32) (h : l.length = T.pixels.length) :
    (T.withPixels l h).height = T.height := rfl

@[simp] theorem withPixels_stride (l : List UInt32) (h : l.length = T.pixels.length) :
    (T.withPixels l h).stride = T.stride := rfl

@[simp] theorem modify_stride : (T.modify start x f).stride = T.stride := rfl

@[simp] theorem modify_width : (T.modify start x f).width = T.width := rfl

@[simp] theorem mapSlice_stride : (T.mapSlice start len f).stride = T.stride := rfl

@[simp] theorem mapSlice_width : (T.mapSlice start len f).width = T.width := rfl

end Sizes

/-- Where a pixel of a row is in the buffer says which it is. -/
theorem index_eq_iff {T : Target} {x y i : ℕ} (hx : x < T.width) :
    y * T.stride + x = i ↔ i % T.stride = x ∧ i / T.stride = y := by
  have hstride : x < T.stride := hx.trans_le T.width_le
  constructor
  · rintro rfl
    rw [Nat.mul_add_mod_of_lt hstride, mul_comm, Nat.mul_add_div (Nat.zero_lt_of_lt hstride),
      Nat.div_eq_of_lt hstride, Nat.add_zero]
    exact ⟨rfl, rfl⟩
  · rintro ⟨rfl, rfl⟩
    rw [mul_comm]
    exact Nat.div_add_mod i T.stride

/-- Every row of the target is in the buffer. -/
theorem row_le_length {T : Target} {y : ℕ} (h : y < T.height) :
    y * T.stride + T.width ≤ T.pixels.length := by
  have hfits := T.fits
  have hwidth := T.width_le
  have hmul : y * T.stride + T.stride ≤ T.stride * T.height := by
    rw [← Nat.succ_mul, mul_comm T.stride]
    exact Nat.mul_le_mul_right _ h
  omega

theorem rowMut_eq_some {T : Target} {y : ℕ} (h : y < T.height) :
    T.rowMut y = some (y * T.stride) := by
  rw [rowMut, if_neg (not_le.mpr h)]
  exact if_pos (row_le_length h)

theorem withPixels_congr {T : Target} {l l' : List UInt32} {h : l.length = T.pixels.length}
    {h' : l'.length = T.pixels.length} (hl : ∀ i : ℕ, l[i]? = l'[i]?) :
    T.withPixels l h = T.withPixels l' h' := by
  obtain rfl : l = l' := List.ext_getElem? hl
  rfl

theorem ext_getElem? {T T' : Target} (hwidth : T.width = T'.width) (hheight : T.height = T'.height)
    (hstride : T.stride = T'.stride) (h : ∀ i : ℕ, T.pixels[i]? = T'.pixels[i]?) : T = T' :=
  Target.ext (List.ext_getElem? h) hwidth hheight hstride

section Update

variable {T : Target} {S S' : ℤ → ℤ → Prop} [∀ x y, Decidable (S x y)]
  [∀ x y, Decidable (S' x y)] {f : UInt32 → UInt32}

@[simp] theorem update_width : (T.update S f).width = T.width := rfl

@[simp] theorem update_height : (T.update S f).height = T.height := rfl

@[simp] theorem update_stride : (T.update S f).stride = T.stride := rfl

theorem getElem?_update (i : ℕ) :
    (T.update S f).pixels[i]? =
      T.pixels[i]?.map fun p => if S ↑(i % T.stride) ↑(i / T.stride) then f p else p :=
  List.getElem?_mapIdx

theorem update_congr (h : ∀ x y, S x y ↔ S' x y) : T.update S f = T.update S' f := by
  refine withPixels_congr fun i => ?_
  simp only [List.getElem?_mapIdx, h]

theorem update_of_forall_not (h : ∀ x y, ¬ S x y) : T.update S f = T := by
  show T.update S f = T.withPixels T.pixels rfl
  refine withPixels_congr fun i => ?_
  simp [List.getElem?_mapIdx, h]

/-- Regions that have no pixel in common, one after the other. -/
theorem update_update (h : ∀ x y, ¬ (S x y ∧ S' x y)) :
    (T.update S f).update S' f = T.update (fun x y => S x y ∨ S' x y) f := by
  refine ext_getElem? rfl rfl rfl fun i => ?_
  have hi := h ↑(i % T.stride) ↑(i / T.stride)
  rw [getElem?_update, getElem?_update, getElem?_update, Option.map_map]
  congr 1
  funext p
  show (if S' ↑(i % T.stride) ↑(i / T.stride) then
      f (if S ↑(i % T.stride) ↑(i / T.stride) then f p else p)
    else if S ↑(i % T.stride) ↑(i / T.stride) then f p else p) = _
  by_cases hS : S ↑(i % T.stride) ↑(i / T.stride)
  · rw [if_pos hS, if_neg fun hS' => hi ⟨hS, hS'⟩, if_pos (Or.inl hS)]
  · rw [if_neg hS]
    by_cases hS' : S' ↑(i % T.stride) ↑(i / T.stride)
    · rw [if_pos hS', if_pos (Or.inr hS')]
    · rw [if_neg hS', if_neg (not_or.mpr ⟨hS, hS'⟩)]

end Update

theorem modify_eq_update {T : Target} {x y : ℕ} (hx : x < T.width) (f : UInt32 → UInt32) :
    T.modify (y * T.stride) x f = T.update (fun x' y' => x' = x ∧ y' = y) f := by
  refine withPixels_congr fun i => ?_
  rw [if_pos hx, List.getElem?_modify, List.getElem?_mapIdx]
  simp only [index_eq_iff hx, Nat.cast_inj]
  rfl

/-- Which positions of the buffer a slice of a row takes. -/
theorem mem_slice_iff {T : Target} {x len : ℕ} (y i : ℕ) (hx : x + len ≤ T.width) :
    y * T.stride + x ≤ i ∧ i < y * T.stride + x + len ↔
      (x ≤ i % T.stride ∧ i % T.stride < x + len) ∧ i / T.stride = y := by
  constructor
  · rintro ⟨hlo, hhi⟩
    obtain ⟨hmod, hdiv⟩ := (index_eq_iff (T := T) (x := i - y * T.stride) (y := y) (i := i)
      (by omega)).mp (by omega)
    exact ⟨by omega, hdiv⟩
  · rintro ⟨⟨hlo, hhi⟩, hdiv⟩
    have hi := (index_eq_iff (T := T) (x := i % T.stride) (y := y) (i := i) (by omega)).mpr
      ⟨rfl, hdiv⟩
    omega

theorem mapSlice_eq_update {T : Target} {x y len : ℕ} (hx : x + len ≤ T.width)
    (f : UInt32 → UInt32) :
    T.mapSlice (y * T.stride + x) len f =
      T.update (fun x' y' => (x ≤ x' ∧ x' < x + len) ∧ y' = y) f := by
  refine withPixels_congr fun i => ?_
  rw [List.getElem?_mapIdx, List.getElem?_mapIdx]
  have hcast : ((x : ℤ) ≤ ↑(i % T.stride) ∧ (↑(i % T.stride) : ℤ) < x + len) ∧
      (↑(i / T.stride) : ℤ) = y ↔
      (x ≤ i % T.stride ∧ i % T.stride < x + len) ∧ i / T.stride = y := by
    norm_cast
  simp only [mem_slice_iff _ _ hx, hcast]

/-! ### Filling a rectangle -/

theorem fillSlice_row {T : Target} {x y len : ℕ} (hx : x + len ≤ T.width) (hy : y < T.height)
    (bgrx : UInt32) :
    T.fillSlice (y * T.stride + x) len bgrx =
      .ok (T.update (fun x' y' => (x ≤ x' ∧ x' < x + len) ∧ y' = y) fun _ => bgrx) := by
  have hle := row_le_length hy
  rw [fillSlice, if_pos (by omega), mapSlice_eq_update hx]

/-- Row by row. -/
theorem foldlM_fillSlice {T : Target} {x y len n : ℕ} (hx : x + len ≤ T.width)
    (hy : y + n ≤ T.height) (bgrx : UInt32) :
    (List.range' y n).foldlM (fun T y => T.fillSlice (y * T.stride + x) len bgrx) T =
      .ok (T.update (fun x' y' => (x ≤ x' ∧ x' < x + len) ∧ y ≤ y' ∧ y' < y + n)
        fun _ => bgrx) := by
  induction n with
  | zero =>
    rw [update_of_forall_not fun x' y' h => by omega]
    rfl
  | succ n ih =>
    rw [List.range'_1_concat, List.foldlM_append, ih (by omega), Checked.bind_ok,
      List.foldlM_cons, fillSlice_row (by exact hx) (by show y + n < T.height; omega),
      Checked.bind_ok, List.foldlM_nil]
    refine congrArg Except.ok ((update_update ?_).trans (update_congr ?_))
    · rintro x' y' ⟨⟨-, -, hlt⟩, -, heq⟩
      push_cast at heq
      omega
    · intro x' y'
      push_cast
      omega

/-- The pixels of the rectangle are all the pixels of the buffer, and too many to be counted. -/
def CountOverflows (T : Target) (rect : PixelRect) : Prop :=
  rect = ⟨0, 0, T.width, T.height⟩ ∧ T.stride = T.width ∧ 2 ^ 32 ≤ T.width * T.height

instance (T : Target) (rect : PixelRect) : Decidable (T.CountOverflows rect) :=
  inferInstanceAs (Decidable (_ ∧ _ ∧ _))

section FillRect

variable {T : Target} {rect : PixelRect} (hx : 0 ≤ rect.minX) (hx' : rect.maxX ≤ T.width)
  (hy : 0 ≤ rect.minY) (hy' : rect.maxY ≤ T.height) (hne : ¬ rect.IsEmpty) (bgrx : UInt32)

include hx hx' hy hy' hne

/-- **`fill_rect` stores the colour in the pixels of the rectangle**, unless it counts too many. -/
theorem fillRect_eq_update (h : ¬ T.CountOverflows rect) :
    T.fillRect rect bgrx = .ok (T.update rect.Contains fun _ => bgrx) := by
  obtain ⟨minX, minY, maxX, maxY⟩ := rect
  simp only [PixelRect.IsEmpty, not_or, not_le] at hx hx' hy hy' hne
  lift minX to ℕ using hx
  lift minY to ℕ using hy
  lift maxX to ℕ using by omega
  lift maxY to ℕ using by omega
  simp only [fillRect, CountOverflows, PixelRect.mk.injEq, Int.toNat_natCast, max_eq_left,
    Nat.cast_nonneg, Nat.cast_inj] at *
  rw [min_eq_left (by omega), min_eq_left (by omega), if_neg (by omega), if_neg (by omega)]
  have hcontains : ∀ x y, PixelRect.Contains ⟨minX, minY, maxX, maxY⟩ x y ↔
      (minX ≤ x ∧ x < minX + (maxX - minX : ℕ)) ∧ minY ≤ y ∧ y < minY + (maxY - minY : ℕ) := by
    intro x y
    constructor
    · rintro ⟨hminX, hmaxX, hminY, hmaxY⟩
      simp only at hminX hmaxX hminY hmaxY
      omega
    · rintro ⟨⟨hminX, hmaxX⟩, hminY, hmaxY⟩
      exact ⟨hminX, by simp only; omega, hminY, by simp only; omega⟩
  rw [update_congr hcontains]
  split_ifs with hwhole
  · obtain ⟨rfl, rfl, rfl, rfl, hstride⟩ := hwhole
    have hlt : T.width * T.height < 2 ^ 32 := by
      by_contra hge
      exact h ⟨⟨rfl, rfl, rfl, rfl⟩, hstride, not_lt.mp hge⟩
    have hlen : 0 + T.width * T.height ≤ T.pixels.length := by
      have hfits := T.fits
      rw [hstride, Nat.sub_self] at hfits
      omega
    rw [Checked.mul, if_pos hlt, Checked.bind_ok, fillSlice, if_pos hlen]
    refine congrArg Except.ok (withPixels_congr fun i => ?_)
    rw [List.getElem?_mapIdx, List.getElem?_mapIdx]
    have hpos : 0 < T.width := by exact_mod_cast hne.1
    have hmod : i % T.width < T.width := Nat.mod_lt i hpos
    have hdiv : i / T.width < T.height ↔ i < T.width * T.height := by
      rw [Nat.div_lt_iff_lt_mul hpos, mul_comm]
    have hiff : (((0 : ℕ) : ℤ) ≤ ↑(i % T.stride) ∧
          (↑(i % T.stride) : ℤ) < (0 : ℕ) + (T.width - 0 : ℕ)) ∧
        ((0 : ℕ) : ℤ) ≤ ↑(i / T.stride) ∧ (↑(i / T.stride) : ℤ) < (0 : ℕ) + (T.height - 0 : ℕ) ↔
        0 ≤ i ∧ i < 0 + T.width * T.height := by
      rw [hstride]
      generalize i / T.width = q at hdiv ⊢
      omega
    simp only [hiff]
  · exact foldlM_fillSlice (by omega) (by omega) bgrx

theorem fillRect_of_countOverflows (h : T.CountOverflows rect) :
    T.fillRect rect bgrx = .error (.panic .overflow) := by
  obtain ⟨rfl, hstride, hge⟩ := h
  simp only [PixelRect.IsEmpty, not_or, not_le, Nat.cast_pos] at hne
  have hmul : (Checked.mul (2 ^ 32) T.width T.height : Checked Empty ℕ) =
      .error (.panic .overflow) := if_neg (not_lt.mpr hge)
  simp only [fillRect, Int.toNat_natCast, max_eq_left, Nat.cast_nonneg, max_self, Int.toNat_zero,
    min_self]
  rw [if_neg (by omega), if_neg (by omega), if_pos (by simpa using hstride), hmul]
  rfl

end FillRect

end Target

end Taskman.Egui
