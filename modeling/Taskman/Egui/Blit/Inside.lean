import Taskman.Egui.Blit
import Taskman.Egui.Raster.Loops

/-!
# The glyph blit stays inside atlas and target

Below 2^29 pixels in every direction no index of the blit is out of range and no sum overflows.
What it does to the target is to blend into each pixel of the clipped quad its own texel, where the
atlas has it.

* `Texture.texelAt`, `Target.pixelAt` : a texel and a pixel by their coordinates;
* `blendTexel_eq` : blending a texel never fails, and `blended` is its result;
* `Target.paint` : a target with every pixel changed as its place says;
* `blitRect_eq` : **the blit is such a change**;
* `blitQuad_inside` : **a quad that is refused changes nothing, and another one only the pixels in
  clip, target and quad whose texels lie in the atlas, by colour, texel and old value alone**.
-/

namespace Taskman.Egui

/-! ### Places -/

namespace Target

/-- A pixel of the target. -/
def pixelAt (T : Target) (x y : ℤ) : Option UInt32 :=
  if 0 ≤ x ∧ x < T.width ∧ 0 ≤ y ∧ y < T.height then T.pixels[y.toNat * T.stride + x.toNat]?
  else none

/-- Every pixel changed as its place says. -/
def paint (T : Target) (f : ℤ → ℤ → UInt32 → UInt32) : Target :=
  T.withPixels (T.pixels.mapIdx fun i p => f ↑(i % T.stride) ↑(i / T.stride) p) List.length_mapIdx

variable {T : Target} {f f' : ℤ → ℤ → UInt32 → UInt32}

@[simp] theorem paint_width : (T.paint f).width = T.width := rfl

@[simp] theorem paint_height : (T.paint f).height = T.height := rfl

@[simp] theorem paint_stride : (T.paint f).stride = T.stride := rfl

theorem getElem?_paint (i : ℕ) :
    (T.paint f).pixels[i]? = T.pixels[i]?.map (f ↑(i % T.stride) ↑(i / T.stride)) :=
  List.getElem?_mapIdx

theorem paint_congr (h : ∀ x y p, f x y p = f' x y p) : T.paint f = T.paint f' := by
  refine withPixels_congr fun i => ?_
  simp only [List.getElem?_mapIdx, h]

theorem paint_id (h : ∀ x y p, f x y p = p) : T.paint f = T := by
  refine ext_getElem? rfl rfl rfl fun i => ?_
  rw [getElem?_paint, show f ↑(i % T.stride) ↑(i / T.stride) = id from funext (h _ _),
    Option.map_id_fun, id_eq]

theorem paint_paint : (T.paint f).paint f' = T.paint fun x y p => f' x y (f x y p) := by
  refine ext_getElem? rfl rfl rfl fun i => ?_
  rw [getElem?_paint, getElem?_paint, getElem?_paint, Option.map_map]
  rfl

/-- What painting does to a pixel of the target. -/
theorem pixelAt_paint (x y : ℤ) : (T.paint f).pixelAt x y = (T.pixelAt x y).map (f x y) := by
  by_cases h : 0 ≤ x ∧ x < T.width ∧ 0 ≤ y ∧ y < T.height
  · obtain ⟨hx, hx', hy, hy'⟩ := id h
    lift x to ℕ using hx
    lift y to ℕ using hy
    obtain ⟨hmod, hdiv⟩ := (index_eq_iff (T := T) (x := x) (y := y) (by exact_mod_cast hx')).mp rfl
    rw [pixelAt, pixelAt, paint_width, paint_height, if_pos h, if_pos h, getElem?_paint]
    simp only [Int.toNat_natCast, paint_stride, hmod, hdiv]
  · rw [pixelAt, pixelAt, paint_width, paint_height, if_neg h, if_neg h, Option.map_none]

end Target

namespace Blit

open Raster

/-- A texel of the atlas. -/
def Texture.texelAt (atlas : Texture) (u v : ℤ) : Option Color32 :=
  if 0 ≤ u ∧ u < atlas.width ∧ 0 ≤ v ∧ v < atlas.height then
    atlas.pixels[v.toNat * atlas.width + u.toNat]?
  else none

/-! ### Blending never fails -/

theorem blendChannelFast_ok (gamma : TextGamma) {sLinear : ℕ} (hs : sLinear < 2 ^ 16)
    (src dst cov : UInt8) : ∃ out, gamma.blendChannelFast sLinear src dst cov = .ok out := by
  rw [TextGamma.blendChannelFast]
  dsimp only
  set a := (gamma.contrastLut cov).toNat
  set d := (gamma.toLinear dst).toNat
  split
  · exact ⟨dst, rfl⟩
  · split
    · exact ⟨src, rfl⟩
    · rename_i hzero hlt
      have hd : d < 2 ^ 16 := (gamma.toLinear dst).toNat_lt
      have hsa : sLinear * a ≤ 65535 * a := Nat.mul_le_mul_right a (by omega)
      have hda : d * (255 - a) ≤ 65535 * (255 - a) := Nat.mul_le_mul_right _ (by omega)
      have hmixed : ((sLinear * a + d * (255 - a)) / 255) >>> 4 < gamma.fromLinear.length := by
        rw [gamma.length_fromLinear, Nat.shiftRight_eq_div_pow]
        omega
      rw [Checked.mul, if_pos (by omega), Checked.bind_ok, Checked.sub, if_pos (by omega),
        Checked.bind_ok, Checked.mul, if_pos (by omega), Checked.bind_ok, Checked.add,
        if_pos (by omega), Checked.bind_ok, List.getElem?_eq_getElem hmixed]
      exact ⟨_, rfl⟩

theorem scale_ok (ca cov : UInt8) : ∃ out, scale ca cov = .ok out := by
  have hprod : cov.toNat * ca.toNat ≤ 255 * 255 :=
    Nat.mul_le_mul (Nat.le_of_lt_succ cov.toNat_lt) (Nat.le_of_lt_succ ca.toNat_lt)
  rw [scale, Checked.mul, if_pos (by omega), Checked.bind_ok, Checked.add, if_pos (by omega),
    Checked.bind_ok]
  exact ⟨_, rfl⟩

theorem coverage_ok (blend : TextBlend) (color texel : Color32) :
    ∃ out, coverage blend color texel = .ok out := by
  obtain ⟨g, hg⟩ := scale_ok color.a texel.g
  obtain ⟨r, hr⟩ := scale_ok color.a texel.r
  obtain ⟨b, hb⟩ := scale_ok color.a texel.b
  by_cases ha : color.a = 255
  · by_cases hswap : blend.subpixel = .bgr <;> simp [coverage, ha, hswap, pure, Except.pure]
  · by_cases hswap : blend.subpixel = .bgr <;>
      simp [coverage, ha, hswap, hg, hr, hb, Checked.bind_ok, pure, Except.pure]

theorem blendSubpixel_ok (blend : TextBlend) (color texel : Color32) (dst : UInt32) :
    ∃ out, blendSubpixel blend color texel dst = .ok out := by
  obtain ⟨⟨covR, covG, covB⟩, hcov⟩ := coverage_ok blend color texel
  have hchannel := fun (src dst cov : UInt8) =>
    blendChannelFast_ok blend.gamma (blend.gamma.toLinear src).toNat_lt src dst cov
  obtain ⟨r, hr⟩ := hchannel (toSrgbUnmultiplied color).1 (channel dst 16).toUInt8 covR
  obtain ⟨g, hg⟩ := hchannel (toSrgbUnmultiplied color).2.1 (channel dst 8).toUInt8 covG
  obtain ⟨b, hb⟩ := hchannel (toSrgbUnmultiplied color).2.2 (channel dst 0).toUInt8 covB
  refine ⟨packRgb r g b, ?_⟩
  simp only [blendSubpixel, hcov, Checked.bind_ok, hr, hg, hb]
  rfl

theorem blendTexel_ok (blend : TextBlend) (color texel : Color32) (dst : UInt32) :
    ∃ out, blendTexel blend color texel dst = .ok out := by
  obtain ⟨out, hout⟩ := blendSubpixel_ok blend color texel dst
  rw [blendTexel]
  dsimp only
  split_ifs
  · exact ⟨_, rfl⟩
  · exact ⟨_, rfl⟩
  · exact ⟨_, rfl⟩
  · exact ⟨_, rfl⟩
  · exact ⟨out, hout⟩

/-- What a texel makes of a pixel. -/
def blended (blend : TextBlend) (color texel : Color32) (dst : UInt32) : UInt32 :=
  (blendTexel blend color texel dst).toOption.getD dst

theorem blendTexel_eq (blend : TextBlend) (color texel : Color32) (dst : UInt32) :
    blendTexel blend color texel dst = .ok (blended blend color texel dst) := by
  obtain ⟨out, hout⟩ := blendTexel_ok blend color texel dst
  rw [blended, hout]
  rfl

/-! ### A row -/

/-- The texels of a slice, each blended into its own pixel. -/
theorem blendSlice_eq {f : Color32 → UInt32 → Checked Empty UInt32}
    {out : Color32 → UInt32 → UInt32} (hf : ∀ texel dst, f texel dst = .ok (out texel dst))
    (src : List Color32) (i : ℕ) (T : Target) :
    ∃ T', blendSlice f src i T = .ok T' ∧ T'.width = T.width ∧ T'.height = T.height ∧
      T'.stride = T.stride ∧ ∀ j : ℕ, T'.pixels[j]? = T.pixels[j]?.map fun p =>
        if i ≤ j then (src[j - i]?).elim p (out · p) else p := by
  induction src generalizing i T with
  | nil => exact ⟨T, rfl, rfl, rfl, rfl, fun j => by simp⟩
  | cons texel src ih =>
    rw [blendSlice]
    cases hi : T.pixels[i]? with
    | none =>
      refine ⟨T, rfl, rfl, rfl, rfl, fun j => ?_⟩
      have hlen := List.getElem?_eq_none_iff.mp hi
      by_cases hj : i ≤ j
      · rw [List.getElem?_eq_none (hlen.trans hj), Option.map_none]
      · simp [hj]
    | some dst =>
      obtain ⟨T', hT', hwidth, hheight, hstride, hpixels⟩ :=
        ih (i + 1) (T.withPixels (T.pixels.set i (out texel dst)) List.length_set)
      refine ⟨T', ?_, hwidth, hheight, hstride, fun j => ?_⟩
      · show (f texel dst >>= _) = _
        rw [hf, Checked.bind_ok, hT']
      · rw [hpixels]
        show Option.map _ ((T.pixels.set i (out texel dst))[j]?) = _
        rw [List.getElem?_set]
        rcases Nat.lt_trichotomy j i with hlt | rfl | hgt
        · rw [if_neg (by omega)]
          congr 1
          funext p
          rw [if_neg (by omega), if_neg (by omega)]
        · have hlen : j < T.pixels.length := (List.getElem?_eq_some_iff.mp hi).1
          rw [if_pos rfl, if_pos hlen, hi]
          simp
        · rw [if_neg (by omega)]
          congr 1
          funext p
          obtain ⟨k, rfl⟩ := Nat.exists_eq_add_of_lt hgt
          rw [if_pos (by omega), if_pos (by omega), show i + k + 1 - (i + 1) = k by omega,
            show i + k + 1 - i = k + 1 by omega, List.getElem?_cons_succ]

/-- The texel for a place on the target. -/
def Glyph.texelFor (g : Glyph) (x y : ℤ) : Option Color32 :=
  g.atlas.texelAt (g.u0 + (x - g.x0)) (g.v0 + (y - g.y0))

/-- What a row of the copy does at a place. -/
def Glyph.paintRow (g : Glyph) (bounds : PixelRect) (row x y : ℤ) (p : UInt32) : UInt32 :=
  if y = row ∧ bounds.minX ≤ x ∧ x < bounds.maxX then
    (g.texelFor x y).elim p fun texel => blended g.blend g.color texel p
  else p

/-- Nothing in the blit is further than 2^29 from zero. -/
structure Glyph.Small (g : Glyph) : Prop where
  x0 : |g.x0| ≤ 2 ^ 29
  y0 : |g.y0| ≤ 2 ^ 29
  x1 : |g.x1| ≤ 2 ^ 29
  y1 : |g.y1| ≤ 2 ^ 29
  u0 : |g.u0| ≤ 2 ^ 29
  v0 : |g.v0| ≤ 2 ^ 29
  width : g.atlas.width < 2 ^ 29
  height : g.atlas.height < 2 ^ 29

/-- Bounds that lie in the target and in the quad. -/
structure Glyph.Bounded (g : Glyph) (T : Target) (bounds : PixelRect) : Prop where
  minX : 0 ≤ bounds.minX
  maxX : bounds.maxX ≤ T.width
  minY : 0 ≤ bounds.minY
  maxY : bounds.maxY ≤ T.height
  x0 : g.x0 ≤ bounds.minX
  x1 : bounds.maxX ≤ g.x1
  y0 : g.y0 ≤ bounds.minY
  y1 : bounds.maxY ≤ g.y1

theorem asI32_of_lt {n : ℕ} (h : n < 2 ^ 31) : asI32 n = n := by
  unfold asI32
  norm_num at h ⊢
  rw [Int.bmod_eq_of_le] <;> omega

theorem asUsize_of_nonneg {n : ℤ} (h : 0 ≤ n) (h' : n < 2 ^ 64) : asUsize n = n.toNat := by
  rw [asUsize, Int.emod_eq_of_lt h h']

/-- The slice that is copied, pixel by pixel. -/
theorem blendSlice_row {g : Glyph} {T : Target} {bounds : PixelRect} (hb : g.Bounded T bounds)
    {y : ℤ} {row xs count : ℕ} (hrow : g.v0 + (y - g.y0) = row) (hlt : row < g.atlas.height)
    (hy : 0 ≤ y) (hxs : (xs : ℤ) = max bounds.minX (g.x0 - g.u0))
    (hxe : (xs : ℤ) + count = min bounds.maxX (g.x0 - g.u0 + g.atlas.width)) :
    blendSlice (blendTexel g.blend g.color)
      ((g.atlas.pixels.drop (row * g.atlas.width + (g.u0 + (xs - g.x0)).toNat)).take count)
      (y.toNat * T.stride + xs) T = .ok (T.paint (g.paintRow bounds y)) := by
  obtain ⟨T', hT', hwidth, hheight, hstride, hpixels⟩ := blendSlice_eq
    (blendTexel_eq g.blend g.color)
    ((g.atlas.pixels.drop (row * g.atlas.width + (g.u0 + (xs - g.x0)).toNat)).take count)
    (y.toNat * T.stride + xs) T
  have hmaxX := hb.maxX
  rw [hT']
  refine congrArg Except.ok (Target.ext_getElem? hwidth hheight hstride fun j => ?_)
  rw [hpixels, Target.getElem?_paint]
  congr 1
  funext p
  have hslice := Target.mem_slice_iff y.toNat j (show xs + count ≤ T.width by omega)
  by_cases hin : y.toNat * T.stride + xs ≤ j ∧ j < y.toNat * T.stride + xs + count
  · obtain ⟨⟨hlo, hhi⟩, hdiv⟩ := hslice.mp hin
    have hj := (Target.index_eq_iff (T := T) (x := j % T.stride) (y := y.toNat) (i := j)
      (by omega)).mpr ⟨rfl, hdiv⟩
    rw [if_pos hin.1, List.getElem?_take_of_lt (by omega), List.getElem?_drop, Glyph.paintRow,
      if_pos ⟨by omega, by omega, by omega⟩, Glyph.texelFor, Texture.texelAt,
      if_pos ⟨by omega, by omega, by omega, by omega⟩]
    congr 2
    rw [show (g.v0 + ((↑(j / T.stride) : ℤ) - g.y0)).toNat = row by omega]
    omega
  · have hleft : (if y.toNat * T.stride + xs ≤ j then
        (((g.atlas.pixels.drop (row * g.atlas.width + (g.u0 + (xs - g.x0)).toNat)).take
          count)[j - (y.toNat * T.stride + xs)]?).elim p (blended g.blend g.color · p)
        else p) = p := by
      split
      · rw [List.getElem?_take_eq_none (by omega), Option.elim_none]
      · rfl
    rw [hleft, Glyph.paintRow]
    split
    · rename_i hpaint
      rw [Glyph.texelFor, Texture.texelAt, if_neg, Option.elim_none]
      rintro ⟨hu, hu', -, -⟩
      exact hin (hslice.mpr ⟨⟨by omega, by omega⟩, by omega⟩)
    · rfl

/-- **A row of the copy** neither fails nor leaves atlas or target. -/
theorem blitRow_eq {g : Glyph} {T : Target} {bounds : PixelRect} (hg : g.Small)
    (hb : g.Bounded T bounds) {y : ℤ} (hy : bounds.minY ≤ y) (hy' : y < bounds.maxY) :
    blitRow g bounds T y = .ok (T.paint (g.paintRow bounds y)) := by
  obtain ⟨hx0, hy0, hx1, hy1, hu0, hv0, hwidth, hheight⟩ := hg
  obtain ⟨bminX, bmaxX, bminY, bmaxY, bx0, bx1, by0, by1⟩ := id hb
  rw [abs_le] at hx0 hy0 hx1 hy1 hu0 hv0
  -- a row without texels leaves the target as it is
  have hnothing : (∀ x, bounds.minX ≤ x → x < bounds.maxX → g.texelFor x y = none) →
      T.paint (g.paintRow bounds y) = T := fun hnone => Target.paint_id fun x y' p => by
    rw [Glyph.paintRow]
    split
    · rename_i h
      obtain ⟨rfl, hlo, hhi⟩ := h
      rw [hnone x hlo hhi, Option.elim_none]
    · rfl
  -- all coordinates are small enough that no sum leaves the range of `i32`
  have hi32 : ∀ {n : ℤ}, -2 ^ 30 - 2 ^ 29 ≤ n → n ≤ 2 ^ 30 + 2 ^ 29 → i32 n = .ok n :=
    fun hlo hhi => i32_ok (abs_lt.mpr ⟨by omega, by omega⟩)
  rw [blitRow, hi32 (by omega) (by omega), Checked.bind_ok, hi32 (by omega) (by omega),
    Checked.bind_ok, asI32_of_lt (n := g.atlas.width) (by omega),
    asI32_of_lt (n := g.atlas.height) (by omega)]
  split
  · rename_i hrow
    rw [hnothing fun x _ _ => by
      rw [Glyph.texelFor, Texture.texelAt, if_neg (by omega)]]
    rfl
  · rename_i hrow
    obtain ⟨row, hrow'⟩ := Int.eq_ofNat_of_zero_le (show 0 ≤ g.v0 + (y - g.y0) by omega)
    have hlt : row < g.atlas.height := by omega
    have hrowmul : row * g.atlas.width + g.atlas.width ≤ g.atlas.pixels.length := by
      rw [g.atlas.length_pixels, ← Nat.succ_mul, mul_comm g.atlas.width]
      exact Nat.mul_le_mul_right _ hlt
    have hmulLt : row * g.atlas.width < 2 ^ 58 := by
      calc row * g.atlas.width < 2 ^ 29 * 2 ^ 29 :=
            Nat.mul_lt_mul'' (hlt.trans hheight) hwidth
        _ = 2 ^ 58 := by norm_num
    rw [asUsize_of_nonneg (n := y) (by omega) (by omega), T.rowMut_eq_some (by omega),
      asUsize_of_nonneg (n := g.v0 + (y - g.y0)) (by omega) (by omega), hrow',
      Int.toNat_natCast, Checked.mul, if_pos (hmulLt.trans (by norm_num)), Checked.bind_ok]
    dsimp only
    rw [hi32 (by omega) (by omega), Checked.bind_ok, hi32 (by omega) (by omega), Checked.bind_ok]
    split
    · rename_i hempty
      rw [hnothing fun x _ _ => by
        rw [Glyph.texelFor, Texture.texelAt, if_neg (by omega)]]
      rfl
    · rename_i hcolumns
      -- the columns shared by the bounds and the texels
      obtain ⟨xs, hxs⟩ := Int.eq_ofNat_of_zero_le
        (show 0 ≤ max bounds.minX (g.x0 - g.u0) by omega)
      obtain ⟨count, hcount⟩ := Int.eq_ofNat_of_zero_le
        (show 0 ≤ min bounds.maxX (g.x0 - g.u0 + g.atlas.width) -
          max bounds.minX (g.x0 - g.u0) by omega)
      rw [hcount, hxs, hi32 (by omega) (by omega), Checked.bind_ok, hi32 (by omega) (by omega),
        Checked.bind_ok, hi32 (by omega) (by omega), Checked.bind_ok,
        asUsize_of_nonneg (n := count) (by omega) (by omega),
        asUsize_of_nonneg (n := xs) (by omega) (by omega),
        asUsize_of_nonneg (n := g.u0 + (xs - g.x0)) (by omega) (by omega), Checked.add,
        if_pos (by omega), Checked.bind_ok, Int.toNat_natCast, Int.toNat_natCast, texelSlice,
        Checked.add, if_pos (by omega), Checked.bind_ok, if_pos (by omega)]
      show (if xs + count ≤ T.width then _ else _) = _
      rw [if_pos (by omega)]
      exact blendSlice_row hb hrow' hlt (by omega) hxs.symm (by omega)

/-! ### The whole copy -/

theorem foldlM_blitRow {g : Glyph} {T : Target} {bounds : PixelRect} (hg : g.Small)
    (hb : g.Bounded T bounds) {rows : List ℤ} (hnodup : rows.Nodup)
    (hrows : ∀ y ∈ rows, bounds.minY ≤ y ∧ y < bounds.maxY) :
    rows.foldlM (blitRow g bounds) T = .ok (T.paint fun x y p =>
      if y ∈ rows then g.paintRow bounds y x y p else p) := by
  induction rows generalizing T with
  | nil =>
    rw [Target.paint_id fun x y p => by simp]
    rfl
  | cons row rows ih =>
    obtain ⟨hnotMem, hnodup⟩ := List.nodup_cons.mp hnodup
    obtain ⟨⟨hlo, hhi⟩, hrows⟩ := List.forall_mem_cons.mp hrows
    have hb' : g.Bounded (T.paint (g.paintRow bounds row)) bounds :=
      ⟨hb.minX, hb.maxX, hb.minY, hb.maxY, hb.x0, hb.x1, hb.y0, hb.y1⟩
    rw [List.foldlM_cons, blitRow_eq hg hb hlo hhi, Checked.bind_ok, ih hb' hnodup hrows,
      Target.paint_paint]
    refine congrArg Except.ok (Target.paint_congr fun x y p => ?_)
    by_cases hy : y = row
    · subst hy
      rw [if_neg hnotMem, if_pos List.mem_cons_self]
    · have hother : g.paintRow bounds row x y p = p := if_neg fun h => hy h.1
      rw [hother]
      simp only [List.mem_cons, hy, false_or]

/-- What the copy does at a place. -/
def Glyph.paintPixel (g : Glyph) (bounds : PixelRect) (x y : ℤ) (p : UInt32) : UInt32 :=
  if bounds.Contains x y then
    (g.texelFor x y).elim p fun texel => blended g.blend g.color texel p
  else p

/-- The clipped quad. -/
def Glyph.region (g : Glyph) (T : Target) (clip : PixelRect) : PixelRect :=
  (clip.intersect T.bounds).intersect ⟨g.x0, g.y0, g.x1, g.y1⟩

theorem bounds_eq {T : Target} (hw : T.width < 2 ^ 29) (hh : T.height < 2 ^ 29) :
    T.bounds.maxX = T.width ∧ T.bounds.maxY = T.height := by
  simp only [Target.bounds]
  exact ⟨asI32_of_lt (by omega), asI32_of_lt (by omega)⟩

theorem bounded_region {g : Glyph} {T : Target} (hw : T.width < 2 ^ 29) (hh : T.height < 2 ^ 29)
    (clip : PixelRect) : g.Bounded T (g.region T clip) := by
  obtain ⟨hw', hh'⟩ := bounds_eq hw hh
  refine ⟨?_, ?_, ?_, ?_, le_max_right _ _, min_le_right _ _, le_max_right _ _, min_le_right _ _⟩
  · exact (le_max_right _ _).trans (le_max_left _ _)
  · exact (min_le_left _ _).trans ((min_le_right _ _).trans_eq hw')
  · exact (le_max_right _ _).trans (le_max_left _ _)
  · exact (min_le_left _ _).trans ((min_le_right _ _).trans_eq hh')

/-- **The blit** neither fails nor leaves atlas or target: it blends into each pixel of the clipped
quad the texel for its place. -/
theorem blitRect_eq {g : Glyph} {T : Target} (hg : g.Small) (hw : T.width < 2 ^ 29)
    (hh : T.height < 2 ^ 29) (clip : PixelRect) :
    blitRect g T clip = .ok (if g.color.a = 0 then T
      else T.paint (g.paintPixel (g.region T clip))) := by
  rw [blitRect]
  show (if (g.region T clip).IsEmpty then _ else _) = _
  split
  · rename_i hempty
    have hid : T.paint (g.paintPixel (g.region T clip)) = T :=
      Target.paint_id fun x y p => if_neg fun hin : (g.region T clip).Contains x y =>
        hin.not_isEmpty hempty
    rw [hid, ite_self]
    rfl
  · split
    · rfl
    · have hnodup : (Int.range (g.region T clip).minY (g.region T clip).maxY).Nodup :=
        List.nodup_range.map fun a b hab => by simpa using hab
      show (Int.range (g.region T clip).minY (g.region T clip).maxY).foldlM
        (blitRow g (g.region T clip)) T = _
      rw [foldlM_blitRow hg (bounded_region hw hh clip) hnodup fun y hy =>
        Int.mem_range_iff.mp hy]
      refine congrArg Except.ok (Target.paint_congr fun x y p => ?_)
      by_cases hrow : y ∈ Int.range (g.region T clip).minY (g.region T clip).maxY
      · obtain ⟨hlo, hhi⟩ := Int.mem_range_iff.mp hrow
        rw [if_pos hrow, Glyph.paintRow, Glyph.paintPixel]
        refine if_congr ⟨fun h => ⟨h.2.1, h.2.2, hlo, hhi⟩, fun h => ⟨rfl, h.minX, h.maxX⟩⟩ rfl rfl
      · rw [if_neg hrow, Glyph.paintPixel, if_neg]
        exact fun h => hrow (Int.mem_range_iff.mpr ⟨h.minY, h.maxY⟩)

/-! ### Quads -/

/-- A vertex whose coordinates are less than 2^29 from zero. -/
structure SmallVertex (v : ScreenVertex) : Prop where
  x : |v.x| < 2 ^ 29
  y : |v.y| < 2 ^ 29
  u : |v.u| < 2 ^ 29
  v : |v.v| < 2 ^ 29

/-- The corners of a quad are not too far out. -/
structure Quad.Small (q : Quad) : Prop where
  lt : SmallVertex q.lt
  rt : SmallVertex q.rt
  lb : SmallVertex q.lb
  rb : SmallVertex q.rb

theorem abs_le_of_roundIfSnapped {v : ℚ} {r : ℤ} (h : roundIfSnapped v = some r)
    (hv : |v| < 2 ^ 29) : |r| ≤ 2 ^ 29 := by
  rw [roundIfSnapped] at h
  split at h
  · obtain rfl := Option.some.inj h
    have hround := abs_le.mp (abs_roundHalfAway_sub_le v)
    obtain ⟨hlo, hhi⟩ := abs_lt.mp hv
    have hlt : |((roundHalfAway v : ℤ) : ℚ)| < ((2 ^ 29 + 1 : ℤ) : ℚ) := by
      push_cast
      rw [abs_lt]
      constructor <;> linarith
    have hint : |roundHalfAway v| < 2 ^ 29 + 1 := by exact_mod_cast hlt
    omega
  · cases h

/-- The corners of a quad that snaps. -/
theorem Quad.snapped_eq_some {q : Quad} {s : Snapped} :
    q.snapped = some s ↔ roundIfSnapped q.lt.x = some s.x0 ∧ roundIfSnapped q.lt.y = some s.y0 ∧
      roundIfSnapped q.rt.x = some s.x1 ∧ roundIfSnapped q.lb.y = some s.y1 ∧
      roundIfSnapped q.lt.u = some s.u0 ∧ roundIfSnapped q.lt.v = some s.v0 ∧
      roundIfSnapped q.rt.u = some s.u1 ∧ roundIfSnapped q.lb.v = some s.v1 := by
  obtain ⟨x0, y0, x1, y1, u0, v0, u1, v1⟩ := s
  simp only [Quad.snapped, Option.bind_eq_bind, Option.bind_eq_some_iff, Option.pure_def,
    Option.some_inj, Snapped.mk.injEq]
  constructor
  · rintro ⟨_, h1, _, h2, _, h3, _, h4, _, h5, _, h6, _, h7, _, h8, rfl, rfl, rfl, rfl, rfl, rfl,
      rfl, rfl⟩
    exact ⟨h1, h2, h3, h4, h5, h6, h7, h8⟩
  · rintro ⟨h1, h2, h3, h4, h5, h6, h7, h8⟩
    exact ⟨_, h1, _, h2, _, h3, _, h4, _, h5, _, h6, _, h7, _, h8, rfl, rfl, rfl, rfl, rfl,
      rfl, rfl, rfl⟩

/-- What a glyph of a colour makes of a pixel with one of its texels. -/
def paintTexel (blend : TextBlend) (color texel : Color32) (p : UInt32) : UInt32 :=
  if color.a = 0 then p else blended blend color texel p

/-- What a handled quad does to the pixels of the target: only those in clip and quad whose texel is
in the atlas are changed, as the rule says. -/
structure Drawn (rule : Color32 → Color32 → UInt32 → UInt32) (clip : PixelRect) (q : Quad)
    (s : Snapped) (atlas : Texture) (T T' : Target) : Prop where
  sizes : T'.width = T.width ∧ T'.height = T.height ∧ T'.stride = T.stride
  pixels : ∀ x y p, T.pixelAt x y = some p → T'.pixelAt x y = some
    (if clip.Contains x y ∧ PixelRect.Contains ⟨s.x0, s.y0, s.x1, s.y1⟩ x y then
      (atlas.texelAt (s.u0 + (x - s.x0)) (s.v0 + (y - s.y0))).elim p
        fun texel => rule q.lt.color texel p
    else p)

/-- A pixel is in the bounds of its target. -/
theorem contains_bounds {T : Target} {x y : ℤ} {p : UInt32} (hw : T.width < 2 ^ 29)
    (hh : T.height < 2 ^ 29) (h : T.pixelAt x y = some p) : T.bounds.Contains x y := by
  rw [Target.pixelAt] at h
  split at h
  · rename_i hin
    obtain ⟨hx, hx', hy, hy'⟩ := hin
    obtain ⟨hmaxX, hmaxY⟩ := bounds_eq hw hh
    exact ⟨hx, hx'.trans_eq hmaxX.symm, hy, hy'.trans_eq hmaxY.symm⟩
  · cases h

theorem drawn_of_empty {rule : Color32 → Color32 → UInt32 → UInt32} {clip : PixelRect} {q : Quad}
    {s : Snapped} {atlas : Texture} {T : Target} (h : s.x1 ≤ s.x0 ∨ s.y1 ≤ s.y0) :
    Drawn rule clip q s atlas T T := by
  refine ⟨⟨rfl, rfl, rfl⟩, fun x y p hp => ?_⟩
  rw [if_neg fun hin => hin.2.not_isEmpty h]
  exact hp

theorem drawn_of_blitRect {clip : PixelRect} {q : Quad} {s : Snapped} {atlas : Texture}
    {blend : TextBlend} {T : Target} (hw : T.width < 2 ^ 29) (hh : T.height < 2 ^ 29)
    {g : Glyph} (hg : g = ⟨s.x0, s.y0, s.x1, s.y1, s.u0, s.v0, q.lt.color, atlas, blend⟩) :
    Drawn (paintTexel blend) clip q s atlas T
      (if g.color.a = 0 then T else T.paint (g.paintPixel (g.region T clip))) := by
  subst hg
  split
  · rename_i hzero
    refine ⟨⟨rfl, rfl, rfl⟩, fun x y p hp => ?_⟩
    have hrule : ∀ texel, paintTexel blend q.lt.color texel p = p := fun texel => if_pos hzero
    simp only [hrule, hp]
    split
    · cases atlas.texelAt (s.u0 + (x - s.x0)) (s.v0 + (y - s.y0)) <;> rfl
    · rfl
  · rename_i hzero
    refine ⟨⟨rfl, rfl, rfl⟩, fun x y p hp => ?_⟩
    have hrule : ∀ texel, paintTexel blend q.lt.color texel p = blended blend q.lt.color texel p :=
      fun texel => if_neg hzero
    rw [Target.pixelAt_paint, hp, Option.map_some, Glyph.paintPixel]
    simp only [hrule, Glyph.region, PixelRect.contains_intersect, contains_bounds hw hh hp,
      and_true]
    rfl

/-- **The blit stays inside atlas and target.** -/
theorem blitQuad_inside (blend : TextBlend) :
    ∃ rule : Color32 → Color32 → UInt32 → UInt32,
      ∀ (T : Target) (clip : PixelRect) (q : Quad) (atlas : Texture), T.width < 2 ^ 29 →
        T.height < 2 ^ 29 → atlas.width < 2 ^ 29 → atlas.height < 2 ^ 29 → q.Small →
        ∃ handled T', blitQuad T clip q atlas blend = .ok (handled, T') ∧
          (handled = false → T' = T) ∧
          (handled = true → ∃ s, q.snapped = some s ∧ Drawn rule clip q s atlas T T') := by
  refine ⟨paintTexel blend, fun T clip q atlas hw hh haw hah hq => ?_⟩
  rw [blitQuad]
  split
  · exact ⟨false, T, rfl, fun _ => rfl, nofun⟩
  · split
    · exact ⟨false, T, rfl, fun _ => rfl, nofun⟩
    · cases hs : q.snapped with
      | none => exact ⟨false, T, rfl, fun _ => rfl, nofun⟩
      | some s =>
        obtain ⟨h1, h2, h3, h4, h5, h6, h7, h8⟩ := Quad.snapped_eq_some.mp hs
        have hsmall := And.intro (abs_le_of_roundIfSnapped h1 hq.lt.x) <|
          And.intro (abs_le_of_roundIfSnapped h2 hq.lt.y) <|
          And.intro (abs_le_of_roundIfSnapped h3 hq.rt.x) <|
          And.intro (abs_le_of_roundIfSnapped h4 hq.lb.y) <|
          And.intro (abs_le_of_roundIfSnapped h5 hq.lt.u) <|
          And.intro (abs_le_of_roundIfSnapped h6 hq.lt.v) <|
          And.intro (abs_le_of_roundIfSnapped h7 hq.rt.u) (abs_le_of_roundIfSnapped h8 hq.lb.v)
        obtain ⟨x0, y0, x1, y1, u0, v0, u1, v1⟩ := hsmall
        have hsub : ∀ {a b : ℤ}, |a| ≤ 2 ^ 29 → |b| ≤ 2 ^ 29 → i32 (a - b) = .ok (a - b) :=
          fun ha hb => i32_ok ((abs_sub_le_of_le ha hb).trans_lt (by norm_num))
        dsimp only
        rw [hsub x1 x0, Checked.bind_ok, hsub u1 u0, Checked.bind_ok]
        split
        · exact ⟨false, T, rfl, fun _ => rfl, nofun⟩
        · rw [hsub y1 y0, Checked.bind_ok, hsub v1 v0, Checked.bind_ok]
          split
          · exact ⟨false, T, rfl, fun _ => rfl, nofun⟩
          · split
            · rename_i hempty
              exact ⟨true, T, rfl, nofun, fun _ => ⟨s, rfl, drawn_of_empty hempty⟩⟩
            · rw [blitRect_eq ⟨x0, y0, x1, y1, u0, v0, haw, hah⟩ hw hh clip, Checked.bind_ok]
              exact ⟨true, _, rfl, nofun, fun _ => ⟨s, rfl, drawn_of_blitRect hw hh rfl⟩⟩

/-- A row of three half-covered texels. -/
def threeTexels : Texture :=
  ⟨List.replicate 3 ⟨128, 128, 128, 128⟩, 3, 1, rfl⟩

/-- Two black rows of three pixels. -/
def sixPixels : Target := (Target.withStride (List.replicate 6 0) 3 2 3).get (by decide)

/-- A white glyph that starts above the texels and ends to the right of texels and target. -/
def hangingQuad : Quad :=
  let white : Color32 := ⟨255, 255, 255, 255⟩
  ⟨⟨1, 0, 1, -1, white⟩, ⟨4, 0, 4, -1, white⟩, ⟨1, 2, 1, 1, white⟩, ⟨4, 2, 4, 1, white⟩⟩

/-- Blending without subpixels. -/
def grayscale : TextBlend :=
  ⟨.off, ⟨fun _ => 0, List.replicate 4096 0, id, List.length_replicate⟩⟩

/-- Of the glyph that hangs off atlas, clip and target only one pixel is drawn. -/
theorem blitQuad_inside_hangingQuad :
    ∃ rule T', blitQuad sixPixels ⟨0, 0, 2, 2⟩ hangingQuad threeTexels grayscale = .ok (true, T') ∧
      T'.pixels = [0, 0, 0, 0, 0x808080, 0] ∧
      ∃ s, hangingQuad.snapped = some s ∧
        Drawn rule ⟨0, 0, 2, 2⟩ hangingQuad s threeTexels sixPixels T' := by
  have hsmall : hangingQuad.Small := by
    constructor <;> constructor <;> norm_num [hangingQuad]
  obtain ⟨rule, hrule⟩ := blitQuad_inside grayscale
  obtain ⟨handled, T', hblit, -, hdrawn⟩ := hrule sixPixels ⟨0, 0, 2, 2⟩ hangingQuad threeTexels
    (by decide) (by decide) (by decide) (by decide) hsmall
  have hresult : (blitQuad sixPixels ⟨0, 0, 2, 2⟩ hangingQuad threeTexels grayscale).toOption.map
      (fun r => (r.1, r.2.pixels)) = some (true, [0, 0, 0, 0, 0x808080, 0]) := by decide +kernel
  rw [hblit] at hresult
  obtain ⟨rfl, hpixels⟩ := Prod.ext_iff.mp (Option.some.inj hresult)
  exact ⟨rule, T', hblit, hpixels, hdrawn rfl⟩

end Blit

end Taskman.Egui
