import Taskman.Egui.Raster
import Taskman.Numeric.F32

/-!
# Direct glyph blitting

Model of `vendor/egui/crates/egui_software/src/text.rs`: a glyph whose quad is an axis-aligned 1:1
rectangle is copied from the atlas to the target, texel by texel.  Three rectangles say what is
copied: the clip, the target, and the atlas at the offset of the quad.  The blending keeps to exact
rationals where the code has `f32`; what a table of the text gamma holds is left open.

* `blendTexel` : what a texel of the atlas does to a pixel, in each blend mode;
* `blitRow`, `blitRect` : the copy, with every index and every sum checked;
* `blitQuad` : which quads are copied.
-/

namespace Taskman.Egui.Blit

open Raster

/-! ### Blending -/

/-- The order of the subpixels of the screen. -/
inductive SubpixelMode where
  | off
  | rgb
  | bgr
  deriving DecidableEq

/-- Precomputed tables. -/
structure TextGamma where
  toLinear : UInt8 → UInt16
  fromLinear : List UInt8
  contrastLut : UInt8 → UInt8
  length_fromLinear : fromLinear.length = 4096

/-- Blend one channel with pre-looked-up `sLinear`: `src` over `dst` at coverage `cov`. -/
def TextGamma.blendChannelFast (gamma : TextGamma) (sLinear : ℕ) (src dst cov : UInt8) :
    Checked Empty UInt8 := do
  let a := (gamma.contrastLut cov).toNat
  if a = 0 then return dst
  else if 255 ≤ a then return src
  else
    let d := (gamma.toLinear dst).toNat
    let s ← Checked.mul (2 ^ 32) sLinear a
    let rest ← Checked.mul (2 ^ 32) d (← Checked.sub 255 a)
    let mixed := (← Checked.add (2 ^ 32) s rest) / 255
    match gamma.fromLinear[mixed >>> 4]? with
    | none => .error (.panic .slice)
    | some out => return out

/-- How glyph coverage is turned into pixels. -/
structure TextBlend where
  subpixel : SubpixelMode
  gamma : TextGamma

/-- `(r + 0.5) as u8`, a saturating cast. -/
def fastRound (r : ℚ) : UInt8 := UInt8.ofNat (min ⌊r + 1 / 2⌋.toNat 255)

/-- `to_srgba_unmultiplied`, without the alpha. -/
def toSrgbUnmultiplied (c : Color32) : UInt8 × UInt8 × UInt8 :=
  if c.a = 0 ∨ c.a = 255 then (c.r, c.g, c.b)
  else
    let factor : ℚ := 255 / c.a.toNat
    (fastRound (factor * c.r.toNat), fastRound (factor * c.g.toNat),
      fastRound (factor * c.b.toNat))

/-- Coverage of translucent text. -/
def scale (ca cov : UInt8) : Checked Empty UInt8 := do
  let product ← Checked.mul (2 ^ 32) cov.toNat ca.toNat
  return UInt8.ofNat ((← Checked.add (2 ^ 32) product 127) / 255)

/-- The coverage of the three channels, in the order of the panel. -/
def coverage (blend : TextBlend) (color texel : Color32) :
    Checked Empty (UInt8 × UInt8 × UInt8) := do
  let (covR, covB) := if blend.subpixel = .bgr then (texel.b, texel.r) else (texel.r, texel.b)
  if color.a = 255 then return (covR, texel.g, covB)
  else return (← scale color.a covR, ← scale color.a texel.g, ← scale color.a covB)

/-- Gamma-corrected, channel by channel. -/
def blendSubpixel (blend : TextBlend) (color texel : Color32) (dst : UInt32) :
    Checked Empty UInt32 := do
  let (sr, sg, sb) := toSrgbUnmultiplied color
  let (covR, covG, covB) ← coverage blend color texel
  let channelOver (src : UInt8) (shift : UInt32) (cov : UInt8) : Checked Empty UInt8 :=
    blend.gamma.blendChannelFast (blend.gamma.toLinear src).toNat src
      (channel dst shift).toUInt8 cov
  let r ← channelOver sr 16 covR
  let g ← channelOver sg 8 covG
  let b ← channelOver sb 0 covB
  return packRgb r g b

/-- What the loops over a row do with one texel and its pixel. -/
def blendTexel (blend : TextBlend) (color texel : Color32) (dst : UInt32) :
    Checked Empty UInt32 := do
  let (sr, sg, sb) := toSrgbUnmultiplied color
  if texel.a ||| texel.r ||| texel.g ||| texel.b = 0 then return dst
  else if blend.subpixel = .off then
    if texel.a = 255 ∧ color.a = 255 ∧ texel.r = 255 ∧ texel.g = 255 ∧ texel.b = 255 then
      return packRgb sr sg sb
    else
      let tinted (c t : UInt8) : ℚ := c.toNat * t.toNat * (1 / 255)
      return blendOver ⟨tinted color.r texel.r, tinted color.g texel.g, tinted color.b texel.b,
        tinted color.a texel.a⟩ dst
  else if color.a = 255 ∧ texel.r = 255 ∧ texel.g = 255 ∧ texel.b = 255 then
    return packRgb sr sg sb
  else blendSubpixel blend color texel dst

/-! ### The copy -/

/-- One resident texture, with all its texels. -/
structure Texture where
  pixels : List Color32
  width : ℕ
  height : ℕ
  length_pixels : pixels.length = width * height

/-- `&pixels[start..start + count]`. -/
def texelSlice (pixels : List Color32) (start count : ℕ) : Checked Empty (List Color32) := do
  let stop ← Checked.add (2 ^ 64) start count
  if stop ≤ pixels.length then return (pixels.drop start).take count
  else .error (.panic .slice)

/-- `i32 as usize`. -/
def asUsize (n : ℤ) : ℕ := (n % 2 ^ 64).toNat

/-- Each texel is blended into its pixel, from pixel `i` of the buffer on. -/
def blendSlice (f : Color32 → UInt32 → Checked Empty UInt32) :
    List Color32 → ℕ → Target → Checked Empty Target
  | [], _, T => return T
  | texel :: src, i, T =>
    match T.pixels[i]? with
    | none => return T
    | some dst => do
      let out ← f texel dst
      blendSlice f src (i + 1) (T.withPixels (T.pixels.set i out) List.length_set)

/-- What the blit was given: the quad's place on the target, its first texel, and how to blend. -/
structure Glyph where
  x0 : ℤ
  y0 : ℤ
  x1 : ℤ
  y1 : ℤ
  u0 : ℤ
  v0 : ℤ
  color : Color32
  atlas : Texture
  blend : TextBlend

/-- One row of the copy. -/
def blitRow (g : Glyph) (bounds : PixelRect) (T : Target) (y : ℤ) : Checked Empty Target := do
  let atlasW := asI32 g.atlas.width
  let atlasH := asI32 g.atlas.height
  let srcY ← i32 (g.v0 + (← i32 (y - g.y0)))
  if srcY < 0 ∨ atlasH ≤ srcY then return T
  else
    let srcRowStart ← Checked.mul (2 ^ 64) (asUsize srcY) g.atlas.width
    match T.rowMut (asUsize y) with
    | none => return T
    | some dstRow =>
      -- the horizontal range is clamped to the atlas once for the row
      let left ← i32 (g.x0 - g.u0)
      let xStart := max bounds.minX left
      let xEnd := min bounds.maxX (← i32 (left + atlasW))
      if xEnd ≤ xStart then return T
      else
        let count := asUsize (← i32 (xEnd - xStart))
        let column ← i32 (g.u0 + (← i32 (xStart - g.x0)))
        let srcStart ← Checked.add (2 ^ 64) srcRowStart (asUsize column)
        let src ← texelSlice g.atlas.pixels srcStart count
        if asUsize xStart + count ≤ T.width then
          blendSlice (blendTexel g.blend g.color) src (dstRow + asUsize xStart) T
        else .error (.panic .slice)

/-- The blit itself, over an already validated 1:1 rectangle. -/
def blitRect (g : Glyph) (T : Target) (clip : PixelRect) : Checked Empty Target :=
  let bounds := (clip.intersect T.bounds).intersect ⟨g.x0, g.y0, g.x1, g.y1⟩
  if bounds.IsEmpty then return T
  else if g.color.a = 0 then return T
  else (Int.range bounds.minY bounds.maxY).foldlM (blitRow g bounds) T

/-! ### Which quads -/

/-- `SNAP_EPS`: how close a coordinate must be to an integer. -/
def snapEps : ℚ := 1 / 64

/-- Two coordinates are the same up to rounding. -/
def near (a b : ℚ) : Bool := |binary32.round (a - b)| ≤ snapEps

/-- Round to an integer, or `none` if the value is not close enough to one. -/
def roundIfSnapped (v : ℚ) : Option ℤ :=
  let r := roundHalfAway v
  if |binary32.round (v - r)| ≤ snapEps ∧ |r| < 2 ^ 31 then some r else none

/-- The vertices in the order of `add_rect_with_uv`. -/
structure Quad where
  lt : ScreenVertex
  rt : ScreenVertex
  lb : ScreenVertex
  rb : ScreenVertex

/-- The sides of a quad are parallel to the axes, on the target and in the atlas. -/
def Quad.aligned (q : Quad) : Bool :=
  near q.lt.x q.lb.x && near q.rt.x q.rb.x && near q.lt.y q.rt.y && near q.lb.y q.rb.y &&
    near q.lt.u q.lb.u && near q.rt.u q.rb.u && near q.lt.v q.rt.v && near q.lb.v q.rb.v

/-- Integer corners on the target and in the atlas. -/
structure Snapped where
  x0 : ℤ
  y0 : ℤ
  x1 : ℤ
  y1 : ℤ
  u0 : ℤ
  v0 : ℤ
  u1 : ℤ
  v1 : ℤ

/-- The corners of a quad, where they are on pixels. -/
def Quad.snapped (q : Quad) : Option Snapped := do
  let x0 ← roundIfSnapped q.lt.x
  let y0 ← roundIfSnapped q.lt.y
  let x1 ← roundIfSnapped q.rt.x
  let y1 ← roundIfSnapped q.lb.y
  let u0 ← roundIfSnapped q.lt.u
  let v0 ← roundIfSnapped q.lt.v
  let u1 ← roundIfSnapped q.rt.u
  let v1 ← roundIfSnapped q.lb.v
  return ⟨x0, y0, x1, y1, u0, v0, u1, v1⟩

/-- Try to draw a glyph quad as a direct 1:1 blit: whether it was handled, and the target. -/
def blitQuad (T : Target) (clip : PixelRect) (q : Quad) (atlas : Texture) (blend : TextBlend) :
    Checked Empty (Bool × Target) := do
  if !q.aligned then return (false, T)
  else if q.lt.color ≠ q.rt.color ∨ q.lt.color ≠ q.lb.color ∨ q.lt.color ≠ q.rb.color then
    return (false, T)
  else
    match q.snapped with
    | none => return (false, T)
    | some s =>
      if (← i32 (s.x1 - s.x0)) ≠ (← i32 (s.u1 - s.u0)) then return (false, T)
      else if (← i32 (s.y1 - s.y0)) ≠ (← i32 (s.v1 - s.v0)) then return (false, T)
      else if s.x1 ≤ s.x0 ∨ s.y1 ≤ s.y0 then return (true, T)
      else
        let T ← blitRect ⟨s.x0, s.y0, s.x1, s.y1, s.u0, s.v0, q.lt.color, atlas, blend⟩ T clip
        return (true, T)

end Taskman.Egui.Blit
