import Taskman.Egui.Target
import Taskman.Geometry.Triangle
import Taskman.Numeric.Rounding
import Mathlib.Data.Int.Bitwise
import Mathlib.Data.Int.Range

/-!
# The triangle rasterizer

Model of `vendor/egui/crates/egui_software/src/raster.rs`: vertices are snapped to a grid of
1/16 pixel, and three edge functions, stepped from pixel to pixel in checked `i64`, decide which
pixels of the clipped bounding box the triangle covers.  `f32` values are finite here and exact
rationals; a texture is what it samples.

* `triangle` : the rasterizer;
* `covered` : the pixels that pass its edge test, with the same loops.
-/

namespace Taskman.Egui.Raster

/-- `SUB_BITS`: the grid has so many bits below a pixel. -/
def subBits : ℕ := 4

/-- `SUB_ONE`: one pixel in grid units. -/
def subOne : ℤ := 16

/-- One thing for each vertex, or for the edge opposite to it. -/
structure Three (α : Type*) where
  e0 : α
  e1 : α
  e2 : α
  deriving DecidableEq

namespace Three

variable {α β : Type}

/-- The same for each of three. -/
def map (f : α → β) (t : Three α) : Three β := ⟨f t.e0, f t.e1, f t.e2⟩

/-- The same for each of three, which may fail. -/
def mapM (f : α → Checked Empty β) (t : Three α) : Checked Empty (Three β) := do
  return ⟨← f t.e0, ← f t.e1, ← f t.e2⟩

/-- `v.swap(0, 1)`. -/
def swap (t : Three α) : Three α := ⟨t.e1, t.e0, t.e2⟩

end Three

/-- A corner on the target and in the texture. -/
structure ScreenVertex where
  x : ℚ
  y : ℚ
  u : ℚ
  v : ℚ
  color : Color32
  deriving DecidableEq

/-- A texture, by what it samples. -/
abbrev Texture := ℚ → ℚ → Color32

/-- The result of an operation on `i32`. -/
def i32 (n : ℤ) : Checked Empty ℤ := Checked.int 32 n

/-- The result of an operation on `i64`. -/
def i64 (n : ℤ) : Checked Empty ℤ := Checked.int 64 n

/-- Snap a coordinate to the grid. -/
def toFixed (v : ℚ) : ℤ :=
  let scaled := roundHalfAway (v * subOne)
  max (-2 ^ 31 / 4) (min scaled (2 ^ 31 / 4))

/-- Twice the signed area of a triangle. -/
def orient2d (a b c : Point ℤ) : Checked Empty ℤ := do
  let left ← i64 ((← i64 (b.x - a.x)) * (← i64 (c.y - a.y)))
  let right ← i64 ((← i64 (b.y - a.y)) * (← i64 (c.x - a.x)))
  i64 (left - right)

/-- Is an edge in this direction a top or left edge of a positively wound triangle? -/
def isTopLeft (dx dy : ℤ) : Bool := (dy == 0 && 0 < dx) || dy < 0

/-! ### Setting up a triangle -/

/-- The corners on the grid. -/
def fixed (v : Three ScreenVertex) : Three (Point ℤ) :=
  v.map fun vertex => ⟨toFixed vertex.x, toFixed vertex.y⟩

/-- Bounding box, snapped outward to whole pixels. -/
def boundingBox (p : Three (Point ℤ)) : Checked Empty PixelRect := do
  let maxX ← i32 ((max (max p.e0.x p.e1.x) p.e2.x >>> subBits) + 1)
  let maxY ← i32 ((max (max p.e0.y p.e1.y) p.e2.y >>> subBits) + 1)
  return ⟨min (min p.e0.x p.e1.x) p.e2.x >>> subBits,
    min (min p.e0.y p.e1.y) p.e2.y >>> subBits, maxX, maxY⟩

/-- The edges, each opposite to its vertex. -/
def edges (p : Three (Point ℤ)) : Three (Point ℤ × Point ℤ) :=
  ⟨(p.e1, p.e2), (p.e2, p.e0), (p.e0, p.e1)⟩

/-- An edge that does not own its pixels needs one unit more. -/
def bias (e : Point ℤ × Point ℤ) : Checked Empty ℤ := do
  let dx ← i32 (e.2.x - e.1.x)
  let dy ← i32 (e.2.y - e.1.y)
  return if isTopLeft dx dy then 0 else -1

/-- What the edge function grows by from one column to the next. -/
def stepX (e : Point ℤ × Point ℤ) : Checked Empty ℤ := do
  i64 ((← i64 (e.1.y - e.2.y)) * subOne)

/-- What the edge function grows by from one row to the next. -/
def stepY (e : Point ℤ × Point ℤ) : Checked Empty ℤ := do
  i64 ((← i64 (e.2.x - e.1.x)) * subOne)

/-- The centre of a pixel on the grid. -/
def centre (x y : ℤ) : Checked Empty (Point ℤ) := do
  return ⟨← i32 ((← i32 (x * subOne)) + subOne / 2), ← i32 ((← i32 (y * subOne)) + subOne / 2)⟩

/-- The biased edge function at a point. -/
def weight (c : Point ℤ) (e : Point ℤ × Point ℤ) : Checked Empty ℤ := do
  i64 ((← orient2d e.1 e.2 c) + (← bias e))

/-- What the loops over the pixels start with. -/
structure Setup where
  v : Three ScreenVertex
  area : ℤ
  bounds : PixelRect
  rowW : Three ℤ
  stepX : Three ℤ
  stepY : Three ℤ

/-- A triangle that is positively wound. -/
def setupWound (T : Target) (clip : PixelRect) (v : Three ScreenVertex) (p : Three (Point ℤ))
    (area : ℤ) : Checked Empty (Option Setup) := do
  let bounds := (clip.intersect T.bounds).intersect (← boundingBox p)
  if bounds.IsEmpty then return none
  else
    let rightward ← (edges p).mapM stepX
    let downward ← (edges p).mapM stepY
    let first ← centre bounds.minX bounds.minY
    let rowW ← (edges p).mapM (weight first)
    return some ⟨v, area, bounds, rowW, rightward, downward⟩

/-- A triangle in any order of its vertices; a degenerate one covers nothing. -/
def setup (T : Target) (clip : PixelRect) (v : Three ScreenVertex) :
    Checked Empty (Option Setup) := do
  let p := fixed v
  let area ← orient2d p.e0 p.e1 p.e2
  if area = 0 then return none
  else if area < 0 then setupWound T clip v.swap p.swap (← i64 (-area))
  else setupWound T clip v p area

/-! ### The loops over the pixels -/

/-- The test of the edges: no sign bit is set in any of the three. -/
def inside (w : Three ℤ) : Bool := 0 ≤ Int.lor (Int.lor w.e0 w.e1) w.e2

/-- Step the edge functions. -/
def advance (w step : Three ℤ) : Checked Empty (Three ℤ) := do
  return ⟨← i64 (w.e0 + step.e0), ← i64 (w.e1 + step.e1), ← i64 (w.e2 + step.e2)⟩

section Loops

variable {σ : Type}

/-- The columns of a row; `visit` is what is done with a pixel that passes the test. -/
def Setup.columns (setup : Setup) (visit : ℤ → ℤ → Three ℤ → σ → σ) (y : ℤ) (row : Three ℤ)
    (s : σ) : Checked Empty σ := do
  let (_, s) ← (Int.range setup.bounds.minX setup.bounds.maxX).foldlM
    (fun (w, s) x => do
      let s := if inside w then visit x y w s else s
      return (← advance w setup.stepX, s)) (row, s)
  return s

/-- The rows, of which the target may lack some. -/
def Setup.scan (setup : Setup) (hasRow : ℤ → Bool) (visit : ℤ → ℤ → Three ℤ → σ → σ) (s : σ) :
    Checked Empty σ := do
  let (_, s) ← (Int.range setup.bounds.minY setup.bounds.maxY).foldlM
    (fun (row, s) y => do
      let s ← if hasRow y then setup.columns visit y row s else pure s
      return (← advance row setup.stepY, s)) (setup.rowW, s)
  return s

end Loops

/-! ### Colours -/

/-- A channel of a pixel. -/
def channel (pixel shift : UInt32) : UInt32 := (pixel >>> shift) &&& 0xff

/-- Round to a channel. -/
def roundChannel (x : ℚ) : UInt32 := UInt32.ofNat (max 0 (min (roundHalfAway x) 255)).toNat

/-- Premultiplied red, green, blue and alpha. -/
structure Shade where
  r : ℚ
  g : ℚ
  b : ℚ
  a : ℚ

/-- The shade of a colour. -/
def Shade.ofColor (c : Color32) : Shade := ⟨c.r.toNat, c.g.toNat, c.b.toNat, c.a.toNat⟩

/-- `dst = src + dst * (1 - src.a)` in each channel. -/
def blendOver (src : Shade) (dst : UInt32) : UInt32 :=
  let invA := 1 - src.a * (1 / 255)
  let r := roundChannel (src.r + (channel dst 16).toNat * invA)
  let g := roundChannel (src.g + (channel dst 8).toNat * invA)
  let b := roundChannel (src.b + (channel dst 0).toNat * invA)
  (r <<< 16) ||| (g <<< 8) ||| b

/-- The fragment shader. -/
def shade (v : Three ScreenVertex) (l0 l1 l2 : ℚ) (texture : Option Texture) : Shade :=
  let c := v.map fun vertex => Shade.ofColor vertex.color
  let mix (f : Shade → ℚ) : ℚ := f c.e0 * l0 + f c.e1 * l1 + f c.e2 * l2
  let out : Shade :=
    if v.e0.color = v.e1.color ∧ v.e1.color = v.e2.color then c.e0
    else ⟨mix Shade.r, mix Shade.g, mix Shade.b, mix Shade.a⟩
  match texture with
  | none => out
  | some sample =>
    let texel := Shade.ofColor (sample (v.e0.u * l0 + v.e1.u * l1 + v.e2.u * l2)
      (v.e0.v * l0 + v.e1.v * l1 + v.e2.v * l2))
    ⟨out.r * texel.r * (1 / 255), out.g * texel.g * (1 / 255), out.b * texel.b * (1 / 255),
      out.a * texel.a * (1 / 255)⟩

/-- A pixel of a textured or interpolated triangle. -/
def shadePixel (v : Three ScreenVertex) (area : ℤ) (texture : Option Texture) (w : Three ℤ)
    (dst : UInt32) : UInt32 :=
  let invArea : ℚ := 1 / area
  let l0 := w.e0 * invArea
  let l1 := w.e1 * invArea
  let src := shade v l0 l1 (1 - l0 - l1) texture
  if 0 < src.a then blendOver src dst else dst

/-! ### Triangles -/

/-- Store through `row_mut` and `get_mut`. -/
def store (paint : Three ℤ → UInt32 → UInt32) (x y : ℤ) (w : Three ℤ) (T : Target) : Target :=
  match T.rowMut y.toNat with
  | none => T
  | some start => T.modify start x.toNat (paint w)

/-- Rasterize one triangle, blending into the target within `clip`. -/
def triangle (T : Target) (clip : PixelRect) (v : Three ScreenVertex) (texture : Option Texture) :
    Checked Empty Target := do
  match ← setup T clip v with
  | none => return T
  | some s =>
    let hasRow (y : ℤ) : Bool := (T.rowMut y.toNat).isSome
    if texture.isNone ∧ s.v.e0.color = s.v.e1.color ∧ s.v.e1.color = s.v.e2.color then
      let color := s.v.e0.color
      if color.a = 0 then return T
      else if color.a = 255 then
        let packed := packRgb color.r color.g color.b
        s.scan hasRow (store fun _ _ => packed) T
      else s.scan hasRow (store fun _ => blendOver (Shade.ofColor color)) T
    else s.scan hasRow (store (shadePixel s.v s.area texture)) T

/-- The pixels whose test the triangle passes, in the order of the loops. -/
def covered (T : Target) (clip : PixelRect) (v : Three ScreenVertex) :
    Checked Empty (List (ℤ × ℤ)) := do
  match ← setup T clip v with
  | none => return []
  | some s =>
    s.scan (fun y => (T.rowMut y.toNat).isSome) (fun x y _ hits => hits ++ [(x, y)]) []

end Taskman.Egui.Raster
