import Taskman.Egui.Raster

/-!
# The fast path for pixel-aligned rectangles

Model of `vendor/egui/crates/egui_software/src/span.rs`: which rectangles are filled without the
tessellator, and how.  Against it stands what the tessellator would draw, the rectangle as two
triangles of its colour.  A coordinate is `none` where it is not a finite number.

* `fastRect` : the pixels of a rectangle that qualifies;
* `fill` : the fast path;
* `drawTriangles` : the two triangles.
-/

namespace Taskman.Egui.Span

open Raster

/-- The radius of each corner of a rectangle. -/
structure CornerRadius where
  nw : UInt8
  ne : UInt8
  sw : UInt8
  se : UInt8
  deriving DecidableEq

/-- The corners are alike. -/
def CornerRadius.isSame (c : CornerRadius) : Bool := c.nw == c.ne && c.nw == c.sw && c.nw == c.se

/-- The outline of a rectangle. -/
structure Stroke where
  width : ℚ
  color : Color32
  deriving DecidableEq

/-- `Color32::TRANSPARENT`. -/
def transparent : Color32 := ⟨0, 0, 0, 0⟩

/-- An outline that cannot be seen. -/
def Stroke.isEmpty (s : Stroke) : Bool := s.width ≤ 0 || s.color == transparent

/-- `emath::Rect`. -/
structure Rect where
  minX : Option ℚ
  minY : Option ℚ
  maxX : Option ℚ
  maxY : Option ℚ
  deriving DecidableEq

/-- What of a `RectShape` the fast path looks at. -/
structure RectShape where
  rect : Rect
  cornerRadius : CornerRadius
  fill : Color32
  stroke : Stroke
  roundToPixels : Option Bool
  blurWidth : ℚ
  brush : Bool
  angle : ℚ
  deriving DecidableEq

/-- `GuiRounding::round_to_pixels`, and then into pixels. -/
def roundToPixels (x ppp : ℚ) : ℤ :=
  let r := roundHalfAway (x * ppp) / ppp
  roundHalfAway (r * ppp)

/-- `f32 as i32` of a whole number. -/
def saturateI32 (n : ℤ) : ℤ := max (-2 ^ 31) (min n (2 ^ 31 - 1))

/-- The integer pixel rectangle to fill, if this shape qualifies for the fast path. -/
def fastRect (shape : RectShape) (pixelsPerPoint : Option ℚ) (roundDefault : Bool) :
    Option PixelRect :=
  if !shape.cornerRadius.isSame || shape.cornerRadius.nw != 0 then none
  else if shape.blurWidth != 0 || shape.brush || shape.angle != 0 then none
  else if !shape.stroke.isEmpty then none
  else if shape.fill.a = 0 then none
  else if !shape.roundToPixels.getD roundDefault then none
  else do
    let left ← shape.rect.minX
    let top ← shape.rect.minY
    let right ← shape.rect.maxX
    let bottom ← shape.rect.maxY
    if right - left ≤ 0 ∨ bottom - top ≤ 0 then none
    else
      let ppp ← pixelsPerPoint
      let minX := roundToPixels left ppp
      let minY := roundToPixels top ppp
      let maxX := roundToPixels right ppp
      let maxY := roundToPixels bottom ppp
      if maxX - minX < 2 ∨ maxY - minY < 2 then none
      else some ⟨saturateI32 minX, saturateI32 minY, saturateI32 maxX, saturateI32 maxY⟩

/-! ### Filling -/

/-- A channel of the translucent fill, with the division by 255 as two shifts. -/
def fastBlend (invA : UInt32) (src : UInt8) (dc : UInt32) : UInt32 :=
  let t := dc * invA + 127
  let t := (t + (t >>> 8)) >>> 8
  min (src.toUInt32 + t) 255

/-- A pixel of the translucent fill. -/
def fastPixel (color : Color32) (dst : UInt32) : UInt32 :=
  let invA := 255 - color.a.toUInt32
  let nr := fastBlend invA color.r (channel dst 16)
  let ng := fastBlend invA color.g (channel dst 8)
  let nb := fastBlend invA color.b (channel dst 0)
  (nr <<< 16) ||| (ng <<< 8) ||| nb

/-- Fill `rect` with a premultiplied colour, clipped. -/
def fill (T : Target) (clip rect : PixelRect) (color : Color32) : Checked Empty Target :=
  let bounds := (clip.intersect T.bounds).intersect rect
  if bounds.IsEmpty then .ok T
  else if color.a = 255 then T.fillRect bounds (packRgb color.r color.g color.b)
  else
    .ok ((Int.range bounds.minY bounds.maxY).foldl (fun T y =>
      match T.rowMut y.toNat with
      | none => T
      | some start =>
        if bounds.minX.toNat ≤ bounds.maxX.toNat ∧ bounds.maxX.toNat ≤ T.width then
          T.mapSlice (start + bounds.minX.toNat) (bounds.maxX.toNat - bounds.minX.toNat)
            (fastPixel color)
        else T) T)

/-! ### The same rectangle as triangles -/

/-- Along which diagonal a rectangle is cut. -/
inductive Diagonal where
  | falling
  | rising
  deriving DecidableEq

/-- The two triangles of a rectangle. -/
def triangles (rect : PixelRect) (color : Color32) (cut : Diagonal) :
    Three ScreenVertex × Three ScreenVertex :=
  let leftTop : ScreenVertex := ⟨rect.minX, rect.minY, 0, 0, color⟩
  let rightTop : ScreenVertex := ⟨rect.maxX, rect.minY, 0, 0, color⟩
  let leftBottom : ScreenVertex := ⟨rect.minX, rect.maxY, 0, 0, color⟩
  let rightBottom : ScreenVertex := ⟨rect.maxX, rect.maxY, 0, 0, color⟩
  match cut with
  | .falling => (⟨leftTop, rightTop, rightBottom⟩, ⟨leftTop, rightBottom, leftBottom⟩)
  | .rising => (⟨leftTop, rightTop, leftBottom⟩, ⟨leftBottom, rightTop, rightBottom⟩)

/-- Draw them, one after the other. -/
def drawTriangles (T : Target) (clip rect : PixelRect) (color : Color32) (cut : Diagonal) :
    Checked Empty Target := do
  let T ← triangle T clip (triangles rect color cut).1 none
  triangle T clip (triangles rect color cut).2 none

end Taskman.Egui.Span
