import Taskman.Egui.Span.Regions
import Taskman.LTS.Machine

/-!
# Is the fast path invisible?

A sequence of rectangles that qualify, each filled by the fast path in one buffer and drawn as two
triangles in another.  The two buffers stay the same just as long as no rectangle reaches
coordinates that the grid cannot hold, no opaque one has too many pixels to be counted, and no
translucent one meets a pixel for which the division by two shifts rounds the other way.

* `Invisible` : after every rectangle the same pixels, and the next one touches the same ones;
* `Harmless` : the condition on a rectangle and the pixels it meets;
* `invisible_iff` : **the fast path is invisible just if all rectangles are harmless in turn**.
-/

namespace Taskman.Egui.Span

open Raster Point

/-- A rectangle that qualifies for the fast path, with its clip and the cut for the triangles. -/
structure Draw where
  clip : PixelRect
  shape : RectShape
  pixelsPerPoint : Option ℚ
  roundDefault : Bool
  cut : Diagonal
  rect : PixelRect
  accepted : fastRect shape pixelsPerPoint roundDefault = some rect

namespace Draw

/-- By the fast path. -/
def fill (T : Target) (d : Draw) : Checked Empty Target := Span.fill T d.clip d.rect d.shape.fill

/-- By two triangles. -/
def draw (T : Target) (d : Draw) : Checked Empty Target :=
  drawTriangles T d.clip d.rect d.shape.fill d.cut

/-- The pixels of it on a target. -/
def region (T : Target) (d : Draw) : PixelRect := boundsOf T d.clip d.rect

/-- What `fast_rect` promises of a rectangle. -/
theorem facts (d : Draw) : d.shape.fill.a ≠ 0 ∧ d.rect.minX ≤ d.rect.maxX ∧
    d.rect.minY ≤ d.rect.maxY := by
  have h := d.accepted
  unfold fastRect at h
  split_ifs at h with h1 h2 h3 ha h5
  simp only [Option.bind_eq_bind, Option.bind_eq_some_iff] at h
  obtain ⟨left, -, top, -, right, -, bottom, -, h⟩ := h
  split_ifs at h with h6
  simp only [Option.bind_eq_some_iff] at h
  obtain ⟨ppp, -, h⟩ := h
  split_ifs at h with h7
  rw [← Option.some.inj h]
  refine ⟨ha, ?_, ?_⟩ <;> simp only [saturateI32] <;> omega

end Draw

/-- With some contents of the buffer the operation changes the pixel. -/
def Touches (op : Target → Checked Empty Target) (T : Target) (i : ℕ) : Prop :=
  ∃ l h T', op (T.withPixels l h) = .ok T' ∧ T'.pixels[i]? ≠ l[i]?

/-- After every beginning of the sequence both have left the same pixels, and the next rectangle
touches the same pixels. -/
def Invisible (T : Target) (draws : List Draw) : Prop :=
  ∀ pre, pre <+: draws → ∃ T', pre.foldlM Draw.fill T = .ok T' ∧
    pre.foldlM Draw.draw T = .ok T' ∧ ∀ d, pre ++ [d] <+: draws →
      ∀ i, Touches (Draw.fill · d) T' i ↔ Touches (Draw.draw · d) T' i

/-- The rectangle stays where the grid holds its coordinates, its pixels can be counted, and both
blends make the same of the pixels it meets. -/
structure Harmless (T : Target) (d : Draw) : Prop where
  near : ∀ x y, (d.region T).Contains x y → x < 2 ^ 25 ∧ y < 2 ^ 25
  counted : d.shape.fill.a = 255 → ¬ T.CountOverflows (d.region T)
  blended : d.shape.fill.a ≠ 255 → ∀ (i : ℕ) (p : UInt32), T.pixels[i]? = some p →
    (d.region T).Contains ↑(i % T.stride) ↑(i / T.stride) → SamePixel d.shape.fill p

/-- The machine that draws triangles. -/
def step (T : Target) (d : Draw) : Option Target := (d.draw T).toOption

/-- The two ways do the same to a rectangle. -/
def Agrees (T : Target) (d : Draw) : Prop :=
  (∃ T', d.fill T = .ok T' ∧ d.draw T = .ok T') ∧
    ∀ i, Touches (Draw.fill · d) T i ↔ Touches (Draw.draw · d) T i

/-! ### One rectangle -/

/-- What the triangles can reach of it. -/
def Draw.reach (T : Target) (d : Draw) : PixelRect := boundsOf T d.clip (clampRect d.rect)

theorem fill_withPixels {T : Target} {d : Draw} (l : List UInt32)
    (hl : l.length = T.pixels.length)
    (h : d.shape.fill.a = 255 → ¬ T.CountOverflows (d.region T)) :
    d.fill (T.withPixels l hl) =
      .ok ((T.withPixels l hl).update (d.region T).Contains (fillPaint d.shape.fill)) :=
  fill_eq_update h

theorem draw_withPixels {T : Target} {d : Draw} (l : List UInt32)
    (hl : l.length = T.pixels.length) :
    d.draw (T.withPixels l hl) =
      .ok ((T.withPixels l hl).update (d.reach T).Contains (uniformPaint d.shape.fill)) :=
  drawTriangles_eq_update d.cut d.facts.2.1 d.facts.2.2 d.facts.1

theorem draw_eq_update (T : Target) (d : Draw) :
    d.draw T = .ok (T.update (d.reach T).Contains (uniformPaint d.shape.fill)) :=
  draw_withPixels T.pixels rfl

/-- An operation that changes every pixel of a region touches that region. -/
theorem touches_iff {op : Target → Checked Empty Target} {T : Target} {bounds : PixelRect}
    {f : UInt32 → UInt32} (hop : ∀ l h, op (T.withPixels l h) =
      .ok ((T.withPixels l h).update bounds.Contains f))
    (hf : ∀ p, (f p).toNat < 2 ^ 24) (i : ℕ) :
    Touches op T i ↔ i < T.pixels.length ∧ bounds.Contains ↑(i % T.stride) ↑(i / T.stride) := by
  have hget : ∀ l h, ((T.withPixels l h).update bounds.Contains f).pixels[i]? =
      l[i]?.map fun p => if bounds.Contains ↑(i % T.stride) ↑(i / T.stride) then f p else p :=
    fun l h => Target.getElem?_update i
  constructor
  · rintro ⟨l, h, T', hT', hne⟩
    obtain rfl := Except.ok.inj ((hop l h).symm.trans hT')
    rw [hget] at hne
    by_cases hi : i < T.pixels.length
    · refine ⟨hi, ?_⟩
      by_contra hout
      refine hne ?_
      simp only [if_neg hout, Option.map_id']
    · have hnone : l[i]? = none := List.getElem?_eq_none (by omega)
      rw [hnone] at hne
      exact absurd rfl hne
  · rintro ⟨hi, hin⟩
    refine ⟨List.replicate T.pixels.length 0xff000000, List.length_replicate, _, hop _ _, ?_⟩
    rw [hget, List.getElem?_replicate, if_pos hi, Option.map_some, if_pos hin, ne_eq,
      Option.some.injEq]
    intro heq
    have hlt := hf 0xff000000
    rw [heq] at hlt
    exact absurd hlt (by decide)

theorem contains_reach_iff {T : Target} {d : Draw} {x y : ℤ} :
    (d.reach T).Contains x y ↔ (d.region T).Contains x y ∧ x < 2 ^ 25 ∧ y < 2 ^ 25 := by
  simp only [Draw.reach, Draw.region, boundsOf, PixelRect.contains_intersect]
  constructor
  · rintro ⟨⟨hclip, htarget⟩, hminX, hmaxX, hminY, hmaxY⟩
    have hx := htarget.minX
    have hy := htarget.minY
    simp only [Target.bounds] at hx hy
    simp only [clampRect, clampCoord] at hminX hmaxX hminY hmaxY
    exact ⟨⟨⟨hclip, htarget⟩, by omega, by omega, by omega, by omega⟩, by omega, by omega⟩
  · rintro ⟨⟨⟨hclip, htarget⟩, hminX, hmaxX, hminY, hmaxY⟩, hx, hy⟩
    have hx0 := htarget.minX
    have hy0 := htarget.minY
    simp only [Target.bounds] at hx0 hy0
    refine ⟨⟨hclip, htarget⟩, ?_, ?_, ?_, ?_⟩ <;> simp only [clampRect, clampCoord] <;> omega

/-- Every pixel of the region is in the buffer. -/
theorem exists_index {T : Target} {d : Draw} {x y : ℤ} (h : (d.region T).Contains x y) :
    ∃ i : ℕ, i < T.pixels.length ∧ ((i % T.stride : ℕ) : ℤ) = x ∧ ((i / T.stride : ℕ) : ℤ) = y := by
  have htarget : T.bounds.Contains x y := by
    simp only [Draw.region, boundsOf, PixelRect.contains_intersect] at h
    exact h.1.2
  obtain ⟨⟨hx, hx'⟩, hy, hy'⟩ := toNat_lt_of_contains htarget
  obtain ⟨hmod, hdiv⟩ := (Target.index_eq_iff (y := y.toNat) hx').mp rfl
  have hlen := Target.row_le_length hy'
  refine ⟨y.toNat * T.stride + x.toNat, by omega, ?_, ?_⟩
  · rw [hmod, Int.toNat_of_nonneg hx]
  · rw [hdiv, Int.toNat_of_nonneg hy]

/-- The same pixels of the same region. -/
theorem update_eq_iff {T : Target} {bounds : PixelRect} {f g : UInt32 → UInt32} :
    T.update bounds.Contains f = T.update bounds.Contains g ↔
      ∀ (i : ℕ) (p : UInt32), T.pixels[i]? = some p →
        bounds.Contains ↑(i % T.stride) ↑(i / T.stride) → f p = g p := by
  constructor
  · intro heq i p hp hin
    have hi := congrArg (fun T : Target => T.pixels[i]?) heq
    simp only [Target.getElem?_update, hp, Option.map_some, if_pos hin, Option.some.injEq] at hi
    exact hi
  · intro hall
    refine Target.ext_getElem? rfl rfl rfl fun i => ?_
    rw [Target.getElem?_update, Target.getElem?_update]
    cases hp : T.pixels[i]? with
    | none => rfl
    | some p =>
      rw [Option.map_some, Option.map_some]
      split_ifs with hin
      · rw [hall i p hp hin]
      · rfl

theorem fillPaint_lt (color : Color32) (p : UInt32) : (fillPaint color p).toNat < 2 ^ 24 := by
  unfold fillPaint
  split_ifs
  · exact packRgb_lt _ _ _
  · exact fastPixel_lt _ _

/-- Both ways touch the same pixels if the rectangle stays where the grid holds its coordinates. -/
theorem touched_iff {T : Target} {d : Draw}
    (hcount : d.shape.fill.a = 255 → ¬ T.CountOverflows (d.region T)) :
    (∀ i, Touches (Draw.fill · d) T i ↔ Touches (Draw.draw · d) T i) ↔
      ∀ x y, (d.region T).Contains x y → x < 2 ^ 25 ∧ y < 2 ^ 25 := by
  have hfill : ∀ i, Touches (Draw.fill · d) T i ↔ i < T.pixels.length ∧ _ :=
    touches_iff (fun l h => fill_withPixels l h hcount) (fillPaint_lt d.shape.fill)
  have hdraw : ∀ i, Touches (Draw.draw · d) T i ↔ i < T.pixels.length ∧ _ :=
    touches_iff (fun l h => draw_withPixels l h) (uniformPaint_lt d.shape.fill)
  constructor
  · intro hall x y hin
    obtain ⟨i, hi, rfl, rfl⟩ := exists_index hin
    have htouched := (hdraw i).mp ((hall i).mp ((hfill i).mpr ⟨hi, hin⟩))
    exact (contains_reach_iff.mp htouched.2).2
  · intro hnear i
    rw [hfill, hdraw, contains_reach_iff]
    exact and_congr_right fun _ => ⟨fun hin => ⟨hin, hnear _ _ hin⟩, fun h => h.1⟩

/-- Both ways leave the same pixels of the region if both blends make the same of them. -/
theorem paint_eq_iff {color : Color32} {T : Target} {bounds : PixelRect} :
    T.update bounds.Contains (fillPaint color) = T.update bounds.Contains (uniformPaint color) ↔
      (color.a ≠ 255 → ∀ (i : ℕ) (p : UInt32), T.pixels[i]? = some p →
        bounds.Contains ↑(i % T.stride) ↑(i / T.stride) → SamePixel color p) := by
  rw [update_eq_iff]
  by_cases ha : color.a = 255
  · simp [fillPaint, uniformPaint, ha]
  · have hfill : fillPaint color = fastPixel color := if_neg ha
    have hdraw : uniformPaint color = blendOver (Shade.ofColor color) := if_neg ha
    rw [hfill, hdraw]
    simp only [fastPixel_eq_iff, ne_eq, ha, not_false_iff, true_imp_iff]

/-- **The two ways do the same to a rectangle just if it is harmless.** -/
theorem agrees_iff (T : Target) (d : Draw) : Agrees T d ↔ Harmless T d := by
  by_cases hcount : d.shape.fill.a = 255 → ¬ T.CountOverflows (d.region T)
  · have hfill : d.fill T = .ok (T.update (d.region T).Contains (fillPaint d.shape.fill)) :=
      fill_withPixels T.pixels rfl hcount
    have hsame : (∀ x y, (d.region T).Contains x y → x < 2 ^ 25 ∧ y < 2 ^ 25) →
        T.update (d.reach T).Contains (uniformPaint d.shape.fill) =
          T.update (d.region T).Contains (uniformPaint d.shape.fill) :=
      fun hnear => Target.update_congr fun x y =>
        contains_reach_iff.trans ⟨fun h => h.1, fun h => ⟨h, hnear x y h⟩⟩
    constructor
    · rintro ⟨⟨T', hT', hT''⟩, htouched⟩
      have hnear := (touched_iff hcount).mp htouched
      refine ⟨hnear, hcount, paint_eq_iff.mp ?_⟩
      rw [← hsame hnear]
      exact Except.ok.inj ((hfill.symm.trans hT').trans (hT''.symm.trans (draw_eq_update T d)))
    · rintro ⟨hnear, -, hblended⟩
      refine ⟨⟨_, hfill, ?_⟩, (touched_iff hcount).mpr hnear⟩
      rw [draw_eq_update, hsame hnear, paint_eq_iff.mpr hblended]
  · refine iff_of_false ?_ fun h => hcount h.counted
    rintro ⟨⟨T', hT', -⟩, -⟩
    obtain ⟨ha, hover⟩ := Classical.not_imp.mp hcount
    have herror : d.fill T = .error (.panic .overflow) :=
      fill_of_countOverflows ha (not_not.mp hover)
    rw [herror] at hT'
    cases hT'

/-! ### A sequence of rectangles -/

theorem invisible_cons {T : Target} {d : Draw} {draws : List Draw} :
    Invisible T (d :: draws) ↔
      Agrees T d ∧ ∀ T', d.draw T = .ok T' → Invisible T' draws := by
  constructor
  · intro h
    obtain ⟨T₀, hT₀, -, htouched⟩ := h [] List.nil_prefix
    obtain rfl := Except.ok.inj hT₀
    obtain ⟨T₁, hfill, hdraw, -⟩ := h [d] (List.prefix_append [d] draws)
    simp only [List.foldlM_cons, List.foldlM_nil, bind_pure] at hfill hdraw
    refine ⟨⟨⟨T₁, hfill, hdraw⟩, htouched d (List.prefix_append [d] draws)⟩, ?_⟩
    intro T' hT' pre hpre
    obtain rfl := Except.ok.inj (hdraw.symm.trans hT')
    obtain ⟨T₄, hfills, hdraws, hnext⟩ := h (d :: pre) (List.cons_prefix_cons.mpr ⟨rfl, hpre⟩)
    rw [List.foldlM_cons, hfill, Checked.bind_ok] at hfills
    rw [List.foldlM_cons, hdraw, Checked.bind_ok] at hdraws
    exact ⟨T₄, hfills, hdraws, fun e he => hnext e (List.cons_prefix_cons.mpr ⟨rfl, he⟩)⟩
  · rintro ⟨⟨⟨T₁, hfill, hdraw⟩, htouched⟩, hrest⟩ pre hpre
    cases pre with
    | nil =>
      refine ⟨T, rfl, rfl, fun e he => ?_⟩
      obtain rfl := (List.cons_prefix_cons.mp he).1
      exact htouched
    | cons e pre =>
      obtain ⟨rfl, hrestPre⟩ := List.cons_prefix_cons.mp hpre
      obtain ⟨T', hfills, hdraws, hnext⟩ := hrest T₁ hdraw pre hrestPre
      refine ⟨T', ?_, ?_, fun e' he => hnext e' (List.cons_prefix_cons.mp he).2⟩
      · rw [List.foldlM_cons, hfill, Checked.bind_ok]
        exact hfills
      · rw [List.foldlM_cons, hdraw, Checked.bind_ok]
        exact hdraws

/-- **The fast path is invisible just if all rectangles are harmless in turn.** -/
theorem invisible_iff (T : Target) (draws : List Draw) :
    Invisible T draws ↔ Machine.Along step Harmless T draws := by
  induction draws generalizing T with
  | nil =>
    refine iff_of_true (fun pre hpre => ?_) trivial
    obtain rfl := List.prefix_nil.mp hpre
    exact ⟨T, rfl, rfl, fun d hd => absurd (List.prefix_nil.mp hd) (by simp)⟩
  | cons d draws ih =>
    rw [invisible_cons, agrees_iff]
    refine and_congr_right fun _ => ?_
    have hstep : ∀ T', T' ∈ step T d ↔ d.draw T = .ok T' := by
      intro T'
      rw [step]
      cases d.draw T with
      | error e => exact iff_of_false nofun nofun
      | ok T₁ => exact ⟨fun h => congrArg Except.ok (Option.some.inj h), fun h => by cases h; rfl⟩
    simp only [hstep, ih]

/-! ### A half-transparent rectangle -/

/-- Two by two pixels of a nearly full blue. -/
def panel : Target where
  pixels := List.replicate 4 0xfe
  width := 2
  height := 2
  stride := 2
  width_lt := by decide
  height_lt := by decide
  stride_lt := by decide
  width_le := le_rfl
  fits := by decide

/-- A rectangle over all of it. -/
def hover : Draw where
  clip := ⟨0, 0, 2, 2⟩
  shape :=
    { rect := ⟨some 0, some 0, some 2, some 2⟩
      cornerRadius := ⟨0, 0, 0, 0⟩
      fill := ⟨0x20, 0x40, 0x60, 0x80⟩
      stroke := ⟨0, transparent⟩
      roundToPixels := none
      blurWidth := 0
      brush := false
      angle := 0 }
  pixelsPerPoint := some 1
  roundDefault := true
  cut := .falling
  rect := ⟨0, 0, 2, 2⟩
  accepted := by decide +kernel

/-- The fast path leaves a blue of 222, the triangles one of 223. -/
theorem not_invisible_hover : ¬ Invisible panel [hover] := by
  intro h
  have hharmless := (agrees_iff panel hover).mp (invisible_cons.mp h).1
  have hsame := hharmless.blended (by decide) 0 0xfe rfl (by decide)
  exact absurd hsame (by decide)

end Taskman.Egui.Span
