import Taskman.Egui.Raster.Coverage
import Taskman.Egui.Span
import Mathlib.Tactic.FieldSimp
import Mathlib.Tactic.NormNum

/-!
# The two blends of a channel

The fast path divides by 255 with two shifts, the triangles round the exact quotient.  The shifts
are one too small where the rounded quotient is the next number just by its half.

* `fastBlend_toNat`, `exactBlend_toNat` : the two channels as numbers;
* `SameChannel`, `fastBlend_eq_iff` : **when they are the same**;
* `fastPixel_eq_iff` : when the two paths leave the same pixel.
-/

namespace Taskman.Egui.Span

open Raster

/-! ### Packing -/

/-- Three channels in the layout of a pixel. -/
def pack (r g b : UInt32) : UInt32 := (r <<< 16) ||| (g <<< 8) ||| b

theorem pack_toNat {r g b : UInt32} (hr : r.toNat < 256) (hg : g.toNat < 256)
    (hb : b.toNat < 256) : (pack r g b).toNat = r.toNat * 65536 + g.toNat * 256 + b.toNat := by
  have hr16 : (r <<< 16).toNat = r.toNat <<< 16 := by
    rw [UInt32.toNat_shiftLeft]
    show r.toNat <<< 16 % 2 ^ 32 = _
    rw [Nat.shiftLeft_eq]
    omega
  have hg8 : (g <<< 8).toNat = g.toNat <<< 8 := by
    rw [UInt32.toNat_shiftLeft]
    show g.toNat <<< 8 % 2 ^ 32 = _
    rw [Nat.shiftLeft_eq]
    omega
  rw [pack, UInt32.toNat_or, UInt32.toNat_or, hr16, hg8, Nat.or_assoc,
    ← Nat.shiftLeft_add_eq_or_of_lt (show b.toNat < 2 ^ 8 by omega),
    ← Nat.shiftLeft_add_eq_or_of_lt (by rw [Nat.shiftLeft_eq]; omega), Nat.shiftLeft_eq,
    Nat.shiftLeft_eq]
  omega

theorem pack_inj {r g b r' g' b' : UInt32} (hr : r.toNat < 256) (hg : g.toNat < 256)
    (hb : b.toNat < 256) (hr' : r'.toNat < 256) (hg' : g'.toNat < 256) (hb' : b'.toNat < 256) :
    pack r g b = pack r' g' b' ↔ r = r' ∧ g = g' ∧ b = b' := by
  rw [← UInt32.toNat_inj, pack_toNat hr hg hb, pack_toNat hr' hg' hb', ← UInt32.toNat_inj,
    ← UInt32.toNat_inj, ← UInt32.toNat_inj]
  omega

theorem channel_lt (pixel shift : UInt32) : (channel pixel shift).toNat < 256 := by
  rw [channel, UInt32.toNat_and]
  exact Nat.and_lt_two_pow _ (by decide : (0xff : UInt32).toNat < 2 ^ 8)

/-! ### As numbers -/

theorem shifts_eq {n : ℕ} (h : n ≤ 255 * 255) :
    (n + 127 + (n + 127) / 256) / 256 = n / 255 + if 128 < n % 255 then 1 else 0 := by
  split_ifs <;> omega

theorem invA_toNat (a : UInt8) : (255 - a.toUInt32 : UInt32).toNat = 255 - a.toNat := by
  have ha := a.toNat_lt
  rw [UInt32.toNat_sub_of_le, UInt8.toNat_toUInt32]
  · rfl
  · rw [UInt32.le_iff_toNat_le, UInt8.toNat_toUInt32]
    show a.toNat ≤ 255
    omega

theorem weighted_le {a : UInt8} {d : ℕ} (hd : d < 256) : d * (255 - a.toNat) ≤ 255 * 255 :=
  Nat.mul_le_mul (by omega) (Nat.sub_le _ _)

theorem fastBlend_toNat {a src : UInt8} {dc : UInt32} (hdc : dc.toNat < 256) :
    (fastBlend (255 - a.toUInt32) src dc).toNat =
      min (src.toNat + (dc.toNat * (255 - a.toNat) / 255 +
        if 128 < dc.toNat * (255 - a.toNat) % 255 then 1 else 0)) 255 := by
  have hn := weighted_le (a := a) hdc
  have hsrc := src.toNat_lt
  have ht : (dc * (255 - a.toUInt32) + 127).toNat = dc.toNat * (255 - a.toNat) + 127 := by
    rw [UInt32.toNat_add, UInt32.toNat_mul, invA_toNat]
    show (dc.toNat * (255 - a.toNat) % 2 ^ 32 + 127) % 2 ^ 32 = _
    omega
  have hshift : ∀ t : UInt32, (t >>> 8).toNat = t.toNat / 256 := fun t => by
    rw [UInt32.toNat_shiftRight]
    exact Nat.shiftRight_eq_div_pow t.toNat 8
  have hdiv : ∀ t : UInt32, t.toNat = dc.toNat * (255 - a.toNat) + 127 →
      ((t + (t >>> 8)) >>> 8).toNat = dc.toNat * (255 - a.toNat) / 255 +
        if 128 < dc.toNat * (255 - a.toNat) % 255 then 1 else 0 := by
    intro t ht
    rw [hshift, UInt32.toNat_add, hshift, ht, ← shifts_eq hn]
    omega
  have hmin : ∀ s t : UInt32, (min s t).toNat = min s.toNat t.toNat := by
    intro s t
    show (if s ≤ t then s else t).toNat = _
    rw [apply_ite UInt32.toNat, Nat.min_def]
    rfl
  rw [fastBlend, hmin, UInt32.toNat_add, hdiv _ ht, UInt8.toNat_toUInt32]
  show min _ 255 = _
  split_ifs <;> omega

theorem clamp_toNat (k : ℕ) :
    (UInt32.ofNat (max 0 (min (k : ℤ) 255)).toNat).toNat = min k 255 := by
  rw [UInt32.toNat_ofNat_of_lt' (by show _ < 2 ^ 32; omega)]
  omega

theorem exactBlend_toNat {a src : UInt8} {dc : UInt32} (hdc : dc.toNat < 256) :
    (roundChannel (src.toNat + dc.toNat * (1 - a.toNat * (1 / 255)))).toNat =
      min (src.toNat + (dc.toNat * (255 - a.toNat) / 255 +
        if 128 ≤ dc.toNat * (255 - a.toNat) % 255 then 1 else 0)) 255 := by
  have ha := a.toNat_lt
  have hn := weighted_le (a := a) hdc
  generalize hN : dc.toNat * (255 - a.toNat) = N at hn ⊢
  have hvalue : (src.toNat + dc.toNat * (1 - a.toNat * (1 / 255)) : ℚ) =
      src.toNat + N / 255 := by
    rw [← hN]
    push_cast [Nat.cast_sub (show a.toNat ≤ 255 by omega)]
    ring
  have hround : roundHalfAway (src.toNat + N / 255) =
      ((src.toNat + (N / 255 + if 128 ≤ N % 255 then 1 else 0) : ℕ) : ℤ) := by
    have hfraction : (src.toNat + N / 255 + 1 / 2 : ℚ) =
        ((src.toNat * 510 + 2 * N + 255 : ℕ) : ℚ) / (510 : ℕ) := by
      push_cast
      ring
    rw [roundHalfAway_of_nonneg (by positivity), hfraction, Rat.floor_natCast_div_natCast]
    split_ifs <;> omega
  rw [hvalue, roundChannel, hround]
  exact clamp_toNat _

/-! ### Where they differ -/

/-- A channel of which both blends make the same: the rounded quotient is not the next number just
by its half, or is clamped. -/
def SameChannel (a src : UInt8) (dc : ℕ) : Prop :=
  dc * (255 - a.toNat) % 255 ≠ 128 ∨ 255 ≤ src.toNat + dc * (255 - a.toNat) / 255

instance (a src : UInt8) (dc : ℕ) : Decidable (SameChannel a src dc) :=
  inferInstanceAs (Decidable (_ ∨ _))

/-- **When the two blends of a channel are the same.** -/
theorem fastBlend_eq_iff {a src : UInt8} {dc : UInt32} (hdc : dc.toNat < 256) :
    fastBlend (255 - a.toUInt32) src dc =
      roundChannel (src.toNat + dc.toNat * (1 - a.toNat * (1 / 255))) ↔
    SameChannel a src dc.toNat := by
  rw [← UInt32.toNat_inj, fastBlend_toNat hdc, exactBlend_toNat hdc, SameChannel]
  split_ifs <;> omega

theorem fastBlend_lt {a src : UInt8} {dc : UInt32} (hdc : dc.toNat < 256) :
    (fastBlend (255 - a.toUInt32) src dc).toNat < 256 := by
  rw [fastBlend_toNat hdc]
  omega

theorem roundChannel_lt (x : ℚ) : (roundChannel x).toNat < 256 := by
  rw [roundChannel, UInt32.toNat_ofNat_of_lt' (by show _ < 2 ^ 32; omega)]
  omega

/-- A pixel of which both paths make the same, for a colour that is not opaque. -/
def SamePixel (color : Color32) (dst : UInt32) : Prop :=
  SameChannel color.a color.r (channel dst 16).toNat ∧
    SameChannel color.a color.g (channel dst 8).toNat ∧
    SameChannel color.a color.b (channel dst 0).toNat

instance (color : Color32) (dst : UInt32) : Decidable (SamePixel color dst) :=
  inferInstanceAs (Decidable (_ ∧ _ ∧ _))

/-- **When the two paths leave the same pixel.** -/
theorem fastPixel_eq_iff (color : Color32) (dst : UInt32) :
    fastPixel color dst = blendOver (Shade.ofColor color) dst ↔ SamePixel color dst := by
  have h16 := channel_lt dst 16
  have h8 := channel_lt dst 8
  have h0 := channel_lt dst 0
  refine (pack_inj (fastBlend_lt h16) (fastBlend_lt h8) (fastBlend_lt h0) (roundChannel_lt _)
    (roundChannel_lt _) (roundChannel_lt _)).trans ?_
  exact and_congr (fastBlend_eq_iff h16) (and_congr (fastBlend_eq_iff h8) (fastBlend_eq_iff h0))

theorem pack_lt {r g b : UInt32} (hr : r.toNat < 256) (hg : g.toNat < 256) (hb : b.toNat < 256) :
    (pack r g b).toNat < 2 ^ 24 := by
  rw [pack_toNat hr hg hb]
  omega

theorem fastPixel_lt (color : Color32) (dst : UInt32) : (fastPixel color dst).toNat < 2 ^ 24 :=
  pack_lt (fastBlend_lt (channel_lt dst 16)) (fastBlend_lt (channel_lt dst 8))
    (fastBlend_lt (channel_lt dst 0))

theorem packRgb_lt (r g b : UInt8) : (packRgb r g b).toNat < 2 ^ 24 := by
  have hbyte : ∀ c : UInt8, c.toUInt32.toNat < 256 := fun c => by
    rw [UInt8.toNat_toUInt32]
    exact c.toNat_lt
  exact pack_lt (hbyte r) (hbyte g) (hbyte b)

theorem uniformPaint_lt (color : Color32) (dst : UInt32) :
    (uniformPaint color dst).toNat < 2 ^ 24 := by
  unfold uniformPaint
  split_ifs
  · exact packRgb_lt _ _ _
  · exact pack_lt (roundChannel_lt _) (roundChannel_lt _) (roundChannel_lt _)

end Taskman.Egui.Span
