import Taskman.Egui.Raster
import Mathlib.Tactic.NormNum

/-!
# The stepped edge functions are exact

What the loops of the rasterizer add up pixel by pixel is the edge function itself, nothing on the
way overflows, and the loops visit the pixels that pass the test of the edges once each.

* `edgeValue` : the biased edge function at the centre of a pixel;
* `Setup.Exact` : what the loops start with, for corners on the grid;
* `Setup.Exact.scan_eq` : **the loops visit the pixels that pass the test, row by row**.
-/

namespace Taskman.Egui.Raster

open Point

/-! ### Checked operations in their range -/

/-- The coordinates are at most so far from the origin. -/
structure Within (bound : ℤ) (q : Point ℤ) : Prop where
  x : |q.x| ≤ bound
  y : |q.y| ≤ bound

theorem i32_ok {n : ℤ} (h : |n| < 2 ^ 31) : i32 n = .ok n :=
  Checked.int_ok (abs_lt.mp h).1.le (abs_lt.mp h).2

theorem i64_ok {n : ℤ} (h : |n| < 2 ^ 63) : i64 n = .ok n :=
  Checked.int_ok (abs_lt.mp h).1.le (abs_lt.mp h).2

theorem abs_sub_le_of_le {a b A B : ℤ} (ha : |a| ≤ A) (hb : |b| ≤ B) : |a - b| ≤ A + B :=
  (abs_sub a b).trans (add_le_add ha hb)

theorem abs_mul_le_of_le {a b A B : ℤ} (ha : |a| ≤ A) (hb : |b| ≤ B) : |a * b| ≤ A * B := by
  rw [abs_mul]
  exact mul_le_mul ha hb (abs_nonneg b) ((abs_nonneg a).trans ha)

section Area

variable {a b c : Point ℤ} (ha : Within (2 ^ 29) a) (hb : Within (2 ^ 29) b)
  (hc : Within (2 ^ 30) c)

include ha hb hc

theorem abs_products_le : |(b.x - a.x) * (c.y - a.y)| ≤ 3 * 2 ^ 59 ∧
    |(b.y - a.y) * (c.x - a.x)| ≤ 3 * 2 ^ 59 := by
  constructor
  · exact (abs_mul_le_of_le (abs_sub_le_of_le hb.x ha.x) (abs_sub_le_of_le hc.y ha.y)).trans
      (by norm_num)
  · exact (abs_mul_le_of_le (abs_sub_le_of_le hb.y ha.y) (abs_sub_le_of_le hc.x ha.x)).trans
      (by norm_num)

theorem abs_orient_le : |orient a b c| ≤ 3 * 2 ^ 60 := by
  obtain ⟨hl, hr⟩ := abs_products_le ha hb hc
  exact (abs_sub_le_of_le hl hr).trans (by norm_num)

theorem orient2d_eq : orient2d a b c = .ok (orient a b c) := by
  obtain ⟨hl, hr⟩ := abs_products_le ha hb hc
  have hx : ∀ {p q : ℤ}, |p| ≤ 2 ^ 30 → |q| ≤ 2 ^ 29 → i64 (p - q) = .ok (p - q) :=
    fun hp hq => i64_ok ((abs_sub_le_of_le hp hq).trans_lt (by norm_num))
  have hle : ∀ {p : ℤ}, |p| ≤ 2 ^ 29 → |p| ≤ 2 ^ 30 := fun hp => hp.trans (by norm_num)
  simp only [orient2d, hx (hle hb.x) ha.x, hx hc.y ha.y, hx (hle hb.y) ha.y, hx hc.x ha.x,
    Checked.bind_ok, i64_ok (hl.trans_lt (by norm_num)), i64_ok (hr.trans_lt (by norm_num))]
  exact i64_ok ((abs_orient_le ha hb hc).trans_lt (by norm_num))

end Area

/-! ### Edge functions -/

/-- The centre of a pixel. -/
def centreAt (x y : ℤ) : Point ℤ := ⟨16 * x + 8, 16 * y + 8⟩

/-- What the bias of an edge is. -/
def biasOf (e : Point ℤ × Point ℤ) : ℤ :=
  if isTopLeft (e.2.x - e.1.x) (e.2.y - e.1.y) then 0 else -1

/-- The biased edge function at the centre of a pixel. -/
def edgeValue (x y : ℤ) (e : Point ℤ × Point ℤ) : ℤ := orient e.1 e.2 (centreAt x y) + biasOf e

/-- The three of them. -/
def weights (p : Three (Point ℤ)) (x y : ℤ) : Three ℤ := (edges p).map (edgeValue x y)

theorem isTopLeft_iff {dx dy : ℤ} : isTopLeft dx dy ↔ IsTopLeft dx dy := by
  simp [isTopLeft, IsTopLeft]

/-- The bias is the fill rule. -/
theorem edgeValue_nonneg_iff {x y : ℤ} {e : Point ℤ × Point ℤ} :
    0 ≤ edgeValue x y e ↔ Wins e.1 e.2 (centreAt x y) := by
  unfold edgeValue biasOf Wins
  by_cases h : isTopLeft (e.2.x - e.1.x) (e.2.y - e.1.y)
  · rw [if_pos h, add_zero, le_iff_lt_or_eq, eq_comm, and_iff_left (isTopLeft_iff.mp h)]
  · have hnot := fun h' => h (isTopLeft_iff.mpr h')
    rw [if_neg h, or_iff_left fun hzero => hnot hzero.2]
    omega

theorem lor_nonneg_iff {a b : ℤ} : 0 ≤ Int.lor a b ↔ 0 ≤ a ∧ 0 ≤ b := by
  cases a with
  | ofNat m =>
    cases b with
    | ofNat n => simp [Int.lor]
    | negSucc n => simp [Int.lor]
  | negSucc m =>
    cases b with
    | ofNat n => simp [Int.lor]
    | negSucc n => simp [Int.lor]

theorem inside_weights_iff {p : Three (Point ℤ)} {x y : ℤ} :
    inside (weights p x y) ↔ Wins p.e1 p.e2 (centreAt x y) ∧ Wins p.e2 p.e0 (centreAt x y) ∧
      Wins p.e0 p.e1 (centreAt x y) := by
  rw [inside, decide_eq_true_iff, lor_nonneg_iff, lor_nonneg_iff, and_assoc]
  exact and_congr edgeValue_nonneg_iff (and_congr edgeValue_nonneg_iff edgeValue_nonneg_iff)

theorem edgeValue_right (x y : ℤ) (e : Point ℤ × Point ℤ) :
    edgeValue x y e + (e.1.y - e.2.y) * subOne = edgeValue (x + 1) y e := by
  unfold edgeValue orient centreAt subOne
  ring

theorem edgeValue_down (x y : ℤ) (e : Point ℤ × Point ℤ) :
    edgeValue x y e + (e.2.x - e.1.x) * subOne = edgeValue x (y + 1) e := by
  unfold edgeValue orient centreAt subOne
  ring

section Edge

variable {e : Point ℤ × Point ℤ} (h : Within (2 ^ 29) e.1) (h' : Within (2 ^ 29) e.2)

include h h'

theorem bias_eq : bias e = .ok (biasOf e) := by
  have hdx : i32 (e.2.x - e.1.x) = .ok (e.2.x - e.1.x) :=
    i32_ok ((abs_sub_le_of_le h'.x h.x).trans_lt (by norm_num))
  have hdy : i32 (e.2.y - e.1.y) = .ok (e.2.y - e.1.y) :=
    i32_ok ((abs_sub_le_of_le h'.y h.y).trans_lt (by norm_num))
  rw [bias, hdx, hdy]
  rfl

theorem stepX_eq : stepX e = .ok ((e.1.y - e.2.y) * subOne) := by
  have hdy := abs_sub_le_of_le h.y h'.y
  rw [stepX, i64_ok (hdy.trans_lt (by norm_num)), Checked.bind_ok]
  exact i64_ok ((abs_mul_le_of_le hdy (le_refl |subOne|)).trans_lt (by norm_num [subOne]))

theorem stepY_eq : stepY e = .ok ((e.2.x - e.1.x) * subOne) := by
  have hdx := abs_sub_le_of_le h'.x h.x
  rw [stepY, i64_ok (hdx.trans_lt (by norm_num)), Checked.bind_ok]
  exact i64_ok ((abs_mul_le_of_le hdx (le_refl |subOne|)).trans_lt (by norm_num [subOne]))

theorem abs_edgeValue_lt {x y : ℤ} (hc : Within (2 ^ 30) (centreAt x y)) :
    |edgeValue x y e| < 2 ^ 63 := by
  have horient := abs_le.mp (abs_orient_le h h' hc)
  have hbias : -1 ≤ biasOf e ∧ biasOf e ≤ 0 := by
    unfold biasOf
    split_ifs <;> omega
  rw [abs_lt, edgeValue]
  constructor <;> linarith [horient.1, horient.2, hbias.1, hbias.2]

theorem weight_eq {x y : ℤ} (hc : Within (2 ^ 30) (centreAt x y)) :
    weight (centreAt x y) e = .ok (edgeValue x y e) := by
  rw [weight, orient2d_eq h h' hc, Checked.bind_ok, bias_eq h h', Checked.bind_ok]
  exact i64_ok (abs_edgeValue_lt h h' hc)

end Edge

/-! ### The loops -/

theorem range_cons {a b : ℤ} (h : a < b) : Int.range a b = a :: Int.range (a + 1) b := by
  have hlen : (b - a).toNat = (b - (a + 1)).toNat + 1 := by omega
  rw [Int.range, hlen, List.range_succ_eq_map, List.map_cons, List.map_map, Int.range]
  congr 1
  · simp
  · refine List.map_congr_left fun n _ => ?_
    simp only [Function.comp_apply]
    push_cast
    ring

theorem range_of_le {a b : ℤ} (h : b ≤ a) : Int.range a b = [] := by
  rw [Int.range, Int.toNat_of_nonpos (by omega)]
  rfl

theorem nodup_range (a b : ℤ) : (Int.range a b).Nodup :=
  (List.nodup_range).map fun m n h => by simpa using h

/-- A loop that steps what is a function of the counter. -/
theorem foldlM_range {σ : Type} {a b : ℤ} {W : ℤ → Three ℤ} {G : ℤ → σ → σ}
    {f : Three ℤ × σ → ℤ → Checked Empty (Three ℤ × σ)}
    (hf : ∀ x s, a ≤ x → x < b → f (W x, s) x = .ok (W (x + 1), G x s)) (s : σ) :
    (Int.range a b).foldlM f (W a, s) =
      .ok (W (max a b), (Int.range a b).foldl (fun s x => G x s) s) := by
  obtain hle | hlt := le_or_gt b a
  · rw [range_of_le hle, max_eq_left hle]
    rfl
  · obtain ⟨n, hn⟩ : ∃ n : ℕ, b = a + n + 1 := ⟨(b - a - 1).toNat, by omega⟩
    induction n generalizing a s with
    | zero =>
      rw [range_cons hlt, range_of_le (by omega), List.foldlM_cons, hf a s le_rfl hlt,
        Checked.bind_ok, max_eq_right hlt.le, show b = a + 1 by simpa using hn]
      rfl
    | succ n ih =>
      rw [range_cons hlt, List.foldlM_cons, hf a s le_rfl hlt, Checked.bind_ok,
        ih (fun x s hx => hf x s (by omega)) _ (by omega) (by push_cast at hn; omega),
        List.foldl_cons, max_eq_right hlt.le, max_eq_right (by omega)]

/-- What the loops start with is exact, for corners on the grid. -/
structure Setup.Exact (s : Setup) (p : Three (Point ℤ)) : Prop where
  e0 : Within (2 ^ 29) p.e0
  e1 : Within (2 ^ 29) p.e1
  e2 : Within (2 ^ 29) p.e2
  minX : 0 ≤ s.bounds.minX
  minY : 0 ≤ s.bounds.minY
  maxX : s.bounds.maxX ≤ 2 ^ 25 + 1
  maxY : s.bounds.maxY ≤ 2 ^ 25 + 1
  rowW : s.rowW = weights p s.bounds.minX s.bounds.minY
  stepX : s.stepX = (edges p).map fun e => (e.1.y - e.2.y) * subOne
  stepY : s.stepY = (edges p).map fun e => (e.2.x - e.1.x) * subOne

/-- The pixels that pass the test of the edges. -/
def hits (bounds : PixelRect) (p : Three (Point ℤ)) : List (ℤ × ℤ) :=
  (Int.range bounds.minY bounds.maxY).flatMap fun y =>
    ((Int.range bounds.minX bounds.maxX).filter fun x => inside (weights p x y)).map fun x => (x, y)

theorem mem_hits {bounds : PixelRect} {p : Three (Point ℤ)} {x y : ℤ} :
    (x, y) ∈ hits bounds p ↔ bounds.Contains x y ∧ inside (weights p x y) := by
  simp only [hits, List.mem_flatMap, List.mem_map, List.mem_filter, Int.mem_range_iff,
    Prod.mk.injEq]
  constructor
  · rintro ⟨y', hy, x', ⟨hx, hinside⟩, rfl, rfl⟩
    exact ⟨⟨hx.1, hx.2, hy.1, hy.2⟩, hinside⟩
  · rintro ⟨⟨hminX, hmaxX, hminY, hmaxY⟩, hinside⟩
    exact ⟨y, ⟨hminY, hmaxY⟩, x, ⟨⟨hminX, hmaxX⟩, hinside⟩, rfl, rfl⟩

theorem nodup_hits (bounds : PixelRect) (p : Three (Point ℤ)) : (hits bounds p).Nodup := by
  refine List.nodup_flatMap.mpr ⟨fun y _ => ?_, ?_⟩
  · exact ((nodup_range _ _).filter _).map fun x x' h => (Prod.mk.injEq _ _ _ _ ▸ h).1
  · refine (nodup_range _ _).imp fun {y y'} hne => ?_
    simp only [Function.onFun, List.disjoint_left, List.mem_map]
    rintro _ ⟨x, -, rfl⟩ ⟨x', -, heq⟩
    exact hne (congrArg Prod.snd heq).symm

theorem advance_eq {w step w' : Three ℤ} (h0 : w.e0 + step.e0 = w'.e0)
    (h1 : w.e1 + step.e1 = w'.e1) (h2 : w.e2 + step.e2 = w'.e2) (h0' : |w'.e0| < 2 ^ 63)
    (h1' : |w'.e1| < 2 ^ 63) (h2' : |w'.e2| < 2 ^ 63) : advance w step = .ok w' := by
  rw [advance, h0, h1, h2, i64_ok h0', i64_ok h1', i64_ok h2']
  rfl

namespace Setup.Exact

variable {s : Setup} {p : Three (Point ℤ)} (h : s.Exact p)

include h

theorem within_centre {x y : ℤ} (hx : s.bounds.minX ≤ x) (hx' : x ≤ s.bounds.maxX)
    (hy : s.bounds.minY ≤ y) (hy' : y ≤ s.bounds.maxY) : Within (2 ^ 30) (centreAt x y) := by
  have hminX := h.minX
  have hminY := h.minY
  have hmaxX := h.maxX
  have hmaxY := h.maxY
  constructor
  · rw [centreAt, abs_le]
    constructor <;> simp only <;> omega
  · rw [centreAt, abs_le]
    constructor <;> simp only <;> omega

/-- One column further. -/
theorem advance_right {x y : ℤ} (hx : s.bounds.minX ≤ x) (hx' : x < s.bounds.maxX)
    (hy : s.bounds.minY ≤ y) (hy' : y < s.bounds.maxY) :
    advance (weights p x y) s.stepX = .ok (weights p (x + 1) y) := by
  have hc := h.within_centre (show s.bounds.minX ≤ x + 1 by omega)
    (show x + 1 ≤ s.bounds.maxX by omega) hy hy'.le
  rw [h.stepX]
  exact advance_eq (edgeValue_right x y _) (edgeValue_right x y _) (edgeValue_right x y _)
    (abs_edgeValue_lt h.e1 h.e2 hc) (abs_edgeValue_lt h.e2 h.e0 hc) (abs_edgeValue_lt h.e0 h.e1 hc)

/-- One row further. -/
theorem advance_down {y : ℤ} (hx : s.bounds.minX ≤ s.bounds.maxX)
    (hy : s.bounds.minY ≤ y) (hy' : y < s.bounds.maxY) :
    advance (weights p s.bounds.minX y) s.stepY = .ok (weights p s.bounds.minX (y + 1)) := by
  have hc := h.within_centre le_rfl hx (show s.bounds.minY ≤ y + 1 by omega)
    (show y + 1 ≤ s.bounds.maxY by omega)
  rw [h.stepY]
  exact advance_eq (edgeValue_down _ y _) (edgeValue_down _ y _) (edgeValue_down _ y _)
    (abs_edgeValue_lt h.e1 h.e2 hc) (abs_edgeValue_lt h.e2 h.e0 hc) (abs_edgeValue_lt h.e0 h.e1 hc)

theorem columns_eq {σ : Type} {visit : ℤ → ℤ → Three ℤ → σ → σ} {y : ℤ}
    (hy : s.bounds.minY ≤ y) (hy' : y < s.bounds.maxY) (a : σ) :
    s.columns visit y (weights p s.bounds.minX y) a =
      .ok ((((Int.range s.bounds.minX s.bounds.maxX).filter fun x => inside (weights p x y)).map
        fun x => (x, y)).foldl (fun a q => visit q.1 q.2 (weights p q.1 q.2) a) a) := by
  rw [columns, foldlM_range (W := fun x => weights p x y)
    (G := fun x a => if inside (weights p x y) then visit x y (weights p x y) a else a),
    Checked.bind_ok, List.foldl_map, List.foldl_filter]
  · rfl
  · intro x a hx hx'
    show (advance (weights p x y) s.stepX >>= fun w => pure (w, _)) = _
    rw [h.advance_right hx hx' hy hy']
    rfl

/-- **The loops visit the pixels that pass the test, row by row.** -/
theorem scan_eq {σ : Type} {hasRow : ℤ → Bool} {visit : ℤ → ℤ → Three ℤ → σ → σ}
    (hne : ¬ s.bounds.IsEmpty)
    (hrow : ∀ y, s.bounds.minY ≤ y → y < s.bounds.maxY → hasRow y) (a : σ) :
    s.scan hasRow visit a =
      .ok ((hits s.bounds p).foldl (fun a q => visit q.1 q.2 (weights p q.1 q.2) a) a) := by
  have hx : s.bounds.minX ≤ s.bounds.maxX := (not_le.mp (not_or.mp hne).1).le
  rw [scan, h.rowW, foldlM_range (W := fun y => weights p s.bounds.minX y)
    (G := fun y a => (((Int.range s.bounds.minX s.bounds.maxX).filter fun x =>
      inside (weights p x y)).map fun x => (x, y)).foldl
        (fun a q => visit q.1 q.2 (weights p q.1 q.2) a) a),
    Checked.bind_ok, hits, List.foldl_flatMap]
  · rfl
  · intro y a hy hy'
    dsimp only
    rw [if_pos (hrow y hy hy'), h.columns_eq hy hy', Checked.bind_ok, h.advance_down hx hy hy']
    rfl

end Setup.Exact

end Taskman.Egui.Raster
