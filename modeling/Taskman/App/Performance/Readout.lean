import Taskman.App.Performance.Series
import Taskman.Collections.Bisect
import Mathlib.Data.List.GetD
import Mathlib.Data.Nat.Dist

/-!
# The sample a chart's readout names

The readout of a chart names the sample under the pointer, and stays with it while the pointer does
not move, also when newer samples slide under it.  Both the pointer and the locked sample are looked
up by a binary search in the timestamps of the window.

* `nearestAt`, `firstOnAxis`, `pinnedSample` : the lookup, the axis and the lock;
* `readouts` : the samples named in a run of frames;
* `Names` : what they should be;
* `abs_pointerInstant_sub_le` : the instant looked up is within a millisecond of the pointer;
* `nearestAt_of_sorted` : **the lookup finds a nearest sample when the timestamps are in order**;
* `readouts_name` : **the readout names the samples it should, along a run of frames in which the
  timestamps are in order and the locked sample has not been evicted**.
-/

namespace Taskman

namespace Performance

/-! ### The axis -/

/-- The times of the points of a graph, and the length of its window. -/
structure TimeAxis where
  stamps : List ℕ
  windowMs : ℕ

namespace TimeAxis

/-- The axis of a window in seconds. -/
def new (stamps : List ℕ) (windowS : ℕ) : TimeAxis := ⟨stamps, windowS * 1000⟩

/-- Left edge and width, or `none` for an axis with nothing on it yet.  The right edge is the newest
sample. -/
def bounds (axis : TimeAxis) : Option (ℕ × ℕ) :=
  axis.stamps.getLast?.map fun last => (last - max axis.windowMs 1, max axis.windowMs 1)

end TimeAxis

/-- Index of the first sample that lies on the axis. -/
def firstOnAxis (axis : TimeAxis) (bounds : Option (ℕ × ℕ)) : ℕ :=
  match bounds with
  | none => 0
  | some (t0, _) => (axis.stamps.findIdx? fun t => t0 ≤ t).getD 0

/-- Index of the sample closest to the instant `query`.  No subtraction falls below zero, whatever
the order of the timestamps (`Bisect.partitionPoint_change`). -/
def nearestAt (ts : List ℕ) (query : ℕ) : ℕ :=
  if ts = [] then 0
  else
    let hi := Bisect.partitionPoint (fun t => t < query) ts
    if hi = 0 then 0
    else if ts.length ≤ hi then ts.length - 1
    else
      let lo := hi - 1
      if query - ts.getD lo 0 ≤ ts.getD hi 0 - query then lo else hi

/-- The instant under a pointer that is `frac` of the way through the window, in milliseconds. -/
def pointerInstant (t0 span : ℕ) (frac : ℚ) : ℕ :=
  min (t0 + (roundHalfAway (binary64.round (frac * binary64.round span))).toNat) (2 ^ 64 - 1)

/-- The point nearest to the pointer. -/
def nearestSample (ts : List ℕ) (t0 span : ℕ) (frac : ℚ) : ℕ :=
  nearestAt ts (pointerInstant t0 span frac)

/-! ### The lock -/

section Lock

variable {Pos : Type*}

/-- The sample a readout has locked onto: its instant, and where the pointer was. -/
structure Pin (Pos : Type*) where
  atMs : ℕ
  pointer : Pos

/-- What a frame finds: the pointer is not on the chart; the keyboard chooses the sample; or the
pointer is on the chart, `frac` of its width from the left. -/
inductive Hover (Pos : Type*) where
  | away
  | keyboard
  | over (pointer : Pos) (frac : ℚ)

/-- A frame of a chart, over a history that is not empty. -/
structure Frame (Pos : Type*) where
  history : List HistoryPoint
  graphSeconds : ℕ
  hover : Hover Pos
  history_ne : history ≠ []
  tMs_lt : ∀ point ∈ history, point.tMs < 2 ^ 64

namespace Frame

/-- The timestamps of the window. -/
def stamps (f : Frame Pos) : List ℕ := timestamps (visibleSlice f.history f.graphSeconds)

/-- The axis of a frame. -/
def axis (f : Frame Pos) : TimeAxis := TimeAxis.new f.stamps f.graphSeconds

/-- A timestamp lies on the axis. -/
def OnAxis (f : Frame Pos) (t : ℕ) : Prop :=
  ∃ b ∈ f.axis.bounds, b.1 ≤ t ∧ t ≤ b.1 + b.2

end Frame

-- two positions of the pointer are so close that it counts as standing still
variable (withinSlack : Pos → Pos → Bool)

/-- Sample the readout should report, given the one under the pointer, and the lock it leaves. -/
def pinnedSample (pin : Option (Pin Pos)) (axis : TimeAxis) (bounds : Option (ℕ × ℕ))
    (pointer : Pos) (underPointer : ℕ) : Option (Pin Pos) × ℕ :=
  match (if underPointer < axis.stamps.length then bounds else none) with
  | none => (pin, underPointer)
  | some (t0, _) =>
    match pin.filter fun pin => withinSlack pin.pointer pointer && decide (t0 ≤ pin.atMs) with
    | some held => (some held, nearestAt axis.stamps held.atMs)
    | none => (some ⟨axis.stamps.getD underPointer 0, pointer⟩, underPointer)

/-- The lock after a frame, and the sample that its pointer names. -/
def readout (pin : Option (Pin Pos)) (f : Frame Pos) : Option (Pin Pos) × Option ℕ :=
  match f.hover with
  | .away => (none, none)
  | .keyboard => (pin, none)
  | .over pointer frac =>
    let bounds := f.axis.bounds
    let first := firstOnAxis f.axis bounds
    match bounds with
    | none => (pin, none)
    | some (t0, span) =>
      let under := max (nearestSample f.stamps t0 span (max 0 (min frac 1))) first
      let (pin, idx) := pinnedSample withinSlack pin f.axis bounds pointer under
      (pin, some (min (max idx first) (f.stamps.length - 1)))

/-- The samples named in a run of frames. -/
def readouts : Option (Pin Pos) → List (Frame Pos) → List (Option ℕ)
  | _, [] => []
  | pin, f :: frames =>
    (readout withinSlack pin f).2 :: readouts (readout withinSlack pin f).1 frames

/-! ### What should be named -/

namespace Frame

/-- The sample lies on the axis, and no other sample on the axis is closer to the pointer. -/
def Nearest (f : Frame Pos) (frac : ℚ) (t : ℕ) : Prop :=
  f.OnAxis t ∧ ∃ b ∈ f.axis.bounds, ∀ t' ∈ f.stamps, f.OnAxis t' →
    Nat.dist t (pointerInstant b.1 b.2 (max 0 (min frac 1))) ≤
      Nat.dist t' (pointerInstant b.1 b.2 (max 0 (min frac 1)))

end Frame

/-- A lock holds in a frame: the pointer has stayed where it was taken, and the locked timestamp is
on the axis. -/
def Pin.Holds (f : Frame Pos) (pointer : Pos) (lock : Pin Pos) : Prop :=
  withinSlack lock.pointer pointer ∧ f.OnAxis lock.atMs

/-- **What a run should name**, from a lock on: the sample with the locked timestamp while the lock
holds, and a nearest sample when the pointer arrives, on which it locks. -/
def Names : Option (Pin Pos) → List (Frame Pos) → List (Option ℕ) → Prop
  | _, [], idxs => idxs = []
  | _, _ :: _, [] => False
  | lock, f :: frames, idx :: idxs =>
    match f.hover with
    | .away => Names none frames idxs
    | .keyboard => Names lock frames idxs
    | .over pointer frac =>
      ∃ i ∈ idx, ∃ t ∈ f.stamps[i]?,
        (∃ held ∈ lock, held.Holds withinSlack f pointer ∧ t = held.atMs ∧
            Names (some held) frames idxs) ∨
          (∀ held ∈ lock, ¬ held.Holds withinSlack f pointer) ∧ f.Nearest frac t ∧
            Names (some ⟨t, pointer⟩) frames idxs

/-- The timestamps of a frame with the pointer on the chart are in order, and the sample that a
motionless pointer has locked is still there while it is not left of the axis. -/
def Ordered (pin : Option (Pin Pos)) (f : Frame Pos) : Prop :=
  match f.hover with
  | .over pointer _ =>
    f.stamps.Pairwise (· ≤ ·) ∧ ∀ held ∈ pin, withinSlack held.pointer pointer →
      (∀ b ∈ f.axis.bounds, b.1 ≤ held.atMs) → held.atMs ∈ f.stamps
  | _ => True

end Lock

/-! ### The lookup in timestamps in order -/

section Lookup

variable {ts : List ℕ} {query : ℕ}

/-- **The lookup finds a nearest sample**, and what comes after it is not before the instant. -/
theorem nearestAt_of_sorted (hsorted : ts.Pairwise (· ≤ ·)) (hne : ts ≠ []) (query : ℕ) :
    ∃ h : nearestAt ts query < ts.length,
      (∀ t ∈ ts, Nat.dist ts[nearestAt ts query] query ≤ Nat.dist t query) ∧
        ∀ j, ∀ hj : j < ts.length, nearestAt ts query < j → query ≤ ts[j] := by
  have hpos : 0 < ts.length := List.length_pos_iff.mpr hne
  have hmono : ∀ i j (hi : i < ts.length) (hj : j < ts.length), i ≤ j → ts[i] ≤ ts[j] :=
    fun i j hi hj hij => by
      rcases Nat.eq_or_lt_of_le hij with rfl | hlt
      · rfl
      · exact List.pairwise_iff_getElem.mp hsorted i j hi hj hlt
  have hside := fun i (hi : i < ts.length) =>
    Bisect.lt_partitionPoint_iff hsorted query hi
  have hle := Bisect.partitionPoint_le_length hsorted query
  rw [nearestAt, if_neg hne]
  dsimp only
  set hi := Bisect.partitionPoint (fun t => decide (t < query)) ts with hhi
  -- it is enough to find a position whose distance no position exceeds, at `hi` or just before it
  suffices hpick : ∀ i, ∀ h : i < ts.length, hi ≤ i + 1 →
      (∀ j, ∀ hj : j < ts.length, Nat.dist ts[i] query ≤ Nat.dist ts[j] query) →
      ∃ h : i < ts.length, (∀ t ∈ ts, Nat.dist ts[i] query ≤ Nat.dist t query) ∧
        ∀ j, ∀ hj : j < ts.length, i < j → query ≤ ts[j] by
    split
    · rename_i hzero
      refine hpick 0 hpos (by omega) fun j hj => ?_
      have h0 := (hside 0 hpos).not.mp (by omega)
      have h0j := hmono 0 j hpos hj (Nat.zero_le j)
      simp only [Nat.dist]
      omega
    · rename_i hzero
      split
      · rename_i hall
        refine hpick (ts.length - 1) (by omega) (by omega) fun j hj => ?_
        have hlast := (hside (ts.length - 1) (by omega)).mp (by omega)
        have hjlast := hmono j (ts.length - 1) hj (by omega) (by omega)
        simp only [Nat.dist]
        omega
      · rename_i hinside
        have hhigh := (hside hi (by omega)).not.mp (lt_irrefl hi)
        have hlow := (hside (hi - 1) (by omega)).mp (by omega)
        rw [List.getD_eq_getElem _ _ (by omega : hi - 1 < ts.length),
          List.getD_eq_getElem _ _ (by omega : hi < ts.length)]
        have hpred : hi - 1 < ts.length := by omega
        have hin : hi < ts.length := by omega
        -- every position is on one side, with one of the two neighbours between
        have hsplit : ∀ j, ∀ hj : j < ts.length,
            ts[j] ≤ ts[hi - 1] ∨ ts[hi] ≤ ts[j] := fun j hj => by
          rcases Nat.lt_or_ge j hi with hlt | hge
          · exact Or.inl (hmono j (hi - 1) hj (by omega) (by omega))
          · exact Or.inr (hmono hi j (by omega) hj hge)
        split
        · refine hpick (hi - 1) (by omega) (by omega) fun j hj => ?_
          have hj' := hsplit j hj
          simp only [Nat.dist]
          omega
        · refine hpick hi (by omega) (by omega) fun j hj => ?_
          have hj' := hsplit j hj
          simp only [Nat.dist]
          omega
  intro i h hbound hnearest
  refine ⟨h, fun t ht => ?_, fun j hj hij => ?_⟩
  · obtain ⟨j, hj, rfl⟩ := List.getElem_of_mem ht
    exact hnearest j hj
  · exact not_lt.mp ((hside j hj).not.mp (by omega))

/-- The first sample on the axis, if there is one. -/
theorem firstOnAxis_spec (axis : TimeAxis) {t0 : ℕ} (span : ℕ) (h : ∃ t ∈ axis.stamps, t0 ≤ t) :
    ∃ hlt : firstOnAxis axis (some (t0, span)) < axis.stamps.length,
      t0 ≤ axis.stamps[firstOnAxis axis (some (t0, span))] ∧
        ∀ j, ∀ hj : j < axis.stamps.length, j < firstOnAxis axis (some (t0, span)) →
          axis.stamps[j] < t0 := by
  cases hfind : axis.stamps.findIdx? fun t => t0 ≤ t with
  | none =>
    obtain ⟨t, ht, hle⟩ := h
    simpa [hle] using List.findIdx?_eq_none_iff.mp hfind t ht
  | some first =>
    have hfirst : firstOnAxis axis (some (t0, span)) = first := by
      simp [firstOnAxis, hfind]
    obtain ⟨hlt, hon, hbefore⟩ := List.findIdx?_eq_some_iff_getElem.mp hfind
    refine ⟨hfirst ▸ hlt, by simpa [hfirst] using hon, fun j hj hjlt => ?_⟩
    simpa using hbefore j (hfirst ▸ hjlt)

end Lookup

/-! ### The instant under the pointer -/

/-- **The whole milliseconds are within one of the pointer's place on the axis.** -/
theorem abs_pointerInstant_sub_le {t0 span : ℕ} {frac : ℚ} (h0 : 0 ≤ frac) (h1 : frac ≤ 1)
    (hspan : span < 2 ^ 52) (ht0 : t0 + span + 1 < 2 ^ 64) :
    |(pointerInstant t0 span frac : ℚ) - (t0 + frac * span)| ≤ 1 := by
  have hspanQ : (span : ℚ) < 2 ^ 52 := by exact_mod_cast hspan
  have hexact : binary64.round span = span := by
    refine BinaryFormat.round_of_representable (BinaryFormat.representable_intCast (n := span)
      (by decide) ?_)
    rw [Nat.abs_cast]
    have hlt : span ≤ 2 ^ 53 := by omega
    exact_mod_cast hlt
  have hlo : 0 ≤ frac * span := by positivity
  have hhi : frac * span ≤ span := mul_le_of_le_one_left (by positivity) h1
  set x := binary64.round (frac * span) with hx
  -- the product is below 2^52, where neighbouring numbers are at most 1 apart
  have hround : |x - frac * span| ≤ 1 / 2 := by
    rcases eq_or_ne (frac * span) 0 with hzero | hne
    · have hround0 : binary64.round 0 = 0 := by
        have hhalf : roundHalfEven 0 = 0 := by exact_mod_cast roundHalfEven_intCast 0
        simp [BinaryFormat.round, hhalf]
      rw [hx, hzero, hround0, sub_self, abs_zero]
      norm_num
    · have hulp := binary64.ulpExponent_le hne (n := 52) (by
        rw [abs_of_nonneg hlo]
        exact_mod_cast hhi.trans_lt hspanQ)
      have hpow : (2 : ℚ) ^ binary64.ulpExponent (frac * span) ≤ 1 :=
        zpow_le_one_of_nonpos₀ (by norm_num) (hulp.trans (by decide))
      exact (binary64.abs_round_sub_le _).trans (by linarith)
  have haway := abs_roundHalfAway_sub_le x
  rw [abs_le] at hround haway
  have hle : roundHalfAway x ≤ span + 1 := by
    have hq : (roundHalfAway x : ℚ) ≤ ((span + 1 : ℤ) : ℚ) := by
      push_cast
      linarith
    exact_mod_cast hq
  rw [pointerInstant, hexact, ← hx, min_eq_left (by omega), Nat.cast_add, add_sub_add_left_eq_sub,
    abs_le]
  -- a negative rounding is cast to 0, which is nearer to the product
  rcases Int.le_total 0 (roundHalfAway x) with hpos | hneg
  · have hcast : ((roundHalfAway x).toNat : ℚ) = roundHalfAway x := by
      exact_mod_cast Int.toNat_of_nonneg hpos
    rw [hcast]
    constructor <;> linarith
  · have hnegQ : (roundHalfAway x : ℚ) ≤ 0 := by exact_mod_cast hneg
    rw [Int.toNat_of_nonpos hneg, Nat.cast_zero]
    constructor <;> linarith

/-! ### A frame -/

section Frames

variable {Pos : Type*}

namespace Frame

variable (f : Frame Pos)

@[simp] theorem axis_stamps : f.axis.stamps = f.stamps := rfl

theorem stamps_ne : f.stamps ≠ [] := by
  have hpos : 0 < f.history.length := List.length_pos_iff.mpr f.history_ne
  have hstart : windowStart f.history f.graphSeconds ≤ f.history.length := by
    rw [windowStart]
    split
    · omega
    · exact Rolling.scanBack_le _ _ _
  have hlen : 0 < f.stamps.length := by
    rw [stamps, timestamps, List.length_map, visibleSlice, List.length_drop]
    omega
  exact List.length_pos_iff.mp hlen

theorem stamp_lt {t : ℕ} (ht : t ∈ f.stamps) : t < 2 ^ 64 := by
  obtain ⟨point, hpoint, rfl⟩ := List.mem_map.mp ht
  exact f.tMs_lt point (List.mem_of_mem_drop hpoint)

/-- The newest timestamp, and the width of the axis. -/
theorem bounds_eq : ∃ last span, last ∈ f.stamps ∧
    (f.stamps.Pairwise (· ≤ ·) → ∀ t ∈ f.stamps, t ≤ last) ∧
      f.axis.bounds = some (last - span, span) := by
  obtain ⟨last, hlast⟩ := Option.isSome_iff_exists.mp (List.getLast?_isSome.mpr f.stamps_ne)
  refine ⟨last, max (f.graphSeconds * 1000) 1, List.mem_of_getLast? hlast,
    fun hsorted t ht => ?_, ?_⟩
  · obtain ⟨init, hinit⟩ := List.getLast?_eq_some_iff.mp hlast
    rw [hinit] at ht hsorted
    rcases List.mem_append.mp ht with hmem | hmem
    · exact (List.pairwise_append.mp hsorted).2.2 t hmem last (List.mem_singleton_self last)
    · exact (List.mem_singleton.mp hmem).le
  · rw [TimeAxis.bounds, axis, TimeAxis.new, hlast]
    rfl

end Frame

variable {withinSlack : Pos → Pos → Bool} {f : Frame Pos} {t0 span : ℕ}

/-- **When the pointer arrives** it is given a nearest sample of those on the axis. -/
theorem arrival_nearest (hsorted : f.stamps.Pairwise (· ≤ ·))
    (hbounds : f.axis.bounds = some (t0, span)) (frac : ℚ) :
    ∃ h : max (nearestSample f.stamps t0 span (max 0 (min frac 1)))
        (firstOnAxis f.axis (some (t0, span))) < f.stamps.length,
      f.Nearest frac f.stamps[max (nearestSample f.stamps t0 span (max 0 (min frac 1)))
        (firstOnAxis f.axis (some (t0, span)))] := by
  obtain ⟨last, width, hlast, hle, heq⟩ := f.bounds_eq
  obtain ⟨rfl, rfl⟩ : last - width = t0 ∧ width = span := by
    simpa using heq.symm.trans hbounds
  obtain ⟨hfirst, hon, hbefore⟩ := firstOnAxis_spec f.axis width
    ⟨last, hlast, Nat.sub_le last width⟩
  set query := pointerInstant (last - width) width (max 0 (min frac 1)) with hquery
  obtain ⟨hnear, hnearest, hafter⟩ := nearestAt_of_sorted hsorted f.stamps_ne query
  have ht0 : last - width ≤ query := by
    have := f.stamp_lt hlast
    rw [hquery, pointerInstant]
    omega
  have honAxis : ∀ t ∈ f.stamps, last - width ≤ t → f.OnAxis t := fun t ht ht0 =>
    ⟨_, hbounds, ht0, by have := hle hsorted t ht; omega⟩
  have hmono : ∀ i j (hi : i < f.stamps.length) (hj : j < f.stamps.length), i ≤ j →
      f.stamps[i] ≤ f.stamps[j] := fun i j hi hj hij => by
    rcases Nat.eq_or_lt_of_le hij with rfl | hlt
    · rfl
    · exact List.pairwise_iff_getElem.mp hsorted i j hi hj hlt
  rcases Nat.lt_or_ge (nearestAt f.stamps query) (firstOnAxis f.axis (some (last - width, width)))
    with hlead | hge
  · -- the nearest sample is the one before the axis, so that the pointer is at most at the first
    simp only [nearestSample, ← hquery, max_eq_right hlead.le]
    refine ⟨hfirst, honAxis _ (List.getElem_mem _) hon, _, hbounds, fun t ht honT => ?_⟩
    obtain ⟨j, hj, rfl⟩ := List.getElem_of_mem ht
    have hjge : firstOnAxis f.axis (some (last - width, width)) ≤ j := by
      by_contra hjlt
      obtain ⟨b, hb, hbt, -⟩ := honT
      obtain rfl := Option.some.inj (hbounds.symm.trans hb)
      exact absurd hbt (not_le.mpr (hbefore j hj (not_le.mp hjlt)))
    have hq := hafter _ hfirst hlead
    have hj' := hmono _ j hfirst hj hjge
    simp only [Nat.dist]
    omega
  · simp only [nearestSample, ← hquery, max_eq_left hge]
    exact ⟨hnear, honAxis _ (List.getElem_mem _) (hon.trans (hmono _ _ hfirst hnear hge)), _,
      hbounds, fun t ht _ => hnearest t ht⟩

/-- **A locked timestamp** of the window that is not left of the axis is found again. -/
theorem locked_found (hsorted : f.stamps.Pairwise (· ≤ ·)) {atMs : ℕ} (hmem : atMs ∈ f.stamps)
    (ht0 : t0 ≤ atMs) (span : ℕ) :
    f.stamps[max (nearestAt f.stamps atMs) (firstOnAxis f.axis (some (t0, span)))]? =
      some atMs := by
  obtain ⟨hnear, hnearest, -⟩ := nearestAt_of_sorted hsorted f.stamps_ne atMs
  have hat : f.stamps[nearestAt f.stamps atMs] = atMs := by
    have hzero := hnearest atMs hmem
    rw [Nat.dist_self] at hzero
    exact Nat.eq_of_dist_eq_zero (Nat.le_zero.mp hzero)
  obtain ⟨hfirst, -, hbefore⟩ := firstOnAxis_spec f.axis span
    ⟨atMs, hmem, ht0⟩
  have hge : firstOnAxis f.axis (some (t0, span)) ≤ nearestAt f.stamps atMs := by
    by_contra hlt
    have hbelow : f.stamps[nearestAt f.stamps atMs] < t0 := hbefore _ hnear (not_le.mp hlt)
    omega
  rw [max_eq_left hge, List.getElem?_eq_getElem hnear, hat]

theorem holds_of_filter {pin : Option (Pin Pos)} {held : Pin Pos} {pointer : Pos}
    (h : (pin.filter fun pin => withinSlack pin.pointer pointer && decide (t0 ≤ pin.atMs)) =
      some held) : pin = some held ∧ withinSlack held.pointer pointer ∧ t0 ≤ held.atMs := by
  obtain ⟨hpin, hheld⟩ := Option.filter_eq_some_iff.mp h
  rw [Bool.and_eq_true, decide_eq_true_eq] at hheld
  exact ⟨hpin, hheld⟩

/-- A frame in which the lock is kept. -/
theorem readout_held {pin : Option (Pin Pos)} {held : Pin Pos} {pointer : Pos} {frac : ℚ}
    (hhover : f.hover = .over pointer frac) (hsorted : f.stamps.Pairwise (· ≤ ·))
    (hbounds : f.axis.bounds = some (t0, span))
    (hheld : (pin.filter fun pin => withinSlack pin.pointer pointer && decide (t0 ≤ pin.atMs)) =
      some held) (hmem : held.atMs ∈ f.stamps) :
    ∃ i, readout withinSlack pin f = (some held, some i) ∧ f.stamps[i]? = some held.atMs := by
  obtain ⟨hunder, -⟩ := arrival_nearest hsorted hbounds frac
  have hfound := locked_found hsorted hmem (holds_of_filter hheld).2.2 span
  have hlen := (List.getElem?_eq_some_iff.mp hfound).1
  refine ⟨_, ?_, hfound⟩
  simp only [readout, hhover, hbounds, pinnedSample, Frame.axis_stamps, if_pos hunder, hheld]
  rw [min_eq_left (Nat.le_sub_one_of_lt hlen)]

/-- A frame in which the pointer arrives. -/
theorem readout_arrival {pin : Option (Pin Pos)} {pointer : Pos} {frac : ℚ}
    (hhover : f.hover = .over pointer frac) (hsorted : f.stamps.Pairwise (· ≤ ·))
    (hbounds : f.axis.bounds = some (t0, span))
    (hfree : (pin.filter fun pin => withinSlack pin.pointer pointer && decide (t0 ≤ pin.atMs)) =
      none) :
    ∃ i t, readout withinSlack pin f = (some ⟨t, pointer⟩, some i) ∧ f.stamps[i]? = some t ∧
      f.Nearest frac t := by
  obtain ⟨hunder, hnearest⟩ := arrival_nearest hsorted hbounds frac
  refine ⟨_, _, ?_, List.getElem?_eq_getElem hunder, hnearest⟩
  simp only [readout, hhover, hbounds, pinnedSample, Frame.axis_stamps, if_pos hunder, hfree]
  rw [max_eq_left (le_max_right _ _), min_eq_left (Nat.le_sub_one_of_lt hunder),
    List.getD_eq_getElem _ _ hunder]

/-- **The readout names the samples it should**, along a run of frames in which the timestamps are
in order and the locked sample has not been evicted. -/
theorem readouts_name (withinSlack : Pos → Pos → Bool) (pin : Option (Pin Pos))
    (frames : List (Frame Pos))
    (hordered : Machine.Along (fun pin f => some (readout withinSlack pin f).1)
      (Ordered withinSlack) pin frames) :
    Names withinSlack pin frames (readouts withinSlack pin frames) := by
  induction frames generalizing pin with
  | nil => rfl
  | cons f frames ih =>
    obtain ⟨hf, hrest⟩ := hordered
    have hnext := ih _ (hrest _ rfl)
    rw [readouts, Names]
    cases hhover : f.hover with
    | away =>
      simp only [readout, hhover] at hnext ⊢
      exact hnext
    | keyboard =>
      simp only [readout, hhover] at hnext ⊢
      exact hnext
    | «over» pointer frac =>
      obtain ⟨last, span, -, hle, hbounds⟩ := f.bounds_eq
      rw [Ordered, hhover] at hf
      obtain ⟨hsorted, hkept⟩ := hf
      cases hheld : pin.filter fun pin =>
          withinSlack pin.pointer pointer && decide (last - span ≤ pin.atMs) with
      | some held =>
        obtain ⟨hpin, hslack, ht0⟩ := holds_of_filter hheld
        -- the instant that is held is still a sample, which is the condition of the step
        have hmem : held.atMs ∈ f.stamps := hkept held hpin hslack fun b hb => by
          obtain rfl := Option.some.inj (hbounds.symm.trans hb)
          exact ht0
        obtain ⟨i, hread, hi⟩ := readout_held hhover hsorted hbounds hheld hmem
        have honAxis : f.OnAxis held.atMs :=
          ⟨_, hbounds, ht0, by have := hle hsorted _ hmem; omega⟩
        rw [hread] at hnext ⊢
        exact ⟨i, rfl, held.atMs, hi, Or.inl ⟨held, hpin, ⟨hslack, honAxis⟩, rfl, hnext⟩⟩
      | none =>
        obtain ⟨i, t, hread, hi, hnearest⟩ := readout_arrival hhover hsorted hbounds hheld
        -- nothing is held for this pointer: the filter would have found it
        have hfree : ∀ held ∈ pin, ¬ held.Holds withinSlack f pointer := by
          rintro held hmem ⟨hslack, b, hb, ht0, -⟩
          obtain rfl := Option.some.inj (hbounds.symm.trans hb)
          have hnone := Option.filter_eq_none_iff.mp hheld held hmem
          rw [hslack, decide_eq_true ht0] at hnone
          exact hnone rfl
        rw [hread] at hnext ⊢
        exact ⟨i, rfl, t, hi, Or.inr ⟨hfree, hnearest, hnext⟩⟩

end Frames

/-! ### A motionless pointer, and a step of the clock -/

/-- Two positions are at most one point apart. -/
def pointApart (p q : ℚ × ℚ) : Bool := (p.1 - q.1) ^ 2 + (p.2 - q.2) ^ 2 ≤ 1

/-- A frame over ticks at these times, with a window of a minute and the pointer on the chart. -/
def minuteFrame (stamps : List ℕ) (h : stamps ≠ [] ∧ ∀ t ∈ stamps, t < 2 ^ 64)
    (pointer : ℚ × ℚ) (frac : ℚ) : Frame (ℚ × ℚ) where
  history := stamps.map emptyTick
  graphSeconds := 60
  hover := .over pointer frac
  history_ne := by simpa using h.1
  tMs_lt := by simpa [emptyTick] using h.2

instance {Pos : Type*} (withinSlack : Pos → Pos → Bool) (pin : Option (Pin Pos)) (f : Frame Pos) :
    Decidable (Ordered withinSlack pin f) :=
  match h : f.hover with
  | .over pointer _ =>
    decidable_of_iff (f.stamps.Pairwise (· ≤ ·) ∧ ∀ held ∈ pin, withinSlack held.pointer pointer →
      (∀ b ∈ f.axis.bounds, b.1 ≤ held.atMs) → held.atMs ∈ f.stamps) (by rw [Ordered, h])
  | .away => isTrue (by rw [Ordered, h]; trivial)
  | .keyboard => isTrue (by rw [Ordered, h]; trivial)

/-- A pointer rests on the sample at 80 s while one at 100 s arrives. -/
def restingPointer : List (Frame (ℚ × ℚ)) :=
  [minuteFrame [10000, 50000, 80000] (by decide) (0, 0) (59 / 60),
   minuteFrame [10000, 50000, 80000, 100000] (by decide) (1 / 2, 0) (59 / 60)]

theorem readouts_name_restingPointer :
    Machine.Along (fun pin f => some (readout pointApart pin f).1) (Ordered pointApart) none
        restingPointer ∧
      Names pointApart none restingPointer (readouts pointApart none restingPointer) := by
  have hordered : Machine.Along (fun pin f => some (readout pointApart pin f).1)
      (Ordered pointApart) none restingPointer := by decide +kernel
  exact ⟨hordered, readouts_name pointApart none restingPointer hordered⟩

/-- The clock has stepped back from 50 s to 20 s, and the pointer is at 19 s. -/
def steppedBack : List (Frame (ℚ × ℚ)) :=
  [minuteFrame [100010000, 100050000, 100020000] (by decide) (0, 0) (59 / 60)]

/-- **After a step of the clock a sample nine seconds away is named**, and not the one a second
away. -/
theorem steppedBack_misnamed :
    ¬ Names pointApart none steppedBack (readouts pointApart none steppedBack) := by
  have hnamed : readouts pointApart none steppedBack = [some 0] := by decide +kernel
  rw [hnamed]
  rintro ⟨i, hi, t, ht, ⟨held, hheld, -⟩ | ⟨-, ⟨-, b, hb, hnearest⟩, -⟩⟩
  · cases hheld
  · obtain rfl : 0 = i := Option.some.inj hi
    obtain rfl : 100010000 = t := Option.some.inj (Eq.trans (by decide +kernel) ht)
    obtain rfl : (99960000, 60000) = b := Option.some.inj (Eq.trans (by decide +kernel) hb)
    have hcloser := hnearest 100020000 (by decide +kernel) ⟨_, hb, by decide, by decide⟩
    exact absurd hcloser (by decide +kernel)

end Performance

end Taskman
