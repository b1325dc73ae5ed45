import Taskman.Collections.Majority
import Taskman.Text.Basic
import Mathlib.Algebra.Order.Floor.Ring
import Mathlib.Data.Rat.Floor
import Mathlib.Tactic.Linarith
import Mathlib.Tactic.Ring

/-!
# Scroll anchoring

A table remembers the identities of the rows on the screen.  When its model was rebuilt, the rows
that are still there say how far the content moved: if more than half of them moved by the same
number of rows the viewport follows, unless the selected row would be lost, and never by more than a
screenful.  Offsets and heights are exact here.

* `Frame.restoredOffset` : the offset at which the rows are where they were;
* `Frame.resolve_eq` : the pass over the new model finds the remembered rows;
* `Frame.Scrolled.follows` : **a shift of all rows is followed**;
* `Frame.Scrolled.inView_offset_iff`, `Frame.anchors_iff` : **the selected row stays in view unless
  a shift that is too large to be followed was the only one with which it is**;
* `Frame.selection_lost` : such a shift.
-/

namespace Taskman.ScrollAnchor

open Majority (commonEntry IsMajority)

/-- The identities of the rows that were rendered last, top to bottom, and where the first one
was. -/
structure AnchorState where
  /-- Model index of the first key. -/
  baseIndex : ℕ
  /-- The top of that row, relative to the viewport. -/
  baseRel : ℚ
  keys : List ℕ

/-- What the table is drawn from: the remembered rows, the new model and the sizes. -/
structure Frame where
  state : AnchorState
  /-- Identity of a row of the new model. -/
  keyOf : ℕ → ℕ
  rowCount : ℕ
  rowH : ℚ
  viewportH : ℚ
  /-- Identity of the selected row. -/
  prefer : Option ℕ

namespace Frame

variable (f : Frame)

/-- The previous offset. -/
def prev : ℚ := f.state.baseIndex * f.rowH - f.state.baseRel

/-- Where each remembered identity stands among the remembered rows. -/
def slots : OrdMap ℕ ℕ := f.state.keys.zipIdx.foldl (fun m p => m.insert p.1 p.2) ∅

/-- One row of the new model. -/
def resolveRow (now : List (Option ℕ)) (i : ℕ) : List (Option ℕ) :=
  match f.slots[f.keyOf i]? with
  | some k => if now[k]? = some none then now.set k (some i) else now
  | none => now

/-- The new index of each remembered row that is still there, in one pass over the model. -/
def resolve : List (Option ℕ) :=
  (List.range f.rowCount).foldl f.resolveRow (List.replicate f.state.keys.length none)

/-- `shift_of` -/
def shiftOf (k index : ℕ) : ℤ := index - (f.state.baseIndex + k)

/-- The displacements of the rows that are still there. -/
def shifts : List ℤ := f.resolve.zipIdx.filterMap fun p => p.1.map (f.shiftOf p.2)

/-- A row is in view, whole, at an offset. -/
def InView (offset top : ℚ) : Prop := offset ≤ top ∧ top + f.rowH ≤ offset + f.viewportH

instance (offset top : ℚ) : Decidable (f.InView offset top) := inferInstanceAs (Decidable (_ ∧ _))

/-- The shift, unless it pushes the selected row out of view: then its own displacement. -/
def keepSelected (shift : ℤ) : ℤ :=
  match f.prefer with
  | none => shift
  | some key =>
    match f.slots[key]? with
    | none => shift
    | some k =>
      match f.resolve[k]? with
      | some (some index) =>
        if f.InView (f.prev + shift * f.rowH) (index * f.rowH) then shift else f.shiftOf k index
      | _ => shift

/-- How many rows the viewport may move. -/
def screenful : ℕ := ⌈f.viewportH / f.rowH⌉.toNat

/-- `restored_offset` -/
def restoredOffset : Option ℚ :=
  if f.state.keys = [] then none
  else if f.prev ≤ 1 / 2 then some 0
  else if f.shifts = [] then none
  else
    let shift := f.keepSelected (commonEntry 0 f.shifts)
    if shift = 0 then none
    else if f.screenful < shift.natAbs then none
    else some (f.prev + shift * f.rowH)

/-! ### What moved -/

/-- The row of the new model with an identity, the first one if there were several. -/
def position (key : ℕ) : Option ℕ := (List.range f.rowCount).find? (f.keyOf · = key)

/-- By how many rows each remembered row moved that is still there, top to bottom. -/
def displacements : List ℤ :=
  f.state.keys.zipIdx.filterMap fun p => (f.position p.1).map (f.shiftOf p.2)

/-- The `k`-th remembered row is still there, at index `i`. -/
def Survives (k i : ℕ) : Prop := i < f.rowCount ∧ f.state.keys[k]? = some (f.keyOf i)

/-- The offset that the table is shown at. -/
def offset : ℚ := f.restoredOffset.getD f.prev

/-- The remembered rows and those of the new model have identities of their own, and the table is
not at its top. -/
structure Scrolled (f : Frame) : Prop where
  nodup : f.state.keys.Nodup
  unique : ∀ i < f.rowCount, ∀ j < f.rowCount, f.keyOf i = f.keyOf j → i = j
  rowH_pos : 0 < f.rowH
  prev_gt : 1 / 2 < f.prev

/-- If all rows that are still there moved by the same number of rows, and no more than a screenful,
the offset moves by it. -/
def Follows : Prop :=
  ∀ d : ℤ, (∃ k i, f.Survives k i) → (∀ k i, f.Survives k i → f.shiftOf k i = d) →
    d.natAbs ≤ f.screenful → f.restoredOffset = if d = 0 then none else some (f.prev + d * f.rowH)

/-- The selected row was in view, and did not move by more than a screenful. -/
structure Tracked (f : Frame) (k i : ℕ) : Prop where
  survives : f.Survives k i
  selected : f.prefer = some (f.keyOf i)
  inView : f.InView f.prev ((f.state.baseIndex + k : ℕ) * f.rowH)
  near : (f.shiftOf k i).natAbs ≤ f.screenful

/-- The selected row stays in view. -/
def Keeps : Prop := ∀ k i, f.Tracked k i → f.InView f.offset (i * f.rowH)

/-- Most rows moved by more than a screenful, and only with their shift the selected row would be in
view. -/
def Loses : Prop :=
  ∃ (shift : ℤ) (k i : ℕ), IsMajority f.displacements shift ∧ f.screenful < shift.natAbs ∧
    f.Tracked k i ∧ f.InView (f.prev + shift * f.rowH) (i * f.rowH) ∧
    ¬ f.InView f.prev (i * f.rowH)

variable {f}

theorem getElem?_slots (h : f.state.keys.Nodup) {key k : ℕ} :
    f.slots[key]? = some k ↔ f.state.keys[k]? = some key := by
  rw [slots, OrdMap.getElem?_foldl_insert_empty_iff, List.mem_zipIdx_iff_getElem?]
  rintro ⟨key, k⟩ hp ⟨key', k'⟩ hq hkeys
  obtain rfl : key = key' := hkeys
  rw [List.mem_zipIdx_iff_getElem?] at hp hq
  dsimp only at hp hq ⊢
  exact (List.getElem?_inj (List.getElem?_eq_some_iff.mp hp).1 h).mp (hp.trans hq.symm)

theorem set_map_of_nodup {α β : Type} [DecidableEq α] {l : List α} (h : l.Nodup) {k : ℕ} {a : α}
    (hk : l[k]? = some a) (g : α → β) (b : β) :
    (l.map g).set k b = l.map (Function.update g a b) := by
  obtain ⟨hlt, rfl⟩ := List.getElem?_eq_some_iff.mp hk
  rw [h.map_update, if_pos (List.getElem_mem hlt), h.idxOf_getElem]

/-- The first row with an identity among the first `n` rows of the new model. -/
def positionBelow (f : Frame) (n key : ℕ) : Option ℕ := (List.range n).find? (f.keyOf · = key)

theorem positionBelow_succ (n key : ℕ) :
    f.positionBelow (n + 1) key =
      (f.positionBelow n key).or (if f.keyOf n = key then some n else none) := by
  rw [positionBelow, List.range_succ, List.find?_append, ← positionBelow, List.find?_singleton]
  simp

/-- A new row is the place of its identity unless an earlier one is. -/
theorem positionBelow_succ_of_eq_none {n : ℕ} (h : f.positionBelow n (f.keyOf n) = none) :
    f.positionBelow (n + 1) = Function.update (f.positionBelow n) (f.keyOf n) (some n) := by
  funext key
  rw [positionBelow_succ]
  by_cases hkey : key = f.keyOf n
  · rw [hkey, Function.update_self, h, if_pos rfl, Option.none_or]
  · rw [Function.update_of_ne hkey, if_neg (Ne.symm hkey), Option.or_none]

theorem positionBelow_succ_of_isSome {n i : ℕ} (h : f.positionBelow n (f.keyOf n) = some i) :
    f.positionBelow (n + 1) = f.positionBelow n := by
  funext key
  rw [positionBelow_succ]
  by_cases hkey : key = f.keyOf n
  · rw [hkey, h, Option.some_or]
  · rw [if_neg (Ne.symm hkey), Option.or_none]

/-- One row of the new model is the new place of the remembered row with its identity. -/
theorem resolveRow_map (h : f.state.keys.Nodup) (n : ℕ) :
    f.resolveRow (f.state.keys.map (f.positionBelow n)) n =
      f.state.keys.map (f.positionBelow (n + 1)) := by
  unfold resolveRow
  cases hslot : f.slots[f.keyOf n]? with
  | none =>
    refine List.map_congr_left fun key hkey => ?_
    have hne : f.keyOf n ≠ key := by
      rintro rfl
      obtain ⟨k, hk⟩ := List.mem_iff_getElem?.mp hkey
      rw [(getElem?_slots h).mpr hk] at hslot
      cases hslot
    rw [positionBelow_succ, if_neg hne, Option.or_none]
  | some k =>
    have hk := (getElem?_slots h).mp hslot
    dsimp only
    rw [List.getElem?_map, hk, Option.map_some]
    cases hbelow : f.positionBelow n (f.keyOf n) with
    | none =>
      rw [if_pos (by rfl), set_map_of_nodup h hk, positionBelow_succ_of_eq_none hbelow]
    | some i => rw [if_neg (by simp), positionBelow_succ_of_isSome hbelow]

/-- **The pass over the model** finds the first row with each remembered identity. -/
theorem resolve_eq (h : f.state.keys.Nodup) : f.resolve = f.state.keys.map f.position := by
  have hfold (n : ℕ) :
      (List.range n).foldl f.resolveRow (List.replicate f.state.keys.length none) =
        f.state.keys.map (f.positionBelow n) := by
    induction n with
    | zero => exact List.map_const'.symm
    | succ n ih => rw [List.range_succ, List.foldl_append, ih, ← resolveRow_map h]; rfl
  exact hfold f.rowCount

theorem shifts_eq (h : f.state.keys.Nodup) : f.shifts = f.displacements := by
  rw [shifts, resolve_eq h, List.zipIdx_map, List.filterMap_map]
  rfl

namespace Scrolled

variable (h : f.Scrolled)

include h

theorem position_eq_some_iff {key i : ℕ} :
    f.position key = some i ↔ i < f.rowCount ∧ f.keyOf i = key := by
  constructor
  · intro hpos
    exact ⟨List.mem_range.mp (List.mem_of_find?_eq_some hpos), by
      simpa using List.find?_some hpos⟩
  · rintro ⟨hi, hkey⟩
    cases hpos : f.position key with
    | none =>
      exact absurd hkey (by simpa using List.find?_eq_none.mp hpos i (List.mem_range.mpr hi))
    | some j =>
      have hj : f.keyOf j = key := by simpa using List.find?_some hpos
      have hlt := List.mem_range.mp (List.mem_of_find?_eq_some hpos)
      rw [h.unique j hlt i hi (hj.trans hkey.symm)]

theorem mem_displacements_iff {s : ℤ} :
    s ∈ f.displacements ↔ ∃ k i, f.Survives k i ∧ f.shiftOf k i = s := by
  rw [displacements, List.mem_filterMap]
  constructor
  · rintro ⟨⟨key, k⟩, hmem, hs⟩
    obtain ⟨i, hpos, rfl⟩ := Option.map_eq_some_iff.mp hs
    obtain ⟨hi, rfl⟩ := h.position_eq_some_iff.mp hpos
    exact ⟨k, i, ⟨hi, List.mem_zipIdx_iff_getElem?.mp hmem⟩, rfl⟩
  · rintro ⟨k, i, ⟨hi, hk⟩, rfl⟩
    refine ⟨(f.keyOf i, k), List.mem_zipIdx_iff_getElem?.mpr hk, ?_⟩
    rw [h.position_eq_some_iff.mpr ⟨hi, rfl⟩]
    rfl

/-- The rule for the selected row. -/
theorem keepSelected_of_survives {shift : ℤ} {k i : ℕ} (hsurvives : f.Survives k i)
    (hselected : f.prefer = some (f.keyOf i)) :
    f.keepSelected shift =
      if f.InView (f.prev + shift * f.rowH) (i * f.rowH) then shift else f.shiftOf k i := by
  have hresolve : f.resolve[k]? = some (some i) := by
    rw [resolve_eq h.nodup, List.getElem?_map, hsurvives.2, Option.map_some,
      h.position_eq_some_iff.mpr ⟨hsurvives.1, rfl⟩]
  unfold keepSelected
  rw [hselected]
  dsimp only
  rw [(getElem?_slots h.nodup).mpr hsurvives.2]
  dsimp only
  rw [hresolve]

/-- The selected row decides at most that its own displacement counts. -/
theorem keepSelected_cases (shift : ℤ) :
    f.keepSelected shift = shift ∨
      ∃ k i, f.Survives k i ∧ f.keepSelected shift = f.shiftOf k i := by
  by_cases hselected : ∃ k i, f.Survives k i ∧ f.prefer = some (f.keyOf i)
  · obtain ⟨k, i, hsurvives, hprefer⟩ := hselected
    rw [h.keepSelected_of_survives hsurvives hprefer]
    split_ifs
    · exact Or.inl rfl
    · exact Or.inr ⟨k, i, hsurvives, rfl⟩
  · refine Or.inl ?_
    unfold keepSelected
    cases hprefer : f.prefer with
    | none => rfl
    | some key =>
      dsimp only
      cases hslot : f.slots[key]? with
      | none => rfl
      | some k =>
        have hk := (getElem?_slots h.nodup).mp hslot
        dsimp only
        rw [resolve_eq h.nodup, List.getElem?_map, hk, Option.map_some]
        cases hpos : f.position key with
        | none => rfl
        | some i =>
          obtain ⟨hi, rfl⟩ := h.position_eq_some_iff.mp hpos
          exact absurd ⟨k, i, ⟨hi, hk⟩, hprefer⟩ hselected

/-- The shift that the code ends with decides the offset. -/
theorem restoredOffset_eq (hsurvive : f.displacements ≠ []) :
    f.restoredOffset =
      if f.keepSelected (commonEntry 0 f.displacements) = 0 then none
      else if f.screenful < (f.keepSelected (commonEntry 0 f.displacements)).natAbs then none
      else some (f.prev + f.keepSelected (commonEntry 0 f.displacements) * f.rowH) := by
  have hkeys : f.state.keys ≠ [] := by
    intro hnil
    apply hsurvive
    rw [displacements, hnil]
    rfl
  rw [restoredOffset, if_neg hkeys, if_neg (not_le.mpr h.prev_gt), shifts_eq h.nodup,
    if_neg hsurvive]

theorem displacements_ne_nil {k i : ℕ} (hsurvives : f.Survives k i) : f.displacements ≠ [] :=
  List.ne_nil_of_mem (h.mem_displacements_iff.mpr ⟨k, i, hsurvives, rfl⟩)

/-- **Edits are followed.** -/
theorem follows : f.Follows := by
  rintro d ⟨k, i, hsurvives⟩ hall hnear
  have hne := h.displacements_ne_nil hsurvives
  have hsame : ∀ s ∈ f.displacements, s = d := by
    intro s hs
    obtain ⟨k, i, hki, rfl⟩ := h.mem_displacements_iff.mp hs
    exact hall k i hki
  have hmajority : IsMajority f.displacements d := by
    have hcount : f.displacements.count d = f.displacements.length :=
      List.count_eq_length.mpr fun s hs => (hsame s hs).symm
    have hpos := List.length_pos_iff.mpr hne
    unfold IsMajority
    omega
  have hkeep : f.keepSelected d = d := by
    obtain hself | ⟨k, i, hki, hshift⟩ := h.keepSelected_cases d
    · exact hself
    · rw [hshift, hall k i hki]
  rw [h.restoredOffset_eq hne, Majority.commonEntry_of_isMajority hmajority, hkeep,
    if_neg (not_lt.mpr hnear)]

end Scrolled

/-! ### The selected row -/

theorem top_eq (k i : ℕ) :
    (i : ℚ) * f.rowH = (f.state.baseIndex + k : ℕ) * f.rowH + f.shiftOf k i * f.rowH := by
  unfold shiftOf
  push_cast
  ring

theorem inView_shiftOf {k i : ℕ}
    (hview : f.InView f.prev ((f.state.baseIndex + k : ℕ) * f.rowH)) :
    f.InView (f.prev + f.shiftOf k i * f.rowH) (i * f.rowH) := by
  obtain ⟨htop, hbottom⟩ := hview
  rw [top_eq k i]
  constructor <;> linarith

/-- **The selected row** is in view again unless the shift of the others was too large to be
followed and was the only one with which it is. -/
theorem Scrolled.inView_offset_iff (h : f.Scrolled) {k i : ℕ} (htracked : f.Tracked k i) :
    f.InView f.offset (i * f.rowH) ↔
      ¬ (f.screenful < (commonEntry 0 f.displacements).natAbs ∧
        f.InView (f.prev + commonEntry 0 f.displacements * f.rowH) (i * f.rowH) ∧
        ¬ f.InView f.prev (i * f.rowH)) := by
  have hshift := inView_shiftOf (i := i) htracked.inView
  rw [offset, h.restoredOffset_eq (h.displacements_ne_nil htracked.survives),
    h.keepSelected_of_survives htracked.survives htracked.selected]
  generalize commonEntry 0 f.displacements = shift
  by_cases hview : f.InView (f.prev + shift * f.rowH) (i * f.rowH)
  · rw [if_pos hview]
    split_ifs with hzero hfar
    · -- nothing moved
      rw [hzero, Int.cast_zero, zero_mul, add_zero] at hview
      exact iff_of_true hview fun hlost => hlost.2.2 hview
    · -- the shift is too large to be followed
      rw [Option.getD_none, and_iff_right hfar, and_iff_right hview, not_not]
    · exact iff_of_true hview fun hlost => hfar hlost.1
  · -- the displacement of the selected row counts
    rw [if_neg hview]
    refine iff_of_true ?_ fun hlost => hview hlost.2.1
    split_ifs with hzero hfar
    · rw [hzero, Int.cast_zero, zero_mul, add_zero] at hshift
      exact hshift
    · exact absurd htracked.near (not_le.mpr hfar)
    · exact hshift

/-- **The anchor** does both exactly if it does not lose the selected row. -/
theorem anchors_iff (h : f.Scrolled) : (f.Follows ∧ f.Keeps) ↔ ¬ f.Loses := by
  rw [and_iff_right h.follows]
  constructor
  · rintro hkeeps ⟨shift, k, i, hmajority, hfar, htracked, hview, hlost⟩
    refine (h.inView_offset_iff htracked).mp (hkeeps k i htracked) ?_
    rw [Majority.commonEntry_of_isMajority hmajority]
    exact ⟨hfar, hview, hlost⟩
  · intro hloses k i htracked
    refine (h.inView_offset_iff htracked).mpr ?_
    rintro ⟨hfar, hview, hlost⟩
    by_cases hmajority : ∃ shift, IsMajority f.displacements shift
    · obtain ⟨shift, hmajority⟩ := hmajority
      rw [Majority.commonEntry_of_isMajority hmajority] at hfar hview
      exact hloses ⟨shift, k, i, hmajority, hfar, htracked, hview, hlost⟩
    · rw [Majority.commonEntry_of_not_isMajority (not_exists.mp hmajority)] at hfar
      exact absurd hfar (Nat.not_lt_zero _)

/-- Four rows on the screen, the last one selected, and a new model. -/
def sample (keyOf : ℕ → ℕ) : Frame where
  state := { baseIndex := 5, baseRel := 0, keys := [10, 11, 12, 13] }
  keyOf
  rowCount := 20
  rowH := 20
  viewportH := 80
  prefer := some 13

theorem scrolled_sample {keyOf : ℕ → ℕ} (hunique : ∀ i < 20, ∀ j < 20, keyOf i = keyOf j → i = j) :
    (sample keyOf).Scrolled where
  nodup := (by decide : [10, 11, 12, 13].Nodup)
  unique := hunique
  rowH_pos := (by decide +kernel : (0 : ℚ) < 20)
  prev_gt := (by decide +kernel : (1 / 2 : ℚ) < (5 : ℕ) * 20 - 0)

/-- One row more above the screen. -/
def oneAbove (i : ℕ) : ℕ := if i = 0 then 100 else i + 4

theorem anchors_oneAbove : (sample oneAbove).Follows ∧ (sample oneAbove).Keeps := by
  refine (anchors_iff (scrolled_sample (by decide +kernel))).mpr ?_
  rintro ⟨shift, k, i, hmajority, hfar, -⟩
  have hdisplacements : (sample oneAbove).displacements = [1, 1, 1, 1] := by decide +kernel
  rw [hdisplacements] at hmajority
  have hmem : shift ∈ [1, 1, 1, 1] := by
    refine List.count_pos_iff.mp ?_
    unfold IsMajority at hmajority
    omega
  obtain rfl : shift = 1 := by simpa using hmem
  exact absurd hfar (by decide +kernel)

/-- Five rows more above the screen, and one of the four is gone. -/
def fiveAbove (i : ℕ) : ℕ := if i < 5 then 100 + i else if i < 12 then i else i + 1

/-- The selected row is lost. -/
theorem selection_lost : ¬ ∀ f : Frame, f.Scrolled → f.Follows ∧ f.Keeps := by
  intro hall
  have h : (sample fiveAbove).Scrolled := scrolled_sample (by decide +kernel)
  have htracked : (sample fiveAbove).Tracked 3 12 := by
    refine ⟨⟨?_, ?_⟩, ?_, ?_, ?_⟩ <;> decide +kernel
  have hmajority : IsMajority (sample fiveAbove).displacements 5 := by decide +kernel
  refine (h.inView_offset_iff htracked).mp ((hall _ h).2 3 12 htracked) ?_
  rw [Majority.commonEntry_of_isMajority hmajority]
  decide +kernel

end Frame

end Taskman.ScrollAnchor
