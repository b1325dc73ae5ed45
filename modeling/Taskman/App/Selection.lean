import Taskman.App.Processes.Rows
import Taskman.Collections.SortBy

/-!
# The multi-row selection

A plain click replaces the selection, `Ctrl` toggles one row, `Shift` selects the inclusive range
from the anchor, and `Ctrl+A` takes everything.  Three fields are kept: the selected items, the
primary row every single-target command acts on, and the anchor of the next range.  The display
order is given anew with every gesture, since the list re-sorts under the selection.

* `Selection` : the fields, and the operations under the source's names;
* `SelectionOp`, `SelectionOp.Given` : one call, given a duplicate-free order and a row of it;
* `Selection.Consistent` : no item twice, and a primary, one of the items, unless nothing is
  selected;
* `spanOf` : the rows of an order between two of them;
* `selection_consistent` : **after any calls the selection is consistent, what is retained lives,
  and a range click selects the span between the anchor and the clicked row**.
-/

namespace Taskman

open Processes (ProcessIdentity)

/-- What a click does, decided by the modifier keys. -/
inductive ClickKind where
  | replace | toggle | range
  deriving DecidableEq, Repr

/-- Multi-row selection of the two process tables. -/
structure Selection where
  /-- Selected rows, in the display order they were taken in. -/
  items : List ProcessIdentity := []
  /-- The row single-target commands act on. -/
  primary : Option ProcessIdentity := none
  /-- Range anchor; survives `Shift` clicks. -/
  anchor : Option ProcessIdentity := none
  deriving DecidableEq, Repr

namespace Selection

/-- `usize::MAX`. -/
def usizeMax : ℕ := 2 ^ 64 - 1

/-- Where a row stands in the display order; a row the view does not contain goes last. -/
def rank (order : List ProcessIdentity) (item : ProcessIdentity) : ℕ :=
  (order.idxOf? item).getD usizeMax

/-- Restores the display order after an insertion. -/
def sortTo (s : Selection) (order : List ProcessIdentity) : Selection :=
  { s with items := sortBy (fun a b => compare (rank order a) (rank order b)) s.items }

/-- Select nothing. -/
def clear (_ : Selection) : Selection :=
  { items := [], primary := none, anchor := none }

/-- Select one item. -/
def selectSingle (_ : Selection) (identity : ProcessIdentity) : Selection :=
  { items := [identity], primary := some identity, anchor := some identity }

/-- Select some items; the first one is the primary. -/
def selectExact (_ : Selection) (identities : List ProcessIdentity) : Selection :=
  { items := identities, primary := identities.head?, anchor := identities.head? }

/-- Ctrl+click: adds or removes one row. -/
def toggle (s : Selection) (identity : ProcessIdentity) (order : List ProcessIdentity) :
    Selection :=
  let toggled :=
    match s.items.idxOf? identity with
    | some i =>
      let items := s.items.eraseIdx i
      { s with
        items := items
        primary := if s.primary = some identity then items.getLast? else s.primary }
    | none =>
      { ({ s with items := s.items ++ [identity] } : Selection).sortTo order with
        primary := some identity }
  { toggled with anchor := some identity }

/-- Shift+click: the inclusive range between the anchor and `identity` in the current order. -/
def selectRange (s : Selection) (identity : ProcessIdentity) (order : List ProcessIdentity) :
    Selection :=
  match s.anchor with
  | none => s.selectSingle identity
  | some anchor =>
    match order.idxOf? anchor, order.idxOf? identity with
    | some i, some j =>
      let low := if i ≤ j then i else j
      let high := if i ≤ j then j else i
      -- the anchor stays put, so that the range can be resized
      { s with items := (order.drop low).take (high + 1 - low), primary := some identity }
    | _, _ => s.selectSingle identity

/-- Select all items. -/
def selectAll (_ : Selection) (order : List ProcessIdentity) : Selection :=
  { items := order, primary := order.getLast?, anchor := order.head? }

/-- A click on an item. -/
def click (s : Selection) (kind : ClickKind) (identity : ProcessIdentity)
    (order : List ProcessIdentity) : Selection :=
  match kind with
  | .replace => s.selectSingle identity
  | .toggle => s.toggle identity order
  | .range => s.selectRange identity order

/-- Drops the selected rows that no longer exist. -/
def retainLive (s : Selection) (live : ProcessIdentity → Bool) : Selection :=
  let items := s.items.filter live
  let primary := if s.primary.any fun item => !live item then items.getLast? else s.primary
  let anchor := if s.anchor.any fun item => !live item then primary else s.anchor
  { items, primary, anchor }

end Selection

/-- One call, with the display order it is given. -/
inductive SelectionOp where
  | click (kind : ClickKind) (identity : ProcessIdentity) (order : List ProcessIdentity)
  | selectSingle (identity : ProcessIdentity)
  | selectExact (identities : List ProcessIdentity)
  | selectAll (order : List ProcessIdentity)
  | clear
  | retainLive (live : ProcessIdentity → Bool)

/-- The order a call is given lists no row twice, and the clicked row is one of it. -/
def SelectionOp.Given : SelectionOp → Prop
  | click _ identity order => order.Nodup ∧ identity ∈ order
  | selectExact identities => identities.Nodup
  | selectAll order => order.Nodup
  | selectSingle _ | clear | retainLive _ => True

namespace Selection

/-- What a call does. -/
def apply (s : Selection) : SelectionOp → Selection
  | .click kind identity order => s.click kind identity order
  | .selectSingle identity => s.selectSingle identity
  | .selectExact identities => s.selectExact identities
  | .selectAll order => s.selectAll order
  | .clear => s.clear
  | .retainLive live => s.retainLive live

/-! ### Spans of an order -/

/-- The rows of an order from one of two rows to the other, both included. -/
def spanOf (order : List ProcessIdentity) (a b : ProcessIdentity) : List ProcessIdentity :=
  order.filter fun x =>
    decide (min (order.idxOf a) (order.idxOf b) ≤ order.idxOf x ∧
      order.idxOf x ≤ max (order.idxOf a) (order.idxOf b))

/-- Positions `low..=high` of a duplicate-free list are the elements found at these positions. -/
theorem take_drop_eq_filter {order : List ProcessIdentity} (h : order.Nodup) {low high : ℕ}
    (hle : low ≤ high) :
    (order.drop low).take (high + 1 - low) =
      order.filter fun x => decide (low ≤ order.idxOf x ∧ order.idxOf x ≤ high) := by
  have hsplit : order =
      order.take low ++ ((order.drop low).take (high + 1 - low) ++ order.drop (high + 1)) := by
    have hrest : order.drop (high + 1) = (order.drop low).drop (high + 1 - low) := by
      rw [List.drop_drop]
      congr 1
      omega
    rw [hrest, List.take_append_drop, List.take_append_drop]
  have hbefore : (order.take low).filter
      (fun x => decide (low ≤ order.idxOf x ∧ order.idxOf x ≤ high)) = [] := by
    refine List.filter_eq_nil_iff.mpr fun x hx => ?_
    obtain ⟨i, hi, rfl⟩ := List.mem_take_iff_getElem.mp hx
    rw [h.idxOf_getElem i (by omega), decide_eq_true_iff]
    omega
  have hafter : (order.drop (high + 1)).filter
      (fun x => decide (low ≤ order.idxOf x ∧ order.idxOf x ≤ high)) = [] := by
    refine List.filter_eq_nil_iff.mpr fun x hx => ?_
    obtain ⟨i, hi, rfl⟩ := List.mem_drop_iff_getElem.mp hx
    rw [h.idxOf_getElem, decide_eq_true_iff]
    omega
  have hspan : ((order.drop low).take (high + 1 - low)).filter
      (fun x => decide (low ≤ order.idxOf x ∧ order.idxOf x ≤ high)) =
        (order.drop low).take (high + 1 - low) := by
    refine List.filter_eq_self.mpr fun x hx => ?_
    obtain ⟨i, hi, rfl⟩ := List.mem_take_iff_getElem.mp hx
    rw [List.getElem_drop, h.idxOf_getElem, decide_eq_true_iff]
    omega
  have hfilter := congrArg
    (List.filter fun x => decide (low ≤ order.idxOf x ∧ order.idxOf x ≤ high)) hsplit
  rw [List.filter_append, List.filter_append, hbefore, hspan, hafter, List.nil_append,
    List.append_nil] at hfilter
  exact hfilter.symm

/-! ### What each call keeps -/

/-- No item is selected twice, and the primary is one of the items, unless nothing is selected. -/
structure Consistent (s : Selection) : Prop where
  nodup : s.items.Nodup
  isSome_iff : s.primary.isSome = true ↔ s.items ≠ []
  mem : ∀ x, s.primary = some x → x ∈ s.items

variable {s : Selection} {identity : ProcessIdentity} {order : List ProcessIdentity}
  {live : ProcessIdentity → Bool}

/-- A primary among the items makes the selection non-empty; the converse is left to show. -/
theorem Consistent.of (hnodup : s.items.Nodup) (hmem : ∀ x, s.primary = some x → x ∈ s.items)
    (hsome : s.primary = none → s.items = []) : s.Consistent := by
  refine ⟨hnodup, ⟨fun h => ?_, fun h => ?_⟩, hmem⟩
  · obtain ⟨x, hx⟩ := Option.isSome_iff_exists.mp h
    exact List.ne_nil_of_mem (hmem x hx)
  · refine Option.isSome_iff_ne_none.mpr fun hnone => ?_
    exact h (hsome hnone)

theorem Consistent.items_eq_nil (h : s.Consistent) (hnone : s.primary = none) : s.items = [] := by
  by_contra hne
  have hsome : s.primary.isSome = true := h.isSome_iff.mpr hne
  rw [hnone] at hsome
  cases hsome

theorem consistent_empty : ({} : Selection).Consistent :=
  .of List.nodup_nil (fun x hx => by cases hx) fun _ => rfl

theorem consistent_selectSingle (s : Selection) (identity : ProcessIdentity) :
    (s.selectSingle identity).Consistent := by
  refine .of (List.nodup_singleton identity) (fun x hx => ?_) fun hnone => ?_
  · obtain rfl := Option.some.inj hx
    exact List.mem_singleton_self _
  · cases hnone

theorem consistent_selectExact (s : Selection) (h : order.Nodup) :
    (s.selectExact order).Consistent :=
  .of h (fun _ hx => List.mem_of_head? hx) fun hnone => List.head?_eq_none_iff.mp hnone

theorem consistent_selectAll (s : Selection) (h : order.Nodup) : (s.selectAll order).Consistent :=
  .of h (fun _ hx => List.mem_of_getLast? hx) fun hnone => List.getLast?_eq_none_iff.mp hnone

theorem Consistent.toggle (h : s.Consistent) (identity : ProcessIdentity)
    (order : List ProcessIdentity) : (s.toggle identity order).Consistent := by
  unfold Selection.toggle
  cases hat : s.items.idxOf? identity with
  | some i =>
    have hitems : s.items.eraseIdx i = s.items.erase identity := by
      rw [List.erase_eq_eraseIdx, hat]
    have hnodup : (s.items.erase identity).Nodup := h.nodup.erase identity
    rw [← hitems] at hnodup
    by_cases hprimary : s.primary = some identity
    · refine .of hnodup (fun x hx => ?_) fun hnone => ?_
      · exact List.mem_of_getLast? ((if_pos hprimary).symm.trans hx)
      · exact List.getLast?_eq_none_iff.mp ((if_pos hprimary).symm.trans hnone)
    · refine .of hnodup (fun x hx => ?_) fun hnone => ?_
      · have hx : s.primary = some x := (if_neg hprimary).symm.trans hx
        have hne : x ≠ identity := fun heq => hprimary (heq ▸ hx)
        change x ∈ s.items.eraseIdx i
        rw [hitems]
        exact (List.mem_erase_of_ne hne).mpr (h.mem x hx)
      · have hnil : s.items = [] := h.items_eq_nil ((if_neg hprimary).symm.trans hnone)
        change s.items.eraseIdx i = []
        rw [hnil, List.eraseIdx_nil]
  | none =>
    have hnew : identity ∉ s.items := by
      rw [← List.idxOf?_eq_none_iff]
      exact hat
    have hperm : (sortBy (fun a b => compare (rank order a) (rank order b))
        (s.items ++ [identity])).Perm (s.items ++ [identity]) := sortBy_perm _ _
    refine .of ?_ (fun x hx => ?_) fun hnone => ?_
    · refine hperm.nodup_iff.mpr (h.nodup.append (List.nodup_singleton _) ?_)
      exact List.disjoint_singleton.mpr hnew
    · obtain rfl := Option.some.inj hx
      exact hperm.mem_iff.mpr (List.mem_append_right _ (List.mem_singleton_self _))
    · cases hnone

theorem idxOf?_of_mem (hmem : identity ∈ order) :
    order.idxOf? identity = some (order.idxOf identity) := by
  cases hat : order.idxOf? identity with
  | none => exact absurd hmem (List.idxOf?_eq_none_iff.mp hat)
  | some i => rw [List.idxOf_eq_getD_idxOf?, hat, Option.getD_some]

/-- A range reaches from the anchor to the clicked row. -/
theorem selectRange_of_mem {anchor : ProcessIdentity} (horder : order.Nodup)
    (hmem : identity ∈ order) (hanchor : s.anchor = some anchor) (hanchorMem : anchor ∈ order) :
    s.selectRange identity order =
      { s with items := spanOf order anchor identity, primary := some identity } := by
  have hrange : ∀ i j : ℕ,
      (order.drop (if i ≤ j then i else j)).take
          ((if i ≤ j then j else i) + 1 - (if i ≤ j then i else j)) =
        order.filter fun x => decide (min i j ≤ order.idxOf x ∧ order.idxOf x ≤ max i j) := by
    intro i j
    rw [← min_def, ← max_def, take_drop_eq_filter horder min_le_max]
  rw [selectRange, hanchor]
  change (match order.idxOf? anchor, order.idxOf? identity with
    | some i, some j => _
    | _, _ => s.selectSingle identity) = _
  rw [idxOf?_of_mem hanchorMem, idxOf?_of_mem hmem]
  exact congrArg (fun items => (⟨items, some identity, some anchor⟩ : Selection))
    (hrange (order.idxOf anchor) (order.idxOf identity))

/-- Without an anchor in the order, a range is a plain click. -/
theorem selectRange_of_not_mem (hanchor : ∀ anchor, s.anchor = some anchor → anchor ∉ order) :
    s.selectRange identity order = s.selectSingle identity := by
  rw [selectRange]
  cases heq : s.anchor with
  | none => rfl
  | some anchor =>
    have hnone : order.idxOf? anchor = none := List.idxOf?_eq_none_iff.mpr (hanchor anchor heq)
    change (match order.idxOf? anchor, order.idxOf? identity with
      | some i, some j => _
      | _, _ => s.selectSingle identity) = _
    rw [hnone]

theorem mem_spanOf_right {a : ProcessIdentity} (hmem : identity ∈ order) :
    identity ∈ spanOf order a identity :=
  List.mem_filter.mpr ⟨hmem, decide_eq_true ⟨min_le_right _ _, le_max_right _ _⟩⟩

theorem consistent_selectRange (s : Selection) (horder : order.Nodup) (hmem : identity ∈ order) :
    (s.selectRange identity order).Consistent := by
  by_cases hanchor : ∃ anchor ∈ order, s.anchor = some anchor
  · obtain ⟨anchor, hanchorMem, heq⟩ := hanchor
    rw [selectRange_of_mem horder hmem heq hanchorMem]
    refine .of (horder.filter _) (fun x hx => ?_) fun hnone => ?_
    · obtain rfl := Option.some.inj hx
      exact mem_spanOf_right hmem
    · cases hnone
  · rw [selectRange_of_not_mem fun anchor heq hanchorMem => hanchor ⟨anchor, hanchorMem, heq⟩]
    exact consistent_selectSingle s identity

/-- Everything that is left lives. -/
structure Live (s : Selection) (live : ProcessIdentity → Bool) : Prop where
  items : ∀ x ∈ s.items, live x = true
  primary : ∀ x, s.primary = some x → live x = true
  anchor : ∀ x, s.anchor = some x → live x = true

/-- What stays of a field whose value may have died. -/
theorem live_of_replaced {field replacement : Option ProcessIdentity} {x : ProcessIdentity}
    (hreplacement : ∀ x, replacement = some x → live x = true)
    (hx : (if field.any fun item => !live item then replacement else field) = some x) :
    live x = true := by
  split at hx
  · exact hreplacement x hx
  · rename_i halive
    rw [hx, Option.any_some] at halive
    simpa using halive

theorem live_retainLive (s : Selection) (live : ProcessIdentity → Bool) :
    (s.retainLive live).Live live := by
  have hitems : ∀ x ∈ (s.retainLive live).items, live x = true :=
    fun x hx => (List.mem_filter.mp hx).2
  have hprimary : ∀ x, (s.retainLive live).primary = some x → live x = true :=
    fun x hx => live_of_replaced (fun y hy => hitems y (List.mem_of_getLast? hy)) hx
  exact ⟨hitems, hprimary, fun x hx => live_of_replaced hprimary hx⟩

theorem Consistent.retainLive (h : s.Consistent) (live : ProcessIdentity → Bool) :
    (s.retainLive live).Consistent := by
  by_cases hdead : (s.primary.any fun item => !live item) = true
  · refine .of (h.nodup.filter _) (fun x hx => ?_) fun hnone => ?_
    · exact List.mem_of_getLast? ((if_pos hdead).symm.trans hx)
    · exact List.getLast?_eq_none_iff.mp ((if_pos hdead).symm.trans hnone)
  · refine .of (h.nodup.filter _) (fun x hx => ?_) fun hnone => ?_
    · have hx : s.primary = some x := (if_neg hdead).symm.trans hx
      have hlive : live x = true := by
        rw [hx, Option.any_some] at hdead
        simpa using hdead
      exact List.mem_filter.mpr ⟨h.mem x hx, hlive⟩
    · have hnil : s.items = [] := h.items_eq_nil ((if_neg hdead).symm.trans hnone)
      change s.items.filter live = []
      rw [hnil, List.filter_nil]

/-- Every call keeps the selection consistent. -/
theorem Consistent.apply (h : s.Consistent) {op : SelectionOp} (hop : op.Given) :
    (s.apply op).Consistent := by
  cases op with
  | click kind identity order =>
    cases kind with
    | replace => exact consistent_selectSingle s identity
    | toggle => exact h.toggle identity order
    | range => exact consistent_selectRange s hop.1 hop.2
  | selectSingle identity => exact consistent_selectSingle s identity
  | selectExact identities => exact consistent_selectExact s hop
  | selectAll order => exact consistent_selectAll s hop
  | clear => exact consistent_empty
  | retainLive live => exact h.retainLive live

theorem Consistent.foldl_apply {ops : List SelectionOp} (hops : ∀ op ∈ ops, op.Given)
    (h : s.Consistent) : (ops.foldl Selection.apply s).Consistent := by
  induction ops generalizing s with
  | nil => exact h
  | cons op ops ih =>
    exact ih (fun op hop => hops op (List.mem_cons_of_mem _ hop))
      (h.apply (hops op List.mem_cons_self))

end Selection

/-- **The selection stays consistent** after any calls: no item twice, a primary among the items
unless there are none, only living rows once these are retained, and a range click selects the span
between the anchor and the clicked row, or the clicked row where the anchor is not in the order. -/
theorem selection_consistent (ops : List SelectionOp) (hops : ∀ op ∈ ops, op.Given) :
    (ops.foldl Selection.apply {}).Consistent ∧
    (∀ live, ((ops.foldl Selection.apply {}).retainLive live).Live live) ∧
    ∀ (order : List ProcessIdentity) (identity : ProcessIdentity), order.Nodup → identity ∈ order →
      (∀ anchor ∈ order, (ops.foldl Selection.apply {}).anchor = some anchor →
        ((ops.foldl Selection.apply {}).click .range identity order).items =
          Selection.spanOf order anchor identity) ∧
      ((∀ anchor ∈ order, (ops.foldl Selection.apply {}).anchor ≠ some anchor) →
        ((ops.foldl Selection.apply {}).click .range identity order).items = [identity]) := by
  refine ⟨Selection.consistent_empty.foldl_apply hops,
    fun live => Selection.live_retainLive _ live, fun order identity horder hmem => ⟨?_, ?_⟩⟩
  · intro anchor hanchorMem hanchor
    rw [Selection.click, Selection.selectRange_of_mem horder hmem hanchor hanchorMem]
  · intro hanchor
    rw [Selection.click, Selection.selectRange_of_not_mem]
    · rfl
    · exact fun anchor heq hanchorMem => hanchor anchor hanchorMem heq

theorem selection_consistent_clicks :
    let a : ProcessIdentity := ⟨1, some 10⟩
    let b : ProcessIdentity := ⟨2, some 20⟩
    let c : ProcessIdentity := ⟨3, none⟩
    let ops := [.click .replace c [a, b, c], .click .toggle a [c, a, b], .retainLive (· ≠ a)]
    (ops.foldl Selection.apply {}).Consistent ∧
      ((ops.foldl Selection.apply {}).click .range a [c, b, a]).items = [c, b, a] := by
  intro a b c ops
  have hops : ∀ op ∈ ops, op.Given := by
    intro op hop
    simp only [ops, List.mem_cons, List.not_mem_nil, or_false] at hop
    rcases hop with rfl | rfl | rfl
    · exact ⟨by decide, by decide⟩
    · exact ⟨by decide, by decide⟩
    · trivial
  obtain ⟨hconsistent, -, hrange⟩ := selection_consistent ops hops
  refine ⟨hconsistent, ((hrange [c, b, a] a (by decide) (by decide)).1 c (by decide) ?_).trans ?_⟩
  · decide +kernel
  · decide +kernel

end Taskman
