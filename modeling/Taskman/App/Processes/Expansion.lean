import Taskman.App.Processes.Page

/-!
# What expanding a group changes

The heat of a row is relative to the largest value of its column over all rows, those of expanded
groups included.  No member shows more than its head, so the largest values are those of the heads,
and expanding a group adds rows without touching the others.

* `Processes.columnMax_items` : **the largest values do not depend on what is expanded**;
* `Processes.expanding_keeps_other_rows` : the page for any two sets of expanded groups.
-/

namespace Taskman

namespace Processes

/-! ### The largest values -/

/-- A bound on the largest known value of a column bounds every known value. -/
theorem columnMax_le_iff (rows : List DisplayRow) (i : Fin VALUE_COLS) (v : ℚ) :
    columnMax rows i ≤ v ↔
      0 ≤ v ∧ ∀ d, DisplayRow.process d ∈ rows → valueKnown d i = true → d.values i ≤ v := by
  unfold columnMax
  generalize (0 : ℚ) = acc
  induction rows generalizing acc with
  | nil => simp
  | cons r rows ih =>
    rw [List.foldl_cons, ih]
    cases r with
    | groupHeader gi total => simp
    | process d =>
      have hcons : (∀ d', DisplayRow.process d' ∈ .process d :: rows →
          valueKnown d' i = true → d'.values i ≤ v) ↔
          (valueKnown d i = true → d.values i ≤ v) ∧
          ∀ d', DisplayRow.process d' ∈ rows → valueKnown d' i = true → d'.values i ≤ v := by
        simp [or_imp, forall_and]
      rw [hcons]
      by_cases hknown : valueKnown d i = true
      · simp [hknown, and_assoc]
      · simp [hknown]

variable {host : PageHost} {hash : PageHash} {items : List Item}

/-- **The largest values do not depend on what is expanded.** -/
theorem columnMax_items
    (hvalid : ∀ b, Item.block b ∈ items → b.Valid host hash ∧ ∀ p ∈ b.members, Measured p)
    (expanded expanded' : Finset ℕ) :
    columnMax (items.flatMap (Item.rows expanded)) =
      columnMax (items.flatMap (Item.rows expanded')) := by
  -- both are the largest values of the heads
  have hheads : ∀ (expanded : Finset ℕ) (i : Fin VALUE_COLS) (v : ℚ),
      columnMax (items.flatMap (Item.rows expanded)) i ≤ v ↔
        0 ≤ v ∧ ∀ b, Item.block b ∈ items → valueKnown b.head i = true → b.head.values i ≤ v := by
    intro expanded i v
    rw [columnMax_le_iff]
    refine and_congr_right fun _ => ⟨?_, ?_⟩
    · intro h b hb
      exact h b.head (List.mem_flatMap.mpr ⟨_, hb, List.mem_cons_self⟩)
    · intro h d hd hknown
      obtain ⟨item, hitem, hd⟩ := List.mem_flatMap.mp hd
      cases item with
      | header gi total => cases List.mem_singleton.mp hd
      | block b =>
        rcases Block.mem_rows_iff.mp hd with rfl | ⟨-, hd⟩
        · exact h b hitem hknown
        · obtain ⟨hb, hmeasured⟩ := hvalid b hitem
          obtain ⟨hhead, hle⟩ := hb.le_head hmeasured hd hknown
          exact hle.trans (h b hitem hhead)
  funext i
  refine le_antisymm ?_ ?_
  · rw [hheads, ← hheads expanded' i]
  · rw [hheads, ← hheads expanded i]

/-! ### The rows of two sets of expanded groups -/

/-- A header, or a row of depth 0. -/
def DisplayRow.outer : DisplayRow → Bool
  | .groupHeader _ _ => true
  | .process row => decide (row.depth = 0)

/-- The row of one item, as it is without anything expanded. -/
def Item.outerRow : Item → DisplayRow
  | .header gi total => .groupHeader gi total
  | .block b => .process b.head

/-- The rows that expanding puts under an item. -/
def Item.innerRows (expanded : Finset ℕ) : Item → List RowData
  | .header _ _ => []
  | .block b => if b.head.aggregate = true ∧ b.head.pid ∈ expanded then b.body else []

theorem Item.rows_eq (expanded : Finset ℕ) (item : Item) :
    item.rows expanded = item.outerRow :: (item.innerRows expanded).map .process := by
  cases item with
  | header gi total => rfl
  | block b =>
    simp only [Item.rows, Block.rows, Item.outerRow, Item.innerRows]
    by_cases h : b.head.aggregate = true ∧ b.head.pid ∈ expanded
    · rw [if_pos h, if_pos h]
    · rw [if_neg h, if_neg h, List.map_nil]

/-- Leaving out the nested rows leaves the outer row of each item. -/
theorem filter_outer_items (maxima : Values)
    (hvalid : ∀ b, Item.block b ∈ items → b.Valid host hash) (expanded : Finset ℕ) :
    ((items.flatMap (Item.rows expanded)).map (heatRow maxima)).filter DisplayRow.outer =
      (items.map Item.outerRow).map (heatRow maxima) := by
  induction items with
  | nil => rfl
  | cons item items ih =>
    have hinner : ((item.innerRows expanded).map DisplayRow.process |>.map
        (heatRow maxima)).filter DisplayRow.outer = [] := by
      rw [List.filter_eq_nil_iff]
      intro r hr
      rw [List.map_map] at hr
      obtain ⟨row, hrow, rfl⟩ := List.mem_map.mp hr
      cases item with
      | header gi total => cases hrow
      | block b =>
        have hbody : row ∈ b.body := by
          dsimp only [Item.innerRows] at hrow
          split at hrow
          · exact hrow
          · cases hrow
        obtain ⟨-, p, -, depth, hdepth, rfl⟩ := (hvalid b List.mem_cons_self).mem_body hbody
        simp only [Function.comp_apply, heatRow, RowData.withHeat, DisplayRow.outer, makeOwnRow,
          decide_eq_true_eq]
        omega
    have houter : DisplayRow.outer (heatRow maxima item.outerRow) = true := by
      cases item with
      | header gi total => rfl
      | block b => exact decide_eq_true (hvalid b List.mem_cons_self).depth_head
    rw [List.flatMap_cons, Item.rows_eq, List.map_append, List.filter_append, List.map_cons,
      List.filter_cons_of_pos houter, hinner, ih fun b hb => hvalid b (List.mem_cons_of_mem _ hb),
      List.map_cons, List.map_cons, List.cons_append, List.nil_append]

/-- The nested rows of a block are those of its members, one for each. -/
theorem Block.Valid.body_members {b : Block} (h : b.Valid host hash) :
    b.head.aggregate = !b.body.isEmpty ∧
      (b.head.aggregate = true →
        (b.body.map identityOf).Perm (b.members.map processIdentity) ∧
        b.head.terminationTargets = groupTargets b.members) ∧
      ∀ row ∈ b.body, 1 ≤ row.depth ∧ row.aggregate = false := by
  refine ⟨?_, ?_, ?_⟩
  · cases h with
    | single p => rfl
    | group hroot hcount hhead hlisting hdepth =>
      rename_i root members head listing
      have hlength := hlisting.length_eq
      rw [List.length_map] at hlength
      cases listing with
      | nil =>
        rw [List.length_nil] at hlength
        omega
      | cons x listing => exact hhead.aggregate
  · intro haggregate
    cases h with
    | single p => cases haggregate
    | group hroot hcount hhead hlisting hdepth =>
      refine ⟨?_, hhead.targets⟩
      have hidentities := hlisting.map processIdentity
      rw [List.map_map] at hidentities
      rw [memberRows, List.map_map]
      exact hidentities
  · intro row hrow
    obtain ⟨-, p, -, depth, hdepth, rfl⟩ := h.mem_body hrow
    exact ⟨hdepth, rfl⟩

/-- **Expanding groups keeps the other rows.**  The page is a list of headers and blocks that does
not depend on what is expanded, with the same heat for every set of expanded groups: the row of an
item, and directly under it, exactly where it is an aggregate whose group is expanded, the rows of
the group's members.  So the headers and the rows of depth 0 are the same for any two sets. -/
theorem expanding_keeps_other_rows (host : PageHost) (hash : PageHash) {snap : Snapshot}
    (h : Distinct snap.processes) (hmeasured : ∀ p ∈ snap.processes, Measured p)
    (rawSearch : Text) (sortCol : ℕ) (ascending : Bool) (groupCollapsed : ℕ → Bool) :
    (∃ (items : List Item) (maxima : Values),
      (∀ expanded, buildDisplayRows host hash snap rawSearch sortCol ascending expanded
          groupCollapsed =
        items.flatMap fun item => heatRow maxima item.outerRow ::
          (item.innerRows expanded).map fun row => .process (row.withHeat maxima)) ∧
      ∀ b, Item.block b ∈ items → b.head.depth = 0 ∧
        b.head.aggregate = !b.body.isEmpty ∧
        (b.head.aggregate = true →
          (b.body.map identityOf).Perm (b.members.map processIdentity) ∧
          b.head.terminationTargets = groupTargets b.members) ∧
        ∀ row ∈ b.body, 1 ≤ row.depth ∧ row.aggregate = false) ∧
    ∀ expanded expanded' : Finset ℕ,
      (buildDisplayRows host hash snap rawSearch sortCol ascending expanded groupCollapsed).filter
        DisplayRow.outer =
      (buildDisplayRows host hash snap rawSearch sortCol ascending expanded' groupCollapsed).filter
        DisplayRow.outer := by
  have hvalid : ∀ b, Item.block b ∈ displayItems host hash snap rawSearch sortCol ascending
      groupCollapsed → b.Valid host hash ∧ ∀ p ∈ b.members, Measured p := by
    intro b hb
    obtain ⟨hb', hmembers⟩ := valid_of_mem_displayItems h hb
    exact ⟨hb', fun p hp => hmeasured p (hmembers p hp)⟩
  generalize hitems : displayItems host hash snap rawSearch sortCol ascending groupCollapsed =
    items at hvalid
  -- the heat is that of the maxima over the heads, which are the same for every expansion
  have hrows : ∀ expanded, buildDisplayRows host hash snap rawSearch sortCol ascending expanded
      groupCollapsed = (items.flatMap (Item.rows expanded)).map
        (heatRow (columnMax (items.flatMap (Item.rows ∅)))) := by
    intro expanded
    rw [buildDisplayRows_eq host hash h, hitems, normalizeHeat,
      columnMax_items hvalid expanded ∅]
  refine ⟨⟨items, columnMax (items.flatMap (Item.rows ∅)), ?_, ?_⟩, ?_⟩
  · intro expanded
    rw [hrows, List.map_flatMap]
    refine List.flatMap_congr fun item _ => ?_
    rw [Item.rows_eq, List.map_cons, List.map_map]
    rfl
  · intro b hb
    have hb' := (hvalid b hb).1
    exact ⟨hb'.depth_head, hb'.body_members⟩
  · intro expanded expanded'
    have hblocks := fun b hb => (hvalid b hb).1
    rw [hrows, hrows, filter_outer_items _ hblocks, filter_outer_items _ hblocks]

/-- An application with a helper, collapsed and expanded. -/
theorem expanding_keeps_other_rows_example :
    let app : ProcessEntry :=
      { pid := 1, name := "app.exe".toList, hasWindow := true, cpuPct := 5 }
    let helper : ProcessEntry :=
      { pid := 2, ppid := some 1, name := "helper.exe".toList, cpuPct := 3 }
    (buildDisplayRows asciiHost insertedHash { processes := [app, helper] } [] 2 false ∅
      fun _ => false).filter DisplayRow.outer =
    (buildDisplayRows asciiHost insertedHash { processes := [app, helper] } [] 2 false {1}
      fun _ => false).filter DisplayRow.outer := by
  intro app helper
  have hmeasured : ∀ p ∈ [app, helper], Measured p := by
    intro p hp
    have hnothing : ∀ {κ : Type}, BusiestShare.Reported none ([] : List (κ × ℚ)) := by
      intro κ
      constructor <;> simp
    rcases List.mem_cons.mp hp with rfl | hp
    · constructor <;> simp [app, hnothing]
    · obtain rfl := List.mem_singleton.mp hp
      constructor <;> simp [helper, hnothing]
  exact (@expanding_keeps_other_rows asciiHost insertedHash
    { processes := [app, helper] } (by decide) hmeasured [] 2 false
    fun _ => false).2 ∅ {1}

/-- A group's disk column is cut at 100 % and its members' are not, and of two processes under one
pid the one whose row is shown need not be the one that was expanded: without those premises the
rows outside of an expanded group change. -/
theorem expanding_changes_other_rows :
    (let share : DiskActiveShare := { disk := 0, activePct := 150 }
     let app : ProcessEntry :=
       { pid := 1, name := "app.exe".toList, hasWindow := true, diskActivePct := some 150,
         diskActiveByDisk := [share] }
     let helper : ProcessEntry := { pid := 2, ppid := some 1, name := "helper.exe".toList }
     (buildDisplayRows asciiHost insertedHash { processes := [app, helper] } [] 2 false ∅
       fun _ => false).filter DisplayRow.outer ≠
     (buildDisplayRows asciiHost insertedHash { processes := [app, helper] } [] 2 false {1}
       fun _ => false).filter DisplayRow.outer) ∧
    let app : ProcessEntry :=
      { pid := 1, startEpochS := some 1, name := "app.exe".toList, cpuPct := 50 }
    let twin : ProcessEntry := { app with startEpochS := some 2, cpuPct := 10 }
    let helper : ProcessEntry := { pid := 2, ppid := some 1, name := "helper.exe".toList }
    (buildDisplayRows asciiHost insertedHash { processes := [app, twin, helper] } [] 2 false ∅
      fun _ => false).filter DisplayRow.outer ≠
    (buildDisplayRows asciiHost insertedHash { processes := [app, twin, helper] } [] 2 false {1}
      fun _ => false).filter DisplayRow.outer := by
  decide +kernel

end Processes

end Taskman
