import Taskman.App.Details.Columns
import Taskman.LTS.Machine
import Mathlib.Data.List.Nodup

/-!
# Column state of the Details page

Which columns are shown, in which order, and which one sorts.  Hidden columns keep their place in
the order.  The saved lists come from a settings file and may name unknown columns, name one twice
or leave some out.

* `Details.State` : the state, `Details.State.initial` its default;
* `Details.Op` : what the page and the settings do to it;
* `Details.State.Usable` : every column has a place, one is shown, and only Name sorts as a tree;
* `Details.columns_usable` : **every history leaves the columns usable, with a visible sort column
  where only visible columns were clicked, and a saved state is restored from what it saves**.
-/

namespace Taskman

namespace Details

/-! ### The columns -/

/-- A column of the page: its stable id, and whether it is shown by default. -/
structure ColSpec where
  cid : ColumnId
  id : Text
  defaultVisible : Bool
  deriving DecidableEq

/-- `COLUMNS`. -/
def columns : List ColSpec :=
  [⟨.name, "name".toList, true⟩, ⟨.pid, "pid".toList, true⟩, ⟨.status, "status".toList, true⟩,
    ⟨.user, "user".toList, true⟩, ⟨.userSid, "usersid".toList, false⟩,
    ⟨.cpu, "cpu".toList, true⟩, ⟨.memory, "mem".toList, true⟩, ⟨.network, "net".toList, false⟩,
    ⟨.networkReceive, "netrecv".toList, false⟩, ⟨.networkSend, "netsend".toList, false⟩,
    ⟨.platform, "platform".toList, true⟩, ⟨.elevated, "elevated".toList, true⟩,
    ⟨.uac, "uac".toList, true⟩, ⟨.gpuUtil, "gpu".toList, true⟩,
    ⟨.gpuEngine, "gpuengine".toList, true⟩, ⟨.priority, "priority".toList, false⟩,
    ⟨.threads, "threads".toList, false⟩, ⟨.handles, "handles".toList, false⟩,
    ⟨.cpuTime, "cputime".toList, false⟩, ⟨.commit, "commit".toList, false⟩,
    ⟨.peakMemory, "peakmem".toList, false⟩, ⟨.workingSet, "workingset".toList, false⟩,
    ⟨.sharedWorkingSet, "sharedworkingset".toList, false⟩,
    ⟨.gpuDedicated, "gpudedicated".toList, false⟩, ⟨.gpuShared, "gpushared".toList, false⟩,
    ⟨.description, "description".toList, false⟩, ⟨.publisher, "publisher".toList, false⟩,
    ⟨.parentPid, "ppid".toList, false⟩, ⟨.sessionId, "session".toList, false⟩,
    ⟨.imagePath, "imagepath".toList, false⟩, ⟨.pageFaults, "pagefaults".toList, false⟩,
    ⟨.ioTotal, "iototal".toList, false⟩, ⟨.ioRead, "ioread".toList, false⟩,
    ⟨.ioWrite, "iowrite".toList, false⟩, ⟨.diskActivity, "diskactivity".toList, false⟩,
    ⟨.ioOps, "ioops".toList, false⟩, ⟨.hardFaults, "hardfaults".toList, false⟩,
    ⟨.commandLine, "commandline".toList, false⟩]

/-- The columns in the order they are built in. -/
def columnIds : List ColumnId := columns.map ColSpec.cid

theorem columns_apart : columnIds.Nodup ∧ (columns.map ColSpec.id).Nodup := by decide +kernel

theorem nodup_columnIds : columnIds.Nodup := columns_apart.1

theorem exists_spec (cid : ColumnId) :
    (columns.find? fun spec => spec.cid = cid).isSome = true := by
  cases cid <;> rfl

/-- `spec_for`: every column has a specification. -/
def specFor (cid : ColumnId) : ColSpec :=
  (columns.find? fun spec => spec.cid = cid).get (exists_spec cid)

theorem specFor_mem (cid : ColumnId) : specFor cid ∈ columns :=
  List.mem_of_find?_eq_some (Option.some_get (exists_spec cid)).symm

@[simp]
theorem cid_specFor (cid : ColumnId) : (specFor cid).cid = cid := by
  have hfound := List.find?_some (Option.some_get (exists_spec cid)).symm
  exact of_decide_eq_true hfound

theorem specFor_cid : ∀ spec ∈ columns, specFor spec.cid = spec := fun spec hspec =>
  List.inj_on_of_nodup_map nodup_columnIds (specFor_mem spec.cid) hspec (cid_specFor spec.cid)

theorem mem_columnIds (cid : ColumnId) : cid ∈ columnIds :=
  List.mem_map.mpr ⟨specFor cid, specFor_mem cid, cid_specFor cid⟩

/-- The id of a column. -/
def idOf (cid : ColumnId) : Text := (specFor cid).id

/-- The column of an id. -/
def cidFromId (id : Text) : Option ColumnId :=
  (columns.find? fun spec => spec.id = id).map ColSpec.cid

@[simp]
theorem cidFromId_idOf (cid : ColumnId) : cidFromId (idOf cid) = some cid := by
  have hfound : (columns.find? fun spec => spec.id = idOf cid).isSome = true :=
    List.find?_isSome.mpr ⟨specFor cid, specFor_mem cid, decide_eq_true rfl⟩
  obtain ⟨spec, hspec⟩ := Option.isSome_iff_exists.mp hfound
  have hid : spec.id = idOf cid := by simpa using List.find?_some hspec
  have hsame : spec = specFor cid := List.inj_on_of_nodup_map columns_apart.2
    (List.mem_of_find?_eq_some hspec) (specFor_mem cid) hid
  rw [cidFromId, hspec, hsame, Option.map_some, cid_specFor]

/-- An id names at most one column, and every column is named by its own. -/
theorem cidFromId_eq_some_iff {id : Text} {cid : ColumnId} :
    cidFromId id = some cid ↔ id = idOf cid := by
  constructor
  · intro h
    obtain ⟨spec, hspec, rfl⟩ := Option.map_eq_some_iff.mp h
    have hid : spec.id = id := by simpa using List.find?_some hspec
    rw [idOf, specFor_cid spec (List.mem_of_find?_eq_some hspec), hid]
  · rintro rfl
    exact cidFromId_idOf cid

theorem idOf_injective : Function.Injective idOf := fun a b h =>
  Option.some.inj ((cidFromId_idOf a).symm.trans (h ▸ cidFromId_idOf b))

/-- `cid_is_numeric`. -/
def cidIsNumeric : ColumnId → Bool
  | .pid | .cpu | .memory | .network | .networkReceive | .networkSend | .gpuUtil | .threads
  | .handles | .cpuTime | .commit | .peakMemory | .workingSet | .sharedWorkingSet | .gpuDedicated
  | .gpuShared | .parentPid | .sessionId | .pageFaults | .ioTotal | .ioRead | .ioWrite
  | .diskActivity | .ioOps | .hardFaults => true
  | _ => false

/-! ### Sort orders -/

/-- `SortOrder::next`: the state after a click on the column that sorts already. -/
def SortOrder.next (order : SortOrder) (offersHierarchy : Bool) : SortOrder :=
  match order, offersHierarchy with
  | .ascending, _ => .descending
  | .descending, true => .hierarchical
  | .descending, false => .ascending
  | .hierarchical, _ => .ascending

/-- Only Name offers the hierarchical order. -/
def SortOrder.offeredBy (cid : ColumnId) : Bool := cid = .name

/-- The persisted form; the hierarchy flag counts only where it is offered. -/
def SortOrder.fromSaved (cid : ColumnId) (ascending hierarchical : Bool) : SortOrder :=
  if hierarchical && SortOrder.offeredBy cid then .hierarchical
  else if ascending then .ascending else .descending

/-! ### The state -/

/-- Which columns are shown, in which order, and which one sorts. -/
structure State where
  sortCol : ColumnId
  sortOrder : SortOrder
  visible : Finset ColumnId
  order : List ColumnId
  deriving DecidableEq

/-- The columns shown by default. -/
def defaultVisible : Finset ColumnId :=
  ((columns.filter ColSpec.defaultVisible).map ColSpec.cid).toFinset

/-- `State::default`. -/
def State.initial : State :=
  { sortCol := .name, sortOrder := .ascending, visible := defaultVisible, order := columnIds }

/-- `Vec::swap`. -/
def swapAt {α : Type*} (l : List α) (i j : ℕ) : List α :=
  match l[i]?, l[j]? with
  | some x, some y => (l.set i y).set j x
  | _, _ => l

/-- `if !next.contains(&cid) { next.push(cid) }`. -/
def pushNew (next : List ColumnId) (cid : ColumnId) : List ColumnId :=
  if cid ∈ next then next else next ++ [cid]

namespace State

variable (s : State)

/-- The column that sorts where the one that did is hidden. -/
def fallback (order : List ColumnId) (visible : Finset ColumnId) : ColumnId :=
  (order.find? fun candidate => decide (candidate ∈ visible)).getD .name

/-- Show a column or hide it; the last one that is shown stays. -/
def setVisible (cid : ColumnId) (on : Bool) : State :=
  if !on && decide (s.visible.card ≤ 1) && decide (cid ∈ s.visible) then s
  else if on then { s with visible := insert cid s.visible }
  else
    let visible := s.visible.erase cid
    if s.sortCol = cid then
      { s with visible, sortCol := fallback s.order visible, sortOrder := .ascending }
    else { s with visible }

/-- The order of a saved list: the known ids, each at its first place, then what is missing. -/
def restoredOrder (ids : List Text) : List ColumnId :=
  let next := ids.foldl (fun next id =>
    match cidFromId id with
    | some cid => pushNew next cid
    | none => next) []
  columns.foldl (fun next spec => pushNew next spec.cid) next

/-- The columns a saved table of overrides shows. -/
def restoredVisible (overrides : List (Text × Bool)) : Finset ColumnId :=
  overrides.foldl (fun next entry =>
    match cidFromId entry.1 with
    | some cid => if entry.2 then insert cid next else next.erase cid
    | none => next) defaultVisible

/-- `apply_saved_prefs`.  The overrides are the entries of a table, in the order of its keys. -/
def applySavedPrefs (visible : Option (List (Text × Bool))) (order : Option (List Text)) : State :=
  let order := order.elim s.order restoredOrder
  let visible := visible.elim s.visible fun overrides =>
    -- a file that hides everything is not followed
    if (restoredVisible overrides).Nonempty then restoredVisible overrides else s.visible
  if s.sortCol ∈ visible then { s with visible, order }
  else { sortCol := fallback order visible, sortOrder := .ascending, visible, order }

/-- Overrides of the default visibility. -/
def savedVisibility : List (Text × Bool) :=
  (columns.filter fun spec => decide (spec.cid ∈ s.visible) ≠ spec.defaultVisible).map
    fun spec => (spec.id, decide (spec.cid ∈ s.visible))

/-- The order as it is saved. -/
def savedOrder : List Text := s.order.map idOf

/-- The visible columns in order. -/
def visibleOrder : List ColumnId := s.order.filter fun candidate => decide (candidate ∈ s.visible)

/-- `move_visible`: exchange a visible column with the visible one `delta` places further on. -/
def moveVisible (cid : ColumnId) (delta : ℤ) : State × Bool :=
  match s.visibleOrder.findIdx? (· = cid) with
  | none => (s, false)
  | some pos =>
    let target := (pos : ℤ) + delta
    if target < 0 ∨ (s.visibleOrder.length : ℤ) ≤ target then (s, false)
    else
      match s.visibleOrder[target.toNat]? with
      | none => (s, false)
      | some other =>
        match s.order.findIdx? (· = cid), s.order.findIdx? (· = other) with
        | some a, some b => ({ s with order := swapAt s.order a b }, true)
        | _, _ => (s, false)

/-- The saved sort preference, if its column is shown. -/
def applySavedSort (column : Text) (ascending hierarchical : Bool) : State :=
  match cidFromId column with
  | some cid =>
    if cid ∈ s.visible then
      { s with sortCol := cid, sortOrder := SortOrder.fromSaved cid ascending hierarchical }
    else s
  | none => s

/-- `clicked_column`: a click on the header of a column. -/
def clickedColumn (cid : ColumnId) : State × SortOrder :=
  let s' :=
    if s.sortCol = cid then
      { s with sortOrder := s.sortOrder.next (SortOrder.offeredBy cid) }
    else
      { s with sortCol := cid, sortOrder := if cidIsNumeric cid then .descending else .ascending }
  (s', s'.sortOrder)

end State

/-! ### Histories -/

/-- What the page and the settings do to the columns. -/
inductive Op where
  | setVisible (cid : ColumnId) (on : Bool)
  | moveVisible (cid : ColumnId) (delta : ℤ)
  | clickedColumn (cid : ColumnId)
  | applySavedSort (column : Text) (ascending hierarchical : Bool)
  | applySavedPrefs (visible : Option (List (Text × Bool))) (order : Option (List Text))

/-- What an operation does. -/
def State.apply (s : State) : Op → State
  | .setVisible cid on => s.setVisible cid on
  | .moveVisible cid delta => (s.moveVisible cid delta).1
  | .clickedColumn cid => (s.clickedColumn cid).1
  | .applySavedSort column ascending hierarchical => s.applySavedSort column ascending hierarchical
  | .applySavedPrefs visible order => s.applySavedPrefs visible order

/-- Every operation goes through. -/
def State.step (s : State) (op : Op) : Option State := some (s.apply op)

/-- A click on a header is a click on a visible column. -/
def ClickVisible (s : State) : Op → Prop
  | .clickedColumn cid => cid ∈ s.visible
  | _ => True

instance : ∀ (s : State) (op : Op), Decidable (ClickVisible s op)
  | s, .clickedColumn cid => inferInstanceAs (Decidable (cid ∈ s.visible))
  | _, .setVisible .. | _, .moveVisible .. | _, .applySavedSort .. | _, .applySavedPrefs .. =>
    isTrue trivial

/-- Every column has a place, one is shown, and only Name sorts as a tree. -/
structure State.Usable (s : State) : Prop where
  order : s.order.Perm columnIds
  visible : s.visible.Nonempty
  tree : s.sortOrder = .hierarchical → s.sortCol = .name

/-! ### Orders -/

theorem swapAt_perm {α : Type*} (l : List α) (i j : ℕ) : (swapAt l i j).Perm l := by
  unfold swapAt
  split
  · rename_i x y hx hy
    obtain ⟨hi, rfl⟩ := List.getElem?_eq_some_iff.mp hx
    obtain ⟨hj, rfl⟩ := List.getElem?_eq_some_iff.mp hy
    exact List.set_set_perm hi hj
  · exact List.Perm.refl l

theorem nodup_foldl_pushNew (l : List ColumnId) :
    ∀ {next : List ColumnId}, next.Nodup → (l.foldl pushNew next).Nodup := by
  induction l with
  | nil => exact fun h => h
  | cons cid l ih =>
    intro next h
    refine ih ?_
    unfold pushNew
    split
    · exact h
    · rename_i hnew
      rw [← List.concat_eq_append]
      exact h.concat hnew

theorem mem_foldl_pushNew (l : List ColumnId) {c : ColumnId} :
    ∀ {next : List ColumnId}, c ∈ l.foldl pushNew next ↔ c ∈ next ∨ c ∈ l := by
  induction l with
  | nil => simp
  | cons cid l ih =>
    intro next
    rw [List.foldl_cons, ih, List.mem_cons]
    unfold pushNew
    split
    · rename_i hmem
      constructor
      · exact fun h => h.imp_right Or.inr
      · rintro (h | rfl | h)
        · exact Or.inl h
        · exact Or.inl hmem
        · exact Or.inr h
    · simp [or_assoc]

/-- New columns are appended as they come. -/
theorem foldl_pushNew_of_new (l : List ColumnId) :
    ∀ {next : List ColumnId}, (next ++ l).Nodup → l.foldl pushNew next = next ++ l := by
  induction l with
  | nil => simp
  | cons cid l ih =>
    intro next h
    have hnew : cid ∉ next := fun hmem =>
      (List.nodup_append.mp h).2.2 cid hmem cid (by simp) rfl
    rw [List.foldl_cons, pushNew, if_neg hnew, ih (by simpa using h), List.append_assoc,
      List.singleton_append]

theorem foldl_pushNew_of_mem (l : List ColumnId) {next : List ColumnId}
    (h : ∀ c ∈ l, c ∈ next) : l.foldl pushNew next = next := by
  induction l with
  | nil => rfl
  | cons cid l ih =>
    rw [List.foldl_cons, pushNew, if_pos (h cid (by simp))]
    exact ih fun c hc => h c (by simp [hc])

theorem restoredOrder_eq (ids : List Text) :
    State.restoredOrder ids =
      columnIds.foldl pushNew ((ids.filterMap cidFromId).foldl pushNew []) := by
  have hknown : ∀ next, ids.foldl (fun next id =>
      match cidFromId id with
      | some cid => pushNew next cid
      | none => next) next = (ids.filterMap cidFromId).foldl pushNew next := by
    induction ids with
    | nil => simp
    | cons id ids ih =>
      intro next
      rw [List.foldl_cons, ih, List.filterMap_cons]
      cases cidFromId id <;> rfl
  rw [columnIds, List.foldl_map, ← hknown, State.restoredOrder]

theorem restoredOrder_perm (ids : List Text) : (State.restoredOrder ids).Perm columnIds := by
  rw [restoredOrder_eq]
  refine (List.perm_ext_iff_of_nodup ?_ nodup_columnIds).mpr fun c => ?_
  · exact nodup_foldl_pushNew _ (nodup_foldl_pushNew _ List.nodup_nil)
  · rw [mem_foldl_pushNew]
    exact iff_of_true (Or.inr (mem_columnIds c)) (mem_columnIds c)

/-- An order is restored from the ids it saves. -/
theorem restoredOrder_savedOrder {s : State} (h : s.order.Perm columnIds) :
    State.restoredOrder s.savedOrder = s.order := by
  have hids : s.savedOrder.filterMap cidFromId = s.order := by
    have hid : (cidFromId ∘ idOf) = some := by
      funext cid
      exact cidFromId_idOf cid
    rw [State.savedOrder, List.filterMap_map, hid, List.filterMap_some]
  have hnodup : ([] ++ s.order).Nodup := h.nodup_iff.mpr nodup_columnIds
  rw [restoredOrder_eq, hids, foldl_pushNew_of_new _ hnodup, List.nil_append]
  exact foldl_pushNew_of_mem _ fun c hc => h.mem_iff.mpr hc

/-! ### Visibility -/

/-- What a table of overrides shows: what it turns on, and the defaults it does not turn off. -/
theorem mem_foldl_overrides {entries : List (Text × Bool)} (h : (entries.map Prod.fst).Nodup)
    {c : ColumnId} :
    ∀ {init : Finset ColumnId},
      c ∈ entries.foldl (fun next entry =>
        match cidFromId entry.1 with
        | some cid => if entry.2 then insert cid next else next.erase cid
        | none => next) init ↔
        (idOf c, true) ∈ entries ∨ c ∈ init ∧ (idOf c, false) ∉ entries := by
  induction entries with
  | nil => simp
  | cons e entries ih =>
    intro init
    obtain ⟨id, on⟩ := e
    obtain ⟨hnew, hrest⟩ := List.nodup_cons.mp h
    rw [List.foldl_cons, ih hrest]
    by_cases hid : id = idOf c
    · subst hid
      have hgone : ∀ b, (idOf c, b) ∉ entries := fun b hb =>
        hnew (List.mem_map.mpr ⟨_, hb, rfl⟩)
      cases on <;> simp [hgone]
    · have hother : ∀ cid, cidFromId id = some cid → c ≠ cid := by
        rintro cid hcid rfl
        exact hid (cidFromId_eq_some_iff.mp hcid)
      have hne : ∀ b, (idOf c, b) ≠ (id, on) := fun b heq => hid (Prod.mk.inj heq).1.symm
      cases hcid : cidFromId id with
      | none => simp [hne]
      | some cid => cases on <;> simp [hne, hother cid hcid]

theorem mem_defaultVisible {c : ColumnId} :
    c ∈ defaultVisible ↔ (specFor c).defaultVisible = true := by
  rw [defaultVisible, List.mem_toFinset, List.mem_map]
  constructor
  · rintro ⟨spec, hspec, rfl⟩
    obtain ⟨hmem, hshown⟩ := List.mem_filter.mp hspec
    rwa [specFor_cid spec hmem]
  · exact fun h => ⟨specFor c, List.mem_filter.mpr ⟨specFor_mem c, h⟩, cid_specFor c⟩

theorem mem_savedVisibility {s : State} {c : ColumnId} {b : Bool} :
    (idOf c, b) ∈ s.savedVisibility ↔
      decide (c ∈ s.visible) = b ∧ b ≠ (specFor c).defaultVisible := by
  simp only [State.savedVisibility, List.mem_map, List.mem_filter, Prod.mk.injEq]
  constructor
  · rintro ⟨spec, ⟨hspec, hdiff⟩, hid, rfl⟩
    have hspec' := specFor_cid spec hspec
    have hcid : spec.cid = c := by
      refine idOf_injective ?_
      rw [← hid, idOf, hspec']
    rw [hcid] at hspec' hdiff ⊢
    exact ⟨rfl, by simpa [hspec'] using hdiff⟩
  · rintro ⟨rfl, hdiff⟩
    exact ⟨specFor c, ⟨specFor_mem c, by simpa using hdiff⟩, rfl, by rw [cid_specFor]⟩

theorem nodup_savedVisibility (s : State) : (s.savedVisibility.map Prod.fst).Nodup := by
  rw [State.savedVisibility, List.map_map]
  exact columns_apart.2.sublist (List.filter_sublist.map _)

/-- A visibility is restored from the overrides it saves, in whatever order they are kept. -/
theorem restoredVisible_savedVisibility {s : State} {entries : List (Text × Bool)}
    (h : entries.Perm s.savedVisibility) : State.restoredVisible entries = s.visible := by
  have hnodup : (entries.map Prod.fst).Nodup :=
    (h.map Prod.fst).nodup_iff.mpr (nodup_savedVisibility s)
  ext c
  rw [State.restoredVisible, mem_foldl_overrides hnodup, h.mem_iff, h.mem_iff, mem_savedVisibility,
    mem_savedVisibility, mem_defaultVisible]
  by_cases hvisible : c ∈ s.visible <;> cases (specFor c).defaultVisible <;> simp [hvisible]

/-! ### Operations -/

theorem fallback_mem {order : List ColumnId} {visible : Finset ColumnId}
    (horder : order.Perm columnIds) (h : visible.Nonempty) :
    State.fallback order visible ∈ visible := by
  obtain ⟨c, hc⟩ := h
  have hsome : (order.find? fun candidate => decide (candidate ∈ visible)).isSome = true := by
    rw [List.find?_isSome]
    exact ⟨c, horder.mem_iff.mpr (mem_columnIds c), decide_eq_true hc⟩
  obtain ⟨d, hd⟩ := Option.isSome_iff_exists.mp hsome
  rw [State.fallback, hd, Option.getD_some]
  simpa using List.find?_some hd

namespace State

variable {s : State}

theorem Usable.setVisible (h : s.Usable) (cid : ColumnId) (on : Bool) :
    (s.setVisible cid on).Usable := by
  unfold State.setVisible
  split
  · exact h
  · rename_i hlast
    split
    · exact { h with visible := Finset.insert_nonempty _ _ }
    · rename_i hoff
      have hvisible : (s.visible.erase cid).Nonempty := by
        by_cases hmem : cid ∈ s.visible
        · have hcard : 1 < s.visible.card := by
            by_contra hle
            exact hlast (by simp [hoff, hmem, Nat.not_lt.mp hle])
          obtain ⟨c, hc, hne⟩ := Finset.exists_mem_ne hcard cid
          exact ⟨c, Finset.mem_erase.mpr ⟨hne, hc⟩⟩
        · rw [Finset.erase_eq_of_notMem hmem]
          exact h.visible
      split
      · exact { order := h.order, visible := hvisible, tree := fun htree => nomatch htree }
      · exact { h with visible := hvisible }

theorem Usable.moveVisible (h : s.Usable) (cid : ColumnId) (delta : ℤ) :
    (s.moveVisible cid delta).1.Usable := by
  unfold State.moveVisible
  split
  · exact h
  · dsimp only
    split
    · exact h
    · split
      · exact h
      · split
        · exact { h with order := (swapAt_perm _ _ _).trans h.order }
        · exact h

theorem Usable.applySavedSort (h : s.Usable) (column : Text) (ascending hierarchical : Bool) :
    (s.applySavedSort column ascending hierarchical).Usable := by
  unfold State.applySavedSort
  split
  · rename_i cid _
    split
    · refine { h with tree := fun htree => ?_ }
      have htree' : SortOrder.fromSaved cid ascending hierarchical = .hierarchical := htree
      unfold SortOrder.fromSaved SortOrder.offeredBy at htree'
      by_cases hname : cid = .name
      · exact hname
      · cases ascending <;> simp [hname] at htree'
    · exact h
  · exact h

theorem Usable.clickedColumn (h : s.Usable) (cid : ColumnId) : (s.clickedColumn cid).1.Usable := by
  unfold State.clickedColumn
  dsimp only
  split
  · rename_i hsort
    refine { h with tree := fun htree => ?_ }
    have htree' : s.sortOrder.next (SortOrder.offeredBy cid) = .hierarchical := htree
    cases horder : s.sortOrder with
    | ascending => simp [horder, SortOrder.next] at htree'
    | hierarchical => simp [horder, SortOrder.next] at htree'
    | descending =>
      by_cases hname : cid = .name
      · exact hsort.trans hname
      · simp [horder, SortOrder.next, SortOrder.offeredBy, hname] at htree'
  · refine { h with tree := fun htree => ?_ }
    have htree' : (if cidIsNumeric cid then SortOrder.descending else .ascending) =
        .hierarchical := htree
    split at htree' <;> cases htree'

theorem Usable.applySavedPrefs (h : s.Usable) (visible : Option (List (Text × Bool)))
    (order : Option (List Text)) : (s.applySavedPrefs visible order).Usable := by
  have horder : (order.elim s.order restoredOrder).Perm columnIds := by
    cases order with
    | none =>
      rw [Option.elim_none]
      exact h.order
    | some ids =>
      rw [Option.elim_some]
      exact restoredOrder_perm ids
  have hvisible : (visible.elim s.visible fun overrides =>
      if (restoredVisible overrides).Nonempty then restoredVisible overrides
      else s.visible).Nonempty := by
    cases visible with
    | none =>
      rw [Option.elim_none]
      exact h.visible
    | some overrides =>
      rw [Option.elim_some]
      split
      · assumption
      · exact h.visible
  unfold State.applySavedPrefs
  generalize order.elim s.order restoredOrder = order' at horder ⊢
  generalize (visible.elim s.visible fun overrides =>
    if (restoredVisible overrides).Nonempty then restoredVisible overrides
    else s.visible) = visible' at hvisible ⊢
  dsimp only
  split
  · exact { order := horder, visible := hvisible, tree := h.tree }
  · exact { order := horder, visible := hvisible, tree := fun htree => nomatch htree }

/-- **Every operation leaves the columns usable.** -/
theorem Usable.apply (h : s.Usable) (op : Op) : (s.apply op).Usable := by
  cases op with
  | setVisible cid on => exact h.setVisible cid on
  | moveVisible cid delta => exact h.moveVisible cid delta
  | clickedColumn cid => exact h.clickedColumn cid
  | applySavedSort column ascending hierarchical => exact h.applySavedSort _ _ _
  | applySavedPrefs visible order => exact h.applySavedPrefs visible order

/-- **Every operation but a click on a hidden column keeps the sort column visible.** -/
theorem Usable.apply_sort_visible (h : s.Usable) (hsort : s.sortCol ∈ s.visible) {op : Op}
    (hclick : ClickVisible s op) : (s.apply op).sortCol ∈ (s.apply op).visible := by
  have happly := h.apply op
  cases op with
  | setVisible cid on =>
    unfold State.apply State.setVisible at happly ⊢
    dsimp only at happly ⊢
    split
    · exact hsort
    · rename_i hlast
      rw [if_neg hlast] at happly
      split
      · exact Finset.mem_insert_of_mem hsort
      · rename_i hoff
        rw [if_neg hoff] at happly
        split
        · rename_i hcol
          rw [if_pos hcol] at happly
          exact fallback_mem h.order happly.visible
        · rename_i hcol
          exact Finset.mem_erase.mpr ⟨hcol, hsort⟩
  | moveVisible cid delta =>
    unfold State.apply State.moveVisible
    dsimp only
    split
    · exact hsort
    · split
      · exact hsort
      · split
        · exact hsort
        · split <;> exact hsort
  | clickedColumn cid =>
    unfold State.apply State.clickedColumn
    dsimp only
    split
    · exact hsort
    · exact hclick
  | applySavedSort column ascending hierarchical =>
    unfold State.apply State.applySavedSort
    dsimp only
    split
    · split
      · assumption
      · exact hsort
    · exact hsort
  | applySavedPrefs visible order =>
    unfold State.apply State.applySavedPrefs at happly ⊢
    dsimp only at happly ⊢
    split
    · assumption
    · rename_i hhidden
      rw [if_neg hhidden] at happly
      exact fallback_mem happly.order happly.visible

/-- **A state is restored from what it saves.** -/
theorem Usable.restored (h : s.Usable) {entries : List (Text × Bool)}
    (hentries : entries.Perm s.savedVisibility) :
    (initial.applySavedPrefs (some entries) (some s.savedOrder)).order = s.order ∧
      (initial.applySavedPrefs (some entries) (some s.savedOrder)).visible = s.visible := by
  unfold State.applySavedPrefs
  simp only [Option.elim_some, restoredOrder_savedOrder h.order,
    restoredVisible_savedVisibility hentries, h.visible, if_true]
  split <;> exact ⟨rfl, rfl⟩

theorem usable_initial : initial.Usable where
  order := List.Perm.refl columnIds
  visible := ⟨.name, mem_defaultVisible.mpr rfl⟩
  tree := fun htree => nomatch htree

end State

/-- **Every history leaves the columns usable, with a visible sort column where only visible columns
were clicked, and what a state saves restores its order and its visibility.** -/
theorem columns_usable (ops : List Op) (s : State)
    (h : Machine.exec State.step State.initial ops = some s) :
    s.Usable ∧
      (Machine.Along State.step ClickVisible State.initial ops → s.sortCol ∈ s.visible) ∧
      ∀ entries : List (Text × Bool), entries.Perm s.savedVisibility →
        (State.initial.applySavedPrefs (some entries) (some s.savedOrder)).order = s.order ∧
          (State.initial.applySavedPrefs (some entries) (some s.savedOrder)).visible =
            s.visible := by
  have husable : s.Usable := by
    refine Machine.invariant (I := State.Usable) (fun t op t' ht hstep => ?_)
      State.usable_initial h
    obtain rfl := Option.some.inj hstep
    exact ht.apply op
  refine ⟨husable, fun hclicks => ?_, fun entries hentries => husable.restored hentries⟩
  have hboth : s.Usable ∧ s.sortCol ∈ s.visible := by
    refine Machine.invariant_of_along (C := ClickVisible)
      (I := fun t => t.Usable ∧ t.sortCol ∈ t.visible) (fun t op t' ht hclick hstep => ?_)
      ⟨State.usable_initial, by decide +kernel⟩ hclicks h
    obtain rfl := Option.some.inj hstep
    exact ⟨ht.1.apply op, ht.1.apply_sort_visible ht.2 hclick⟩
  exact hboth.2

/-- A click on a hidden column makes it the sort column. -/
theorem hidden_column_clicked :
    ¬ ∀ (ops : List Op) (s : State), Machine.exec State.step State.initial ops = some s →
      s.sortCol ∈ s.visible := by
  intro hsort
  have hmem := hsort [.clickedColumn .userSid] _ rfl
  revert hmem
  decide +kernel

/-- Status moves before Pid, Name becomes the tree column, and CPU is hidden. -/
theorem columns_usable_tree :
    let ops : List Op := [.moveVisible .pid 1, .clickedColumn .name, .clickedColumn .name,
      .setVisible .cpu false]
    let s : State := ops.foldl State.apply State.initial
    s.Usable ∧ s.sortCol ∈ s.visible ∧
      (State.initial.applySavedPrefs (some s.savedVisibility) (some s.savedOrder)).order =
        s.order := by
  intro ops s
  obtain ⟨husable, hsort, hrestored⟩ := columns_usable ops s rfl
  exact ⟨husable, hsort (by decide +kernel), (hrestored _ (List.Perm.refl _)).1⟩

end Details

end Taskman
