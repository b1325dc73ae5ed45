import Taskman.App.Processes.Rows
import Taskman.Core.AppHistory
import Taskman.Metering.Total

/-!
# The application history page

The page shows a row for each entry of the history that the search keeps, in the order of the
clicked column.  An entry is known by its application, but a row only by the name it shows: that is
what is selected, looked up when a key moves the selection, and highlighted.

* `AppHistoryPage.rows` : the rows of the page;
* `AppHistoryPage.frame` : what a frame does to the selection;
* `AppHistoryPage.Walks` : the arrow keys move one row at a time, up to the ends, and one row is
  shown as selected;
* `AppHistoryPage.page_walks_iff` : **they do exactly when no two entries that are shown share a
  name**.
-/

namespace Taskman

namespace AppHistoryPage

open Processes (cmpIgnoreCase directed)
open Search (Query)

/-! ### The rows -/

/-- The column that sorts, and its direction. -/
structure SortState where
  column : ℕ
  ascending : Bool

/-- A row of the page. -/
structure Row where
  name : Text
  cpuSeconds : ℚ
  networkBytes : ℕ
  networkAvailable : Bool
  deriving DecidableEq

/-- The order of the rows; ties fall back on the names. -/
def compareRows (host : PageHost) (sort : SortState) (a b : Row) : Ordering :=
  if sort.column = 2 ∧ a.networkAvailable ≠ b.networkAvailable then
    -- missing telemetry stays last in either direction
    compare b.networkAvailable a.networkAvailable
  else
    let primary :=
      match sort.column with
      | 0 => cmpIgnoreCase host a.name b.name
      | 1 => compare a.cpuSeconds b.cpuSeconds
      | _ => compare a.networkBytes b.networkBytes
    (directed primary sort.ascending).then (cmpIgnoreCase host a.name b.name)

section Page

variable (host : PageHost) (db : AppHistoryDb) (query : Query) (sort : SortState)

/-- The friendliest name seen for an application, or else what identifies it. -/
def shownName (key : Text) : Text := db.names[key]?.getD key

/-- The row of an application. -/
def rowOf (entry : Text × AppUsage) : Row :=
  { name := shownName db entry.1
    cpuSeconds := entry.2.cpuSeconds
    networkBytes := entry.2.networkBytes
    networkAvailable := entry.2.networkAvailable }

/-- The displayed rows, in order. -/
def rows : List Row :=
  sortBy (compareRows host sort) <|
    (db.entries.toList.map (rowOf db)).filter fun row => query.matchesAny host [row.name]

end Page

/-! ### The selection -/

/-- The keys that move in a list. -/
inductive ListNav where
  | previous
  | next
  | first
  | last
  | pageUp
  | pageDown
  deriving DecidableEq

/-- Move a selected index through a list.  No selection starts at the nearest edge for the requested
direction. -/
def movedIndex (len : ℕ) (current : Option ℕ) (nav : ListNav) (pageRows : ℕ) : Option ℕ :=
  if len = 0 then none
  else
    let last := len - 1
    let page := max pageRows 1
    let current := current.map (min · last)
    some <|
      match nav, current with
      | .previous, some i => i - 1
      | .previous, none => last
      | .next, some i => min (i + 1) last
      | .next, none => 0
      | .first, _ => 0
      | .last, _ => last
      | .pageUp, some i => i - page
      | .pageUp, none => last - page
      | .pageDown, some i => min (i + page) last
      | .pageDown, none => min page last

/-- What a frame is told: whether the page has the focus, the rows in view, and the key that was
pressed. -/
structure Input where
  focused : Bool
  pageRows : ℕ
  nav : Option ListNav

/-- The name that a key selects, if any. -/
def keyboardSelection (rows : List Row) (selected : Option Text) (input : Input) : Option Text :=
  let current := selected.bind fun name => rows.findIdx? (·.name == name)
  input.nav.bind fun nav =>
    (movedIndex rows.length current nav input.pageRows).bind fun next => rows[next]?.map Row.name

/-- The selection after a frame. -/
def frame (rows : List Row) (selected : Option Text) (input : Input) : Option Text :=
  let selected :=
    if input.focused && selected.isNone then rows.head?.map Row.name else selected
  (keyboardSelection rows selected input).or selected

/-- The frame draws a row as selected. -/
def isSelected (selected : Option Text) (row : Row) : Bool := selected == some row.name

/-- Row `i` is displayed as selected, and no other row is. -/
def ShowsOnly (rows : List Row) (selected : Option Text) (i : ℕ) : Prop :=
  i < rows.length ∧
    ∀ (j : ℕ) (row : Row), rows[j]? = some row → (isSelected selected row ↔ j = i)

/-- The keyboard walks the rows from any row that is selected. -/
structure Walks (rows : List Row) : Prop where
  down : ∀ (i : ℕ) (row : Row), rows[i]? = some row → ∀ (focused : Bool) (pageRows k : ℕ),
    ShowsOnly rows ((List.replicate k { focused, pageRows, nav := some .next }).foldl (frame rows)
      (some row.name)) (min (i + k) (rows.length - 1))
  up : ∀ (i : ℕ) (row : Row), rows[i]? = some row → ∀ (focused : Bool) (pageRows k : ℕ),
    ShowsOnly rows ((List.replicate k { focused, pageRows, nav := some .previous }).foldl
      (frame rows) (some row.name)) (i - k)
  one : ∀ (i : ℕ) (row : Row), rows[i]? = some row → ∀ inputs : List Input,
    ∃ j, ShowsOnly rows (inputs.foldl (frame rows) (some row.name)) j

theorem movedIndex_next {len i : ℕ} (h : i < len) (pageRows : ℕ) :
    movedIndex len (some i) .next pageRows = some (min (i + 1) (len - 1)) := by
  have hmin : min i (len - 1) = i := Nat.min_eq_left (Nat.le_sub_one_of_lt h)
  simp [movedIndex, Nat.ne_of_gt (Nat.zero_lt_of_lt h), hmin]

theorem movedIndex_previous {len i : ℕ} (h : i < len) (pageRows : ℕ) :
    movedIndex len (some i) .previous pageRows = some (i - 1) := by
  have hmin : min i (len - 1) = i := Nat.min_eq_left (Nat.le_sub_one_of_lt h)
  simp [movedIndex, Nat.ne_of_gt (Nat.zero_lt_of_lt h), hmin]

theorem exists_movedIndex {len i : ℕ} (nav : ListNav) (pageRows : ℕ) (h : i < len) :
    ∃ j < len, movedIndex len (some i) nav pageRows = some j := by
  have hpos : len ≠ 0 := Nat.ne_of_gt (Nat.zero_lt_of_lt h)
  rw [movedIndex, if_neg hpos]
  refine ⟨_, ?_, rfl⟩
  cases nav <;> simp only [Option.map_some] <;> omega

/-! ### Rows with different names -/

section Distinct

variable {rows : List Row} {i : ℕ} {row : Row}

theorem lt_length (h : rows[i]? = some row) : i < rows.length :=
  (List.getElem?_eq_some_iff.mp h).1

theorem getElem?_name (h : rows[i]? = some row) : (rows.map Row.name)[i]? = some row.name := by
  rw [List.getElem?_map, h, Option.map_some]

variable (hnodup : (rows.map Row.name).Nodup)

include hnodup

theorem eq_of_name {j : ℕ} {other : Row} (h : rows[i]? = some row) (hother : rows[j]? = some other)
    (heq : other.name = row.name) : j = i := by
  refine (List.getElem?_inj (by simpa using lt_length hother) hnodup).mp ?_
  rw [getElem?_name hother, getElem?_name h, heq]

theorem findIdx?_name (h : rows[i]? = some row) :
    rows.findIdx? (·.name == row.name) = some i := by
  obtain ⟨hi, hrow⟩ := List.getElem?_eq_some_iff.mp h
  refine List.findIdx?_eq_some_iff_getElem.mpr ⟨hi, by simp [hrow], fun j hj heq => ?_⟩
  have hother : rows[j]? = some rows[j] := List.getElem?_eq_getElem _
  exact hj.ne (eq_of_name hnodup h hother (by simpa using heq))

theorem showsOnly_name (h : rows[i]? = some row) : ShowsOnly rows (some row.name) i := by
  refine ⟨lt_length h, fun j other hother => ?_⟩
  have hselected : isSelected (some row.name) other ↔ other.name = row.name := by
    rw [isSelected, beq_iff_eq, Option.some.injEq, eq_comm]
  refine hselected.trans ⟨eq_of_name hnodup h hother, ?_⟩
  rintro rfl
  rw [h] at hother
  rw [Option.some.inj hother]

/-- A key leads from the selected row to the one it names. -/
theorem frame_name (h : rows[i]? = some row) (input : Input) :
    ∃ j row', rows[j]? = some row' ∧ frame rows (some row.name) input = some row'.name ∧
      ∀ nav ∈ input.nav, movedIndex rows.length (some i) nav input.pageRows = some j := by
  have hselected : keyboardSelection rows (some row.name) input = input.nav.bind fun nav =>
      (movedIndex rows.length (some i) nav input.pageRows).bind fun next =>
        rows[next]?.map Row.name := by
    rw [keyboardSelection, Option.bind_some, findIdx?_name hnodup h]
  cases hnav : input.nav with
  | none =>
    refine ⟨i, row, h, ?_, nofun⟩
    rw [frame, Option.isNone_some, Bool.and_false, if_neg Bool.false_ne_true, hselected, hnav,
      Option.bind_none, Option.none_or]
  | some nav =>
    obtain ⟨j, hj, hmoved⟩ := exists_movedIndex nav input.pageRows (lt_length h)
    refine ⟨j, rows[j], List.getElem?_eq_getElem hj, ?_, ?_⟩
    · rw [frame, Option.isNone_some, Bool.and_false, if_neg Bool.false_ne_true, hselected, hnav,
        Option.bind_some, hmoved, Option.bind_some, List.getElem?_eq_getElem hj, Option.map_some,
        Option.some_or]
    · rintro _ ⟨⟩
      exact hmoved

/-- A key that is pressed again and again leads from row to row. -/
theorem foldl_frame {nav : ListNav} {move : ℕ → ℕ} {pageRows : ℕ}
    (hmove : ∀ i < rows.length, movedIndex rows.length (some i) nav pageRows = some (move i))
    (h : rows[i]? = some row) (focused : Bool) (k : ℕ) :
    ∃ row', rows[move^[k] i]? = some row' ∧
      (List.replicate k { focused, pageRows, nav := some nav }).foldl (frame rows)
        (some row.name) = some row'.name := by
  induction k generalizing i row with
  | zero => exact ⟨row, h, rfl⟩
  | succ k ih =>
    obtain ⟨j, next, hnext, hframe, hmoved⟩ :=
      frame_name hnodup h { focused, pageRows, nav := some nav }
    obtain rfl : move i = j :=
      Option.some.inj ((hmove i (lt_length h)).symm.trans (hmoved nav rfl))
    rw [List.replicate_succ, List.foldl_cons, hframe, Function.iterate_succ_apply]
    exact ih hnext

/-- Whatever is pressed, a row is selected. -/
theorem exists_foldl_frame (h : rows[i]? = some row) (inputs : List Input) :
    ∃ (j : ℕ) (row' : Row), rows[j]? = some row' ∧
      inputs.foldl (frame rows) (some row.name) = some row'.name := by
  induction inputs generalizing i row with
  | nil => exact ⟨i, row, h, rfl⟩
  | cons input inputs ih =>
    obtain ⟨j, next, hnext, hframe, -⟩ := frame_name hnodup h input
    rw [List.foldl_cons, hframe]
    exact ih hnext

omit hnodup in
theorem iterate_next (last k : ℕ) (hi : i ≤ last) :
    (fun i => min (i + 1) last)^[k] i = min (i + k) last := by
  induction k generalizing i with
  | zero => exact (Nat.min_eq_left hi).symm
  | succ k ih =>
    rw [Function.iterate_succ_apply, ih (Nat.min_le_right ..)]
    omega

omit hnodup in
theorem iterate_previous (k : ℕ) : (fun i => i - 1)^[k] i = i - k := by
  induction k generalizing i with
  | zero => rfl
  | succ k ih =>
    rw [Function.iterate_succ_apply, ih]
    omega

/-- Rows with different names are walked. -/
theorem walks_of_nodup : Walks rows where
  down i row h focused pageRows k := by
    obtain ⟨row', hrow', hselected⟩ :=
      foldl_frame hnodup (fun i hi => movedIndex_next hi pageRows) h focused k
    rw [iterate_next _ k (Nat.le_sub_one_of_lt (lt_length h))] at hrow'
    exact hselected ▸ showsOnly_name hnodup hrow'
  up i row h focused pageRows k := by
    obtain ⟨row', hrow', hselected⟩ :=
      foldl_frame hnodup (fun i hi => movedIndex_previous hi pageRows) h focused k
    rw [iterate_previous] at hrow'
    exact hselected ▸ showsOnly_name hnodup hrow'
  one i row h inputs := by
    obtain ⟨j, row', hrow', hselected⟩ := exists_foldl_frame hnodup h inputs
    exact ⟨j, hselected ▸ showsOnly_name hnodup hrow'⟩

end Distinct

/-- Two rows with one name are both shown as selected. -/
theorem Walks.nodup {rows : List Row} (h : Walks rows) : (rows.map Row.name).Nodup := by
  refine List.nodup_iff_getElem?_ne_getElem?.mpr fun i j hij hj heq => ?_
  rw [List.length_map] at hj
  have hrow : ∀ {k} (hk : k < rows.length), rows[k]? = some rows[k] :=
    fun hk => List.getElem?_eq_getElem hk
  have hi : i < rows.length := hij.trans hj
  rw [getElem?_name (hrow hi), getElem?_name (hrow hj), Option.some.injEq] at heq
  have hshows : ShowsOnly rows (some rows[i].name) (min (i + 0) (rows.length - 1)) :=
    h.down i _ (hrow hi) true 1 0
  have hi' := (hshows.2 i _ (hrow hi)).mp (beq_self_eq_true _)
  have hj' := (hshows.2 j _ (hrow hj)).mp (by rw [isSelected, heq, beq_self_eq_true])
  exact hij.ne (hi'.trans hj'.symm)

theorem walks_iff_nodup {rows : List Row} : Walks rows ↔ (rows.map Row.name).Nodup :=
  ⟨Walks.nodup, walks_of_nodup⟩

/-! ### The names of the entries -/

section Page

variable (host : PageHost) (db : AppHistoryDb) (query : Query) (sort : SortState)

/-- The applications whose entries are displayed. -/
def Displayed (key : Text) : Prop :=
  key ∈ db.entries ∧ query.matchesAny host [shownName db key] = true

instance (key : Text) : Decidable (Displayed host db query key) :=
  inferInstanceAs (Decidable (_ ∧ _))

/-- The names of the rows are those of the entries. -/
theorem nodup_rows_iff : ((rows host db query sort).map Row.name).Nodup ↔
    Set.InjOn (shownName db) {key | Displayed host db query key} := by
  let keys := (db.entries.toList.map Prod.fst).filter fun key =>
    query.matchesAny host [shownName db key]
  have hnames : ((rows host db query sort).map Row.name).Perm (keys.map (shownName db)) := by
    refine ((sortBy_perm _ _).map Row.name).trans (List.Perm.of_eq ?_)
    simp only [keys]
    rw [List.filter_map, List.filter_map, List.map_map, List.map_map]
    rfl
  have hkeys : keys.Nodup := (OrdMap.nodup_keys_toList db.entries).filter _
  have hmem : ∀ key, key ∈ keys ↔ Displayed host db query key := by
    intro key
    rw [List.mem_filter, Std.ExtTreeMap.map_fst_toList_eq_keys, Std.ExtTreeMap.mem_keys]
    rfl
  rw [hnames.nodup_iff, List.nodup_map_iff_inj_on hkeys]
  simp only [hmem]
  rfl

/-- **The keyboard walks the page exactly when no two entries that are displayed show the same
name.** -/
theorem page_walks_iff : Walks (rows host db query sort) ↔
    Set.InjOn (shownName db) {key | Displayed host db query key} :=
  walks_iff_nodup.trans (nodup_rows_iff host db query sort)

/-- Two executables whose name is the same. -/
theorem same_name_stuck : ¬ ∀ (host : PageHost) (db : AppHistoryDb) (query : Query)
    (sort : SortState), Walks (rows host db query sort) := by
  intro h
  let host : PageHost :=
    { toLowercase := id, charToLowercase := fun c => [c], serviceHost := [],
      terminatedTooltip := id }
  let names : OrdMap Text Text :=
    (∅ : OrdMap Text Text).insertMany
      [("c:/a/setup.exe".toList, "Setup".toList), ("c:/b/setup.exe".toList, "Setup".toList)]
  let entries : OrdMap Text AppUsage :=
    (∅ : OrdMap Text AppUsage).insertMany
      [("c:/a/setup.exe".toList, {}), ("c:/b/setup.exe".toList, {})]
  let db : AppHistoryDb := { path := none, sinceEpochS := 0, entries, names }
  have hinj := (nodup_rows_iff host db ⟨[]⟩ ⟨0, true⟩).mp (h host db ⟨[]⟩ ⟨0, true⟩).nodup
  have hkey : ∀ key ∈ ["c:/a/setup.exe".toList, "c:/b/setup.exe".toList],
      Displayed host db ⟨[]⟩ key ∧ shownName db key = "Setup".toList := by
    decide +kernel
  have heq := hinj (hkey "c:/a/setup.exe".toList (by simp)).1
    (hkey "c:/b/setup.exe".toList (by simp)).1
    ((hkey "c:/a/setup.exe".toList (by simp)).2.trans
      (hkey "c:/b/setup.exe".toList (by simp)).2.symm)
  revert heq
  decide

end Page

end AppHistoryPage

end Taskman
