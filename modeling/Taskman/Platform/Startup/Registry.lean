import Taskman.Collections.FoldMap
import Taskman.Platform.Registry

/-!
# Reading registry keys by enumeration

A registry key holds values under names that are compared without regard to case.  Its readers walk
over the values with a buffer for the name and up to a fixed count, and ask for the data of each
one by the name they read.

* `RegKey` : the values of a key, in the order they are enumerated in;
* `RegKey.enumerated` : the values the walk gets to;
* `RegKey.approvals` : the map `read_registry_binary` makes, **which knows a name exactly when it
  was enumerated under that spelling** (`RegKey.approvals_eq`);
* `RegKey.Reachable` : a write under the name is enumerated under that name;
  **that is when a disabled entry is read as disabled** (`RegKey.reachable_iff`).
-/

namespace Taskman

/-- A registry key, whose value names the system compares after folding. -/
abbrev RegKey (fold : RegName → RegName) := FoldMap fold RegValue

/-- Units of the buffer for a name. -/
def NAME_BUFFER : ℕ := 512

/-- The largest buffer for data. -/
def DATA_BUFFER : ℕ := 64 * 1024

/-- The index after which the walk stops. -/
def LAST_INDEX : ℕ := 200

/-- The name fits the buffer, with the NUL behind it. -/
def fitsBuffer (n : RegName) : Bool := decide ((Text.encodeUtf16 n.val).length + 1 ≤ NAME_BUFFER)

/-- The names the walk of both readers gets to, from an index on.  `RegEnumValueW` fails on a name
that does not fit. -/
def enumerateFrom (index : ℕ) : List RegName → List RegName
  | [] => []
  | n :: rest =>
    if fitsBuffer n then n :: if index + 1 > LAST_INDEX then [] else enumerateFrom (index + 1) rest
    else []

/-- `approval_says_enabled`. -/
def approvalSaysEnabled (data : Option Bytes) : Bool :=
  match data with
  | none => true
  | some bytes =>
    match bytes.head? with
    | none => true
    | some flags => flags &&& 1 == 0

@[simp]
theorem approvalSaysEnabled_none : approvalSaysEnabled none = true := rfl

namespace RegKey

variable {fold : RegName → RegName} (key : RegKey fold)

/-- The names the walk gets to. -/
def enumerated : List RegName := enumerateFrom 0 key.names

/-- `RegQueryValueExW`, with a buffer of the size the enumeration named, but no larger than the
largest one. -/
def query (name : Text) : Option RegValue :=
  ((key.find? (wstr name)).map Prod.snd).filter fun v => v.data.length ≤ DATA_BUFFER

/-- `read_registry_binary`, on a key that opens. -/
def approvals : Text → Option Bytes :=
  key.enumerated.foldl (fun out n =>
    match key.query n.val with
    | some v => Function.update out n.val (some v.data)
    | none => out) fun _ => none

end RegKey

/-! ### The walk -/

theorem mem_of_mem_enumerateFrom {i : ℕ} {l : List RegName} {n : RegName}
    (h : n ∈ enumerateFrom i l) : n ∈ l ∧ fitsBuffer n := by
  induction l generalizing i with
  | nil => cases h
  | cons m l ih =>
    rw [enumerateFrom] at h
    split_ifs at h with hfit hlast
    · obtain rfl := List.mem_singleton.mp h
      exact ⟨List.mem_cons_self, hfit⟩
    · rcases List.mem_cons.mp h with rfl | h
      · exact ⟨List.mem_cons_self, hfit⟩
      · exact ⟨List.mem_cons_of_mem m (ih h).1, (ih h).2⟩
    · cases h

/-- A name is enumerated when the walk gets as far as to it. -/
theorem mem_enumerateFrom_iff {i : ℕ} (hi : i ≤ LAST_INDEX) {l : List RegName} {n : RegName} :
    n ∈ enumerateFrom i l ↔ ∃ before after, l = before ++ n :: after ∧
      i + before.length ≤ LAST_INDEX ∧ ∀ m ∈ before ++ [n], fitsBuffer m := by
  induction l generalizing i with
  | nil => simp [enumerateFrom]
  | cons m l ih =>
    rw [enumerateFrom]
    constructor
    · intro h
      split_ifs at h with hfit hlast
      · obtain rfl := List.mem_singleton.mp h
        exact ⟨[], l, rfl, hi, by simpa using hfit⟩
      · rcases List.mem_cons.mp h with rfl | h
        · exact ⟨[], l, rfl, hi, by simpa using hfit⟩
        · obtain ⟨before, after, rfl, hlen, hfits⟩ := (ih (by omega)).mp h
          refine ⟨m :: before, after, rfl, by simp; omega, ?_⟩
          rw [List.cons_append, List.forall_mem_cons]
          exact ⟨hfit, hfits⟩
      · cases h
    · rintro ⟨before, after, hl, hlen, hfits⟩
      cases before with
      | nil =>
        obtain ⟨rfl, -⟩ := List.cons.inj hl
        rw [if_pos (hfits m (by simp))]
        exact List.mem_cons_self
      | cons f before =>
        obtain ⟨rfl, rfl⟩ := List.cons.inj hl
        rw [List.length_cons] at hlen
        rw [if_pos (hfits m (by simp)), if_neg (by omega)]
        refine List.mem_cons_of_mem m ((ih (by omega)).mpr ⟨before, after, rfl, by omega, ?_⟩)
        exact fun f hf => hfits f (List.mem_cons_of_mem m hf)

/-- A new name at the end is enumerated when all the others are. -/
theorem mem_enumerateFrom_concat_self {l : List RegName} {n : RegName} (hn : n ∉ l) :
    n ∈ enumerateFrom 0 (l ++ [n]) ↔
      l.length ≤ LAST_INDEX ∧ ∀ m ∈ l ++ [n], fitsBuffer m := by
  rw [mem_enumerateFrom_iff (Nat.zero_le _)]
  constructor
  · rintro ⟨before, after, hl, hlen, hfits⟩
    obtain rfl : after = [] := by
      by_contra hne
      have hmem : n ∈ l := by
        have hdrop := congrArg List.dropLast hl
        rw [List.dropLast_concat, List.dropLast_append_of_ne_nil (by simp),
          List.dropLast_cons_of_ne_nil hne] at hdrop
        simp [hdrop]
      exact hn hmem
    obtain rfl := List.append_cancel_right hl
    exact ⟨by omega, hfits⟩
  · rintro ⟨hlen, hfits⟩
    exact ⟨l, [], rfl, by omega, hfits⟩

theorem mem_enumerateFrom_concat_of_ne {i : ℕ} {l : List RegName} {m n : RegName} (h : m ≠ n) :
    m ∈ enumerateFrom i (l ++ [n]) ↔ m ∈ enumerateFrom i l := by
  induction l generalizing i with
  | nil =>
    rw [List.nil_append, enumerateFrom, enumerateFrom, enumerateFrom]
    split_ifs <;> simp [h]
  | cons k l ih =>
    rw [List.cons_append, enumerateFrom, enumerateFrom]
    split_ifs with hfit hlast
    · rfl
    · rw [List.mem_cons, List.mem_cons, ih]
    · rfl

/-- What is enumerated stays so when others are deleted. -/
theorem mem_enumerateFrom_filter {p : RegName → Bool} {i j : ℕ} (hij : j ≤ i) {l : List RegName}
    {n : RegName} (hn : p n) (h : n ∈ enumerateFrom i l) : n ∈ enumerateFrom j (l.filter p) := by
  induction l generalizing i j with
  | nil => cases h
  | cons m l ih =>
    rw [enumerateFrom] at h
    split_ifs at h with hfit hlast
    · obtain rfl := List.mem_singleton.mp h
      rw [List.filter_cons_of_pos hn, enumerateFrom, if_pos hfit]
      exact List.mem_cons_self
    · rcases List.mem_cons.mp h with rfl | h
      · rw [List.filter_cons_of_pos hn, enumerateFrom, if_pos hfit]
        exact List.mem_cons_self
      · by_cases hm : p m
        · rw [List.filter_cons_of_pos hm, enumerateFrom, if_pos hfit, if_neg (by omega)]
          exact List.mem_cons_of_mem m (ih (by omega) h)
        · rw [List.filter_cons_of_neg hm]
          exact ih (by omega) h
    · cases h

/-! ### The map of approvals -/

namespace RegKey

variable {fold : RegName → RegName} (key : RegKey fold)

theorem mem_names_of_mem_enumerated {n : RegName} (h : n ∈ key.enumerated) : n ∈ key.names :=
  (mem_of_mem_enumerateFrom h).1

/-- **The map knows a name exactly when it was enumerated under that spelling.** -/
theorem approvals_eq (n : RegName) :
    key.approvals n.val =
      if n ∈ key.enumerated then (key.query n.val).map RegValue.data else none := by
  rw [approvals]
  induction key.enumerated using List.reverseRecOn with
  | nil => simp
  | append_singleton l m ih =>
    rw [List.foldl_append, List.foldl_cons, List.foldl_nil]
    by_cases hm : n = m
    · subst hm
      rw [if_pos (by simp)]
      cases hq : key.query n.val with
      | none => simp only [ih, hq, Option.map_none, ite_self]
      | some v => simp
    · have hval : n.val ≠ m.val := fun h => hm (Subtype.ext h)
      simp only [List.mem_append, List.mem_singleton, hm, or_false, ← ih]
      cases key.query m.val with
      | none => rfl
      | some v => exact Function.update_of_ne hval _ _

/-- Whether an item with this name is shown as enabled. -/
def showsEnabled (n : RegName) : Bool := approvalSaysEnabled (key.approvals n.val)

/-- Whether the system takes an item with this name for enabled. -/
def saysEnabled (n : RegName) : Bool :=
  approvalSaysEnabled ((key.find? n).map fun e => e.2.data)

/-- No more names come before this one than are enumerated, and all of them fit the buffer. -/
def Listed (n : RegName) : Prop :=
  ∃ before after, key.names = before ++ n :: after ∧ before.length ≤ LAST_INDEX ∧
    ∀ m ∈ before ++ [n], fitsBuffer m

theorem mem_enumerated_iff {n : RegName} : n ∈ key.enumerated ↔ key.Listed n := by
  simp only [enumerated, mem_enumerateFrom_iff (Nat.zero_le _), Nat.zero_add, Listed]

/-- The entry of the name has that spelling and is listed, or there is none and a new one would
be. -/
def Reachable (n : RegName) : Prop :=
  key.Listed n ∨
    key.find? n = none ∧ key.names.length ≤ LAST_INDEX ∧ ∀ m ∈ key.names ++ [n], fitsBuffer m

/-- An entry that is enumerated is shown as it is, unless its data are too large. -/
theorem showsEnabled_of_mem_enumerated {n : RegName} (h : n ∈ key.enumerated) :
    key.showsEnabled n = approvalSaysEnabled (((key.find? n).map Prod.snd).filter
      (fun v => v.data.length ≤ DATA_BUFFER) |>.map RegValue.data) := by
  rw [showsEnabled, approvals_eq, if_pos h, query, wstr_val]

theorem showsEnabled_of_notMem_enumerated {n : RegName} (h : n ∉ key.enumerated) :
    key.showsEnabled n = true := by
  rw [showsEnabled, approvals_eq, if_neg h, approvalSaysEnabled_none]

/-- **An item is shown as disabled after the write exactly when the write is reachable.** -/
theorem reachable_iff {n : RegName} {v : RegValue} (hsize : v.data.length ≤ DATA_BUFFER)
    (hoff : approvalSaysEnabled (some v.data) = false) :
    key.Reachable n ↔ showsEnabled (key.insert n v) n = false := by
  have hmem : n ∈ enumerated (key.insert n v) ↔ key.Reachable n := by
    rw [enumerated, FoldMap.names_insert, Reachable, ← mem_enumerated_iff]
    split_ifs with hfound
    · have hsome : key.find? n ≠ none := Option.isSome_iff_ne_none.mp hfound
      rw [enumerated, or_iff_left fun h => hsome h.1]
    · have hnone : key.find? n = none := Option.not_isSome_iff_eq_none.mp hfound
      have hnot : n ∉ key.names := fun h => FoldMap.find?_eq_none_iff.mp hnone n h rfl
      rw [mem_enumerateFrom_concat_self hnot, or_iff_right fun h =>
        hnot (key.mem_names_of_mem_enumerated h), and_iff_right hnone]
  rw [← hmem]
  constructor
  · intro h
    obtain ⟨j, hj, -⟩ := key.find?_insert_self n v
    rw [showsEnabled_of_mem_enumerated _ h, hj]
    simpa [Option.filter_some, hsize] using hoff
  · intro h
    by_contra hnot
    rw [showsEnabled_of_notMem_enumerated _ hnot] at h
    cases h

theorem Reachable.eq_of_fold_eq {m n : RegName} (hn : key.Reachable n) (hm : m ∈ key.enumerated)
    (h : fold m = fold n) : m = n := by
  have hmem := key.mem_names_of_mem_enumerated hm
  rcases hn with hn | ⟨hnone, -⟩
  · have hn' := key.mem_names_of_mem_enumerated (key.mem_enumerated_iff.mpr hn)
    exact FoldMap.eq_of_fold_eq hmem hn' h
  · exact absurd h (FoldMap.find?_eq_none_iff.mp hnone m hmem)

/-- A write changes what is shown of no other item. -/
theorem showsEnabled_insert_of_ne {m n : RegName} (hn : key.Reachable n) (hne : m ≠ n)
    (v : RegValue) : showsEnabled (key.insert n v) m = key.showsEnabled m := by
  have hmem : m ∈ enumerated (key.insert n v) ↔ m ∈ key.enumerated := by
    rw [enumerated, FoldMap.names_insert]
    split_ifs
    · rfl
    · exact mem_enumerateFrom_concat_of_ne hne
  by_cases hm : m ∈ key.enumerated
  · have hfold : fold m ≠ fold n := fun h => hne (hn.eq_of_fold_eq key hm h)
    rw [showsEnabled_of_mem_enumerated _ hm, showsEnabled_of_mem_enumerated _ (hmem.mpr hm),
      FoldMap.find?_insert_of_ne _ _ hfold]
  · rw [showsEnabled_of_notMem_enumerated _ hm,
      showsEnabled_of_notMem_enumerated _ (hmem.not.mpr hm)]

theorem showsEnabled_erase_self (n : RegName) : showsEnabled (key.erase n) n = true := by
  refine showsEnabled_of_notMem_enumerated _ fun h => ?_
  have hmem := mem_names_of_mem_enumerated _ h
  exact FoldMap.find?_eq_none_iff.mp (key.find?_erase_self n) n hmem rfl

/-- A deletion changes what is shown of no other item that is reachable. -/
theorem showsEnabled_erase_of_ne {m n : RegName} (hn : key.Reachable n) (hm : key.Reachable m)
    (hne : m ≠ n) : showsEnabled (key.erase n) m = key.showsEnabled m := by
  rcases hm with hmem | ⟨hnone, -⟩
  · rw [← mem_enumerated_iff] at hmem
    have hfold : fold m ≠ fold n := fun h => hne (hn.eq_of_fold_eq key hmem h)
    have hmem' : m ∈ enumerated (key.erase n) := by
      rw [enumerated, FoldMap.names_erase]
      exact mem_enumerateFrom_filter le_rfl (by simpa using hfold) hmem
    rw [showsEnabled_of_mem_enumerated _ hmem, showsEnabled_of_mem_enumerated _ hmem',
      FoldMap.find?_erase_of_ne _ hfold]
  · have hnot : m ∉ key.names := fun h => FoldMap.find?_eq_none_iff.mp hnone m h rfl
    have hnot' : m ∉ (key.erase n).names := by
      rw [FoldMap.names_erase]
      exact fun h => hnot (List.mem_filter.mp h).1
    rw [showsEnabled_of_notMem_enumerated _ fun h => hnot (mem_names_of_mem_enumerated _ h),
      showsEnabled_of_notMem_enumerated _ fun h => hnot' (mem_names_of_mem_enumerated _ h)]

/-- **What is shown of a reachable item is what the system says, unless the entry disables the item
with more data than are read.** -/
theorem Reachable.showsEnabled_eq_iff {n : RegName} (hn : key.Reachable n) :
    key.showsEnabled n = key.saysEnabled n ↔
      ∀ e, key.find? n = some e → approvalSaysEnabled (some e.2.data) = false →
        e.2.data.length ≤ DATA_BUFFER := by
  rcases hn with hmem | ⟨hnone, -⟩
  · rw [← mem_enumerated_iff] at hmem
    rw [showsEnabled_of_mem_enumerated _ hmem, saysEnabled]
    obtain ⟨e, he, rfl⟩ := List.mem_map.mp (key.mem_names_of_mem_enumerated hmem)
    rw [FoldMap.find?_name he]
    by_cases hsize : e.2.data.length ≤ DATA_BUFFER
    · simp [Option.filter_some, hsize]
    · cases hsays : approvalSaysEnabled (some e.2.data) <;>
        simp [Option.filter_some, hsize, hsays]
  · have hnot : n ∉ key.names := fun h => FoldMap.find?_eq_none_iff.mp hnone n h rfl
    rw [showsEnabled_of_notMem_enumerated _ fun h => hnot (key.mem_names_of_mem_enumerated h),
      saysEnabled, hnone]
    simp

end RegKey

end Taskman
