import Mathlib.Data.List.Nodup

/-!
# Maps that ignore case and keep it

A map whose names are compared after folding: two names that fold alike name one entry.  An entry
keeps the name it was made with, also when it is written under another spelling, and keeps its
place among the entries; a new entry is the last one.

* `FoldMap fold ν` : the entries in order, no two with names that fold alike;
* `FoldMap.find?_insert`, `FoldMap.find?_erase` : what is found after a write and a deletion;
* `FoldMap.names_insert`, `FoldMap.names_erase` : **a write changes no name and no place**.
-/

namespace Taskman

/-- A map whose names are compared after folding. -/
structure FoldMap {κ σ : Type*} (fold : κ → σ) (ν : Type*) where
  entries : List (κ × ν)
  distinct : (entries.map fun e => fold e.1).Nodup

namespace FoldMap

variable {κ σ ν : Type*} {fold : κ → σ}

/-- No entry. -/
def empty : FoldMap fold ν := ⟨[], List.nodup_nil⟩

/-- The names of the entries, in order. -/
def names (m : FoldMap fold ν) : List κ := m.entries.map Prod.fst

theorem distinct_names (m : FoldMap fold ν) : (m.names.map fold).Nodup := by
  rw [names, List.map_map]
  exact m.distinct

theorem eq_of_fold_eq {m : FoldMap fold ν} {j k : κ} (hj : j ∈ m.names) (hk : k ∈ m.names)
    (h : fold j = fold k) : j = k :=
  List.inj_on_of_nodup_map m.distinct_names hj hk h

theorem entry_eq_of_fold_eq {m : FoldMap fold ν} {e f : κ × ν} (he : e ∈ m.entries)
    (hf : f ∈ m.entries) (h : fold e.1 = fold f.1) : e = f :=
  List.inj_on_of_nodup_map m.distinct he hf h

variable [DecidableEq σ]

/-- The entry of a name, whatever its spelling. -/
def find? (m : FoldMap fold ν) (k : κ) : Option (κ × ν) :=
  m.entries.find? fun e => fold e.1 = fold k

/-- The entries once a name is written. -/
def written (m : FoldMap fold ν) (k : κ) (v : ν) : List (κ × ν) :=
  if (m.find? k).isSome then m.entries.map fun e => if fold e.1 = fold k then (e.1, v) else e
  else m.entries ++ [(k, v)]

theorem find?_eq_none_iff {m : FoldMap fold ν} {k : κ} :
    m.find? k = none ↔ ∀ j ∈ m.names, fold j ≠ fold k := by
  simp [find?, names]

theorem find?_eq_some_iff {m : FoldMap fold ν} {k : κ} {e : κ × ν} :
    m.find? k = some e ↔ e ∈ m.entries ∧ fold e.1 = fold k := by
  constructor
  · intro h
    exact ⟨List.mem_of_find?_eq_some h, by simpa using List.find?_some h⟩
  · rintro ⟨he, hfold⟩
    rcases hfind : m.find? k with _ | f
    · exact absurd hfold (find?_eq_none_iff.mp hfind _ (List.mem_map_of_mem he))
    · have hf := List.find?_some hfind
      simp only [decide_eq_true_eq] at hf
      rw [entry_eq_of_fold_eq (List.mem_of_find?_eq_some hfind) he (hf.trans hfold.symm)]

theorem find?_name {m : FoldMap fold ν} {e : κ × ν} (he : e ∈ m.entries) : m.find? e.1 = some e :=
  find?_eq_some_iff.mpr ⟨he, rfl⟩

theorem map_fst_written (m : FoldMap fold ν) (k : κ) (v : ν) :
    (m.written k v).map Prod.fst = if (m.find? k).isSome then m.names else m.names ++ [k] := by
  unfold written
  split_ifs
  · rw [List.map_map, names]
    refine List.map_congr_left fun e _ => ?_
    rw [Function.comp_apply]
    split_ifs <;> rfl
  · simp [names]

/-- The entry of a name written over, or a new one. -/
def insert (m : FoldMap fold ν) (k : κ) (v : ν) : FoldMap fold ν where
  entries := m.written k v
  distinct := by
    have hmap : (m.written k v).map (fun e => fold e.1) = ((m.written k v).map Prod.fst).map fold :=
      (List.map_map ..).symm
    rw [hmap, map_fst_written]
    split_ifs with h
    · exact m.distinct_names
    · rw [Option.not_isSome_iff_eq_none, find?_eq_none_iff] at h
      rw [List.map_append, List.map_singleton, ← List.concat_eq_append]
      refine List.Nodup.concat ?_ m.distinct_names
      rintro hmem
      obtain ⟨j, hj, hfold⟩ := List.mem_map.mp hmem
      exact h j hj hfold

/-- The entry of a name deleted, if there is one. -/
def erase (m : FoldMap fold ν) (k : κ) : FoldMap fold ν where
  entries := m.entries.filter fun e => fold e.1 ≠ fold k
  distinct := m.distinct.sublist (List.filter_sublist.map _)

/-- **A write changes no name and no place.** -/
theorem names_insert (m : FoldMap fold ν) (k : κ) (v : ν) :
    (m.insert k v).names = if (m.find? k).isSome then m.names else m.names ++ [k] :=
  map_fst_written m k v

theorem names_erase (m : FoldMap fold ν) (k : κ) :
    (m.erase k).names = m.names.filter fun j => fold j ≠ fold k := by
  rw [names, names, erase, List.filter_map]
  rfl

theorem find?_insert_self (m : FoldMap fold ν) (k : κ) (v : ν) :
    ∃ j, (m.insert k v).find? k = some (j, v) ∧ fold j = fold k := by
  rcases hfind : m.find? k with _ | e
  · refine ⟨k, find?_eq_some_iff.mpr ⟨?_, rfl⟩, rfl⟩
    simp [insert, written, hfind]
  · obtain ⟨he, hfold⟩ := find?_eq_some_iff.mp hfind
    refine ⟨e.1, find?_eq_some_iff.mpr ⟨?_, hfold⟩, hfold⟩
    simp only [insert, written, hfind, Option.isSome_some, if_true]
    exact List.mem_map.mpr ⟨e, he, by rw [if_pos hfold]⟩

theorem find?_insert_of_ne (m : FoldMap fold ν) {j k : κ} (v : ν) (h : fold j ≠ fold k) :
    (m.insert k v).find? j = m.find? j := by
  have hmem (e : κ × ν) (he : fold e.1 = fold j) :
      e ∈ (m.insert k v).entries ↔ e ∈ m.entries := by
    have hk : fold e.1 ≠ fold k := he ▸ h
    simp only [insert, written]
    split_ifs
    · constructor
      · intro hin
        obtain ⟨f, hf, rfl⟩ := List.mem_map.mp hin
        split_ifs at hk ⊢ with hfk
        · exact absurd hfk hk
        · exact hf
      · intro hin
        exact List.mem_map.mpr ⟨e, hin, if_neg hk⟩
    · rw [List.mem_append, List.mem_singleton, or_iff_left]
      rintro rfl
      exact hk rfl
  refine Option.ext fun e => ?_
  rw [find?_eq_some_iff, find?_eq_some_iff]
  constructor
  · rintro ⟨hin, he⟩
    exact ⟨(hmem e he).mp hin, he⟩
  · rintro ⟨hin, he⟩
    exact ⟨(hmem e he).mpr hin, he⟩

theorem find?_erase_self (m : FoldMap fold ν) (k : κ) : (m.erase k).find? k = none := by
  rw [find?_eq_none_iff, names_erase]
  intro j hj
  simpa using (List.mem_filter.mp hj).2

theorem find?_erase_of_ne (m : FoldMap fold ν) {j k : κ} (h : fold j ≠ fold k) :
    (m.erase k).find? j = m.find? j := by
  refine Option.ext fun e => ?_
  rw [find?_eq_some_iff, find?_eq_some_iff, erase, List.mem_filter, decide_eq_true_iff]
  constructor
  · rintro ⟨⟨hin, -⟩, he⟩
    exact ⟨hin, he⟩
  · rintro ⟨hin, he⟩
    exact ⟨⟨hin, he ▸ h⟩, he⟩

end FoldMap

end Taskman
