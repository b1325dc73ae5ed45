import Taskman.Text.Basic
import Mathlib.Algebra.BigOperators.Group.List.Basic

/-!
# Totals over a map

The total of a measure over the entries of a map, and what the map's operations do to it.

* `OrdMap.total_eq_add_erase` : the total splits into the entry under one key and the rest;
* `OrdMap.total_alter` : **replacing one entry changes the total by that entry alone**;
* `OrdMap.total_filter_add` : the entries kept and the entries dropped share the total.
-/

namespace OrdMap

variable {κ ν : Type*} [Ord κ] [Std.TransOrd κ]

/-- The sum of a measure over the entries of a map. -/
def total (f : κ → ν → ℕ) (m : OrdMap κ ν) : ℕ := (m.toList.map fun p => f p.1 p.2).sum

@[simp] theorem total_empty (f : κ → ν → ℕ) : total f (∅ : OrdMap κ ν) = 0 := by
  rw [total, Std.ExtTreeMap.toList_eq_nil_iff.mpr rfl]
  rfl

theorem total_filter_add (f : κ → ν → ℕ) (p : κ → ν → Bool) (m : OrdMap κ ν) :
    total f (m.filter p) + total f (m.filter fun k v => !p k v) = total f m := by
  have hperm := List.filter_append_perm (fun a : κ × ν => p a.1 a.2) m.toList
  rw [total, total, total, Std.ExtTreeMap.toList_filter, Std.ExtTreeMap.toList_filter,
    ← List.sum_append, ← List.map_append, (hperm.map _).sum_eq]

variable [Std.LawfulEqOrd κ]

theorem nodup_toList (m : OrdMap κ ν) : m.toList.Nodup := by
  refine Std.ExtTreeMap.distinct_keys_toList.imp ?_
  rintro p q h rfl
  exact h (Std.ReflOrd.compare_self)

theorem nodup_keys_toList (m : OrdMap κ ν) : (m.toList.map Prod.fst).Nodup := by
  rw [List.nodup_iff_pairwise_ne, List.pairwise_map]
  exact Std.ExtTreeMap.distinct_keys_toList.imp fun h he => h (Std.compare_eq_iff_eq.mpr he)

/-- The entry under a key, moved to the front. -/
theorem perm_cons_erase [DecidableEq κ] {m : OrdMap κ ν} {k : κ} {v : ν} (h : m[k]? = some v) :
    m.toList.Perm ((k, v) :: (m.erase k).toList) := by
  have hk : (k, v) ∉ (m.erase k).toList := by
    rw [Std.ExtTreeMap.mem_toList_iff_getElem?_eq_some, getElem?_erase, if_pos rfl]
    exact nofun
  rw [List.perm_ext_iff_of_nodup (nodup_toList m) (List.nodup_cons.mpr ⟨hk, nodup_toList _⟩)]
  rintro ⟨j, w⟩
  rw [List.mem_cons, Std.ExtTreeMap.mem_toList_iff_getElem?_eq_some,
    Std.ExtTreeMap.mem_toList_iff_getElem?_eq_some, getElem?_erase]
  by_cases hj : k = j
  · subst hj
    simp [h, eq_comm]
  · simp [hj, Ne.symm hj]

theorem erase_of_getElem?_eq_none [DecidableEq κ] {m : OrdMap κ ν} {k : κ} (h : m[k]? = none) :
    m.erase k = m := by
  refine ext fun j => ?_
  rw [getElem?_erase]
  split_ifs with hj
  · rw [← hj, h]
  · rfl

theorem total_eq_add_erase [DecidableEq κ] (f : κ → ν → ℕ) (m : OrdMap κ ν) (k : κ) :
    total f m = m[k]?.elim 0 (f k) + total f (m.erase k) := by
  cases h : m[k]? with
  | none => rw [erase_of_getElem?_eq_none h, Option.elim_none, zero_add]
  | some v =>
    rw [total, ((perm_cons_erase h).map _).sum_eq, List.map_cons, List.sum_cons]
    rfl

/-- **Replacing the entry under one key** changes the total by that entry alone. -/
theorem total_alter [DecidableEq κ] (f : κ → ν → ℕ) (m : OrdMap κ ν) (k : κ)
    (g : Option ν → Option ν) :
    total f (m.alter k g) + m[k]?.elim 0 (f k) = total f m + (g m[k]?).elim 0 (f k) := by
  have herase : (m.alter k g).erase k = m.erase k := by
    refine ext fun j => ?_
    rw [getElem?_erase, getElem?_erase, getElem?_alter]
    split_ifs <;> rfl
  rw [total_eq_add_erase f (m.alter k g) k, total_eq_add_erase f m k, herase, getElem?_alter,
    if_pos rfl]
  omega

theorem le_total [DecidableEq κ] (f : κ → ν → ℕ) {m : OrdMap κ ν} {k : κ} {v : ν}
    (h : m[k]? = some v) : f k v ≤ total f m := by
  rw [total_eq_add_erase f m k, h]
  exact Nat.le_add_right _ _

/-- The entries under distinct keys are part of the total. -/
theorem sum_map_le_total [DecidableEq κ] (f : κ → ν → ℕ) {keys : List κ} (hnodup : keys.Nodup)
    (m : OrdMap κ ν) : (keys.map fun k => m[k]?.elim 0 (f k)).sum ≤ total f m := by
  induction keys generalizing m with
  | nil => exact Nat.zero_le _
  | cons k keys ih =>
    obtain ⟨hk, hnodup⟩ := List.nodup_cons.mp hnodup
    have hrest : (keys.map fun j => m[j]?.elim 0 (f j)) =
        keys.map fun j => (m.erase k)[j]?.elim 0 (f j) := by
      refine List.map_congr_left fun j hj => ?_
      have hne : k ≠ j := fun heq => hk (heq ▸ hj)
      rw [getElem?_erase, if_neg hne]
    rw [List.map_cons, List.sum_cons, total_eq_add_erase f m k, hrest]
    exact Nat.add_le_add_left (ih hnodup (m.erase k)) _

/-- An entry put in adds at most its own measure. -/
theorem total_insert_le [DecidableEq κ] (f : κ → ν → ℕ) (m : OrdMap κ ν) (k : κ) (v : ν) :
    total f (m.insert k v) ≤ f k v + total f m := by
  have herase : (m.insert k v).erase k = m.erase k := by
    refine ext fun j => ?_
    rw [getElem?_erase, getElem?_erase, getElem?_insert]
    split_ifs <;> rfl
  rw [total_eq_add_erase f (m.insert k v) k, herase, getElem?_insert, if_pos rfl, Option.elim_some]
  refine Nat.add_le_add_left ?_ _
  rw [total_eq_add_erase f m k]
  exact Nat.le_add_left _ _

/-- A map collected from a list measures at most what the list does. -/
theorem total_foldl_insert_le [DecidableEq κ] {ω : Type*} (f : κ → ν → ℕ) (key : ω → κ)
    (val : ω → ν) (l : List ω) (m : OrdMap κ ν) :
    total f (l.foldl (fun m a => m.insert (key a) (val a)) m) ≤
      total f m + (l.map fun a => f (key a) (val a)).sum := by
  induction l generalizing m with
  | nil => exact Nat.le_refl _
  | cons a l ih =>
    have hstep := total_insert_le f m (key a) (val a)
    have hrest := ih (m.insert (key a) (val a))
    rw [List.foldl_cons, List.map_cons, List.sum_cons]
    omega

end OrdMap
