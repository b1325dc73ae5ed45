import Std.Data.ExtTreeMap
import Mathlib.Order.Basic
import Mathlib.Algebra.GroupWithZero.Nat

/-!
# Texts and ordered maps

A text is the list of its characters.  The maps are Lean's extensional tree maps, so two maps are
equal exactly when they look up equally; what a loop over one map does to another is described by
what it does to each key.

* `Text.toAsciiLowercase` : lowering of the ASCII letters;
* `OrdMap` : a map with an ordered key;
* `OrdMap.getElem?_foldl_alter` : **a loop over a map that updates each key's own entry of another
  map**, key by key.
-/

/-- A text, as the list of its characters. -/
abbrev Text := List Char

namespace Text

/-- ASCII letters lowered, every other character unchanged. -/
def toAsciiLowercase (t : Text) : Text := t.map Char.toLower

/-- `str::len`: the length of a text in UTF-8. -/
def utf8Len (t : Text) : ℕ := (t.map fun c => c.utf8Size).sum

end Text

/-- A map with an ordered key, compared by its lookups. -/
abbrev OrdMap (κ ν : Type*) [Ord κ] := Std.ExtTreeMap κ ν compare

namespace OrdMap

variable {κ ν ω : Type*} [Ord κ] [Std.TransOrd κ] [Std.LawfulEqOrd κ]

theorem ext {m n : OrdMap κ ν} (h : ∀ k : κ, m[k]? = n[k]?) : m = n :=
  Std.ExtTreeMap.ext_getElem? fun k => h k

theorem ext_iff {m n : OrdMap κ ν} : m = n ↔ ∀ k : κ, m[k]? = n[k]? := by
  constructor
  · rintro rfl k
    rfl
  · exact ext

theorem isEmpty_eq_false_iff {m : OrdMap κ ν} :
    m.isEmpty = false ↔ ∃ (k : κ) (v : ν), m[k]? = some v := by
  rw [Std.ExtTreeMap.isEmpty_eq_false_iff]
  constructor
  · intro hne
    by_contra hnone
    simp only [not_exists] at hnone
    refine hne (ext fun k => ?_)
    rw [Std.ExtTreeMap.getElem?_empty]
    exact Option.eq_none_iff_forall_not_mem.mpr fun v => hnone k v
  · rintro ⟨k, v, h⟩ rfl
    rw [Std.ExtTreeMap.getElem?_empty] at h
    cases h

theorem getElem?_alter [DecidableEq κ] (m : OrdMap κ ν) (k j : κ) (f : Option ν → Option ν) :
    (m.alter k f)[j]? = if k = j then f m[k]? else m[j]? := by
  rw [Std.ExtTreeMap.getElem?_alter]
  simp only [Std.LawfulEqCmp.compare_eq_iff_eq]

theorem getElem?_insert [DecidableEq κ] (m : OrdMap κ ν) (k j : κ) (v : ν) :
    (m.insert k v)[j]? = if k = j then some v else m[j]? := by
  rw [Std.ExtTreeMap.getElem?_insert]
  simp only [Std.LawfulEqCmp.compare_eq_iff_eq]

theorem getElem?_erase [DecidableEq κ] (m : OrdMap κ ν) (k j : κ) :
    (m.erase k)[j]? = if k = j then none else m[j]? := by
  rw [Std.ExtTreeMap.getElem?_erase]
  simp only [Std.LawfulEqCmp.compare_eq_iff_eq]

theorem getElem?_insertIfNew [DecidableEq κ] (m : OrdMap κ ν) (k j : κ) (v : ν) :
    (m.insertIfNew k v)[j]? = if k = j then some (m[j]?.getD v) else m[j]? := by
  rw [Std.ExtTreeMap.getElem?_insertIfNew]
  by_cases h : k = j
  · subst h
    cases hm : m[k]? <;> simp [Std.ExtTreeMap.mem_iff_isSome_getElem?, hm]
  · simp [h]

/-- What holds of all entries still does after a valid insertion. -/
theorem forall_getElem?_insert [DecidableEq κ] {m : OrdMap κ ν} {P : κ → ν → Prop}
    (h : ∀ (k : κ) (v : ν), m[k]? = some v → P k v) {j : κ} {w : ν} (hw : P j w) :
    ∀ (k : κ) (v : ν), (m.insert j w)[k]? = some v → P k v := by
  intro k v hv
  rw [getElem?_insert] at hv
  split_ifs at hv with hj
  · subst hj
    obtain rfl := Option.some.inj hv
    exact hw
  · exact h k v hv

/-- What a loop of insertions leaves under a key, if no key is inserted with two values. -/
theorem getElem?_foldl_insert_iff [DecidableEq κ] {l : List (κ × ν)}
    (hfun : ∀ p ∈ l, ∀ q ∈ l, p.1 = q.1 → p.2 = q.2) (m : OrdMap κ ν) {k : κ} {v : ν} :
    (l.foldl (fun m p => m.insert p.1 p.2) m)[k]? = some v ↔
      (k, v) ∈ l ∨ (∀ p ∈ l, p.1 ≠ k) ∧ m[k]? = some v := by
  induction l generalizing m with
  | nil => simp
  | cons p l ih =>
    rcases p with ⟨j, w⟩
    have htail := ih (fun p hp q hq => hfun p (List.mem_cons_of_mem _ hp) q
      (List.mem_cons_of_mem _ hq)) (m.insert j w)
    rw [List.foldl_cons, htail, getElem?_insert]
    by_cases hj : j = k
    · subst hj
      by_cases hl : ∃ v', (j, v') ∈ l
      · -- a later insertion under the same key has the same value
        obtain ⟨v', hv'⟩ := hl
        have hw : w = v' := hfun _ List.mem_cons_self _ (List.mem_cons_of_mem _ hv') rfl
        simp only [if_pos, List.mem_cons, Prod.mk.injEq, true_and, Option.some.injEq]
        constructor
        · rintro (h | ⟨h, -⟩)
          · exact Or.inl (Or.inr h)
          · exact absurd rfl (h _ hv')
        · rintro ((h | h) | ⟨h, -⟩)
          · exact Or.inl (by rw [h, hw]; exact hv')
          · exact Or.inl h
          · exact absurd rfl (h (j, w) (Or.inl rfl))
      · have hnone : ∀ p ∈ l, p.1 ≠ j := by
          rintro ⟨k', v'⟩ hp rfl
          exact hl ⟨v', hp⟩
        simp only [if_pos, List.mem_cons, Prod.mk.injEq, true_and, Option.some.injEq]
        constructor
        · rintro (h | ⟨-, h⟩)
          · exact Or.inl (Or.inr h)
          · exact Or.inl (Or.inl h.symm)
        · rintro ((h | h) | ⟨h, -⟩)
          · exact Or.inr ⟨hnone, h.symm⟩
          · exact Or.inl h
          · exact absurd rfl (h (j, w) (Or.inl rfl))
    · simp [hj, Ne.symm hj]

theorem getElem?_foldl_insert_empty_iff [DecidableEq κ] {l : List (κ × ν)}
    (hfun : ∀ p ∈ l, ∀ q ∈ l, p.1 = q.1 → p.2 = q.2) {k : κ} {v : ν} :
    (l.foldl (fun m p => m.insert p.1 p.2) (∅ : OrdMap κ ν))[k]? = some v ↔ (k, v) ∈ l := by
  rw [getElem?_foldl_insert_iff hfun, Std.ExtTreeMap.getElem?_empty]
  simp

theorem foldl_alter_of_notMem [DecidableEq κ] (f : κ → ω → Option ν → Option ν)
    (kvs : List (κ × ω)) (m : OrdMap κ ν) {k : κ} (h : ∀ p ∈ kvs, p.1 ≠ k) :
    (kvs.foldl (fun m p => m.alter p.1 (f p.1 p.2)) m)[k]? = m[k]? := by
  induction kvs generalizing m with
  | nil => rfl
  | cons p kvs ih =>
    rw [List.foldl_cons, ih _ fun q hq => h q (List.mem_cons_of_mem p hq), getElem?_alter,
      if_neg (h p List.mem_cons_self)]

theorem foldl_alter_of_mem [DecidableEq κ] (f : κ → ω → Option ν → Option ν)
    {kvs : List (κ × ω)} (hd : kvs.Pairwise fun p q => p.1 ≠ q.1) (m : OrdMap κ ν) {k : κ} {w : ω}
    (h : (k, w) ∈ kvs) :
    (kvs.foldl (fun m p => m.alter p.1 (f p.1 p.2)) m)[k]? = f k w m[k]? := by
  induction kvs generalizing m with
  | nil => cases h
  | cons p kvs ih =>
    obtain ⟨hp, hd⟩ := List.pairwise_cons.mp hd
    rw [List.foldl_cons]
    rcases List.mem_cons.mp h with rfl | h
    · rw [foldl_alter_of_notMem f kvs _ fun q hq => (hp q hq).symm, getElem?_alter, if_pos rfl]
    · rw [ih hd _ h, getElem?_alter, if_neg (hp _ h)]

/-- **A loop over the map `n` that updates, for each of its keys, the entry of the map `m` under
the same key.** -/
theorem getElem?_foldl_alter [DecidableEq κ] (f : κ → ω → Option ν → Option ν) (n : OrdMap κ ω)
    (m : OrdMap κ ν) (k : κ) :
    (n.foldl (fun m k w => m.alter k (f k w)) m)[k]? =
      match n[k]? with
      | some w => f k w m[k]?
      | none => m[k]? := by
  rw [Std.ExtTreeMap.foldl_eq_foldl_toList]
  cases hn : n[k]? with
  | some w =>
    refine foldl_alter_of_mem f ?_ m (Std.ExtTreeMap.mem_toList_iff_getElem?_eq_some.mpr hn)
    exact Std.ExtTreeMap.distinct_keys_toList.imp fun h => by simpa using h
  | none =>
    refine foldl_alter_of_notMem f _ m ?_
    rintro ⟨j, w⟩ hp rfl
    rw [Std.ExtTreeMap.mem_toList_iff_getElem?_eq_some, hn] at hp
    cases hp

end OrdMap
