import Taskman.Metering.Total
import Mathlib.Algebra.BigOperators.Group.List.Lemmas
import Mathlib.Algebra.Order.BigOperators.Group.List

/-!
# Capped tallies

Counting how often each key of a list occurs, in counters that stop at a cap.  A capped sum of
capped counters is the capped number of what was counted, whatever the order of the additions.

* `Tally.addUpTo` : addition that stops at the cap;
* `Tally.Of` : a map that holds the capped number of occurrences of each key of a list;
* `Tally.Of.sum_filter` : **the counters of some of the keys add up to the capped number of those
  occurrences**;
* `Tally.getElem?_foldl_modify` : a loop that adds each entry to the counter of its slot;
* `Tally.sum_countP_le` : exclusive conditions share out the elements of a list.
-/

namespace Tally

/-! ### Capped addition -/

/-- Addition that stops at `cap`. -/
def addUpTo (cap a b : ℕ) : ℕ := min (a + b) cap

theorem addUpTo_le (cap a b : ℕ) : addUpTo cap a b ≤ cap := min_le_right _ _

/-- A loop of capped additions. -/
theorem foldl_addUpTo {α : Type*} {cap : ℕ} (g : α → ℕ) (l : List α) {a : ℕ} (ha : a ≤ cap) :
    l.foldl (fun acc x => addUpTo cap acc (g x)) a = min (a + (l.map g).sum) cap := by
  induction l generalizing a with
  | nil => exact (min_eq_left ha).symm
  | cons x l ih =>
    rw [List.foldl_cons, ih (addUpTo_le cap a (g x)), List.map_cons, List.sum_cons]
    unfold addUpTo
    omega

theorem min_sum_map_min {α : Type*} (cap : ℕ) (g : α → ℕ) (l : List α) :
    min (l.map fun x => min (g x) cap).sum cap = min (l.map g).sum cap := by
  induction l with
  | nil => rfl
  | cons x l ih =>
    rw [List.map_cons, List.map_cons, List.sum_cons, List.sum_cons]
    omega

/-! ### Counting into a map -/

section

variable {κ : Type*} [Ord κ] [Std.TransOrd κ] [DecidableEq κ] {cap : ℕ}

/-- The map holds the number of occurrences of each key of `l`, up to the cap. -/
def Of (cap : ℕ) (m : OrdMap κ ℕ) (l : List κ) : Prop :=
  ∀ k : κ, m[k]? = if k ∈ l then some (min (l.count k) cap) else none

theorem Of.empty : Of cap (∅ : OrdMap κ ℕ) [] := fun k => by
  rw [Std.ExtTreeMap.getElem?_empty, if_neg List.not_mem_nil]

theorem Of.getD {m : OrdMap κ ℕ} {l : List κ} (h : Of cap m l) (k : κ) :
    m[k]?.getD 0 = min (l.count k) cap := by
  rw [h k]
  split_ifs with hk
  · rfl
  · rw [List.count_eq_zero_of_not_mem hk]
    exact (Nat.zero_min _).symm

variable [Std.LawfulEqOrd κ]

/-- One more occurrence of a key. -/
theorem Of.concat {m : OrdMap κ ℕ} {l : List κ} (h : Of cap m l) (k : κ) :
    Of cap (m.alter k fun count => some (addUpTo cap (count.getD 0) 1)) (l ++ [k]) := by
  intro j
  rw [OrdMap.getElem?_alter]
  by_cases hj : k = j
  · subst hj
    have hcount : (l ++ [k]).count k = l.count k + 1 := by
      rw [List.count_append, List.count_singleton_self]
    rw [if_pos rfl, if_pos List.mem_concat_self, h.getD, hcount]
    refine congrArg some ?_
    unfold addUpTo
    omega
  · have hcount : (l ++ [k]).count j = l.count j := by
      have hnot : j ∉ [k] := List.mem_singleton.not.mpr (Ne.symm hj)
      rw [List.count_append, List.count_eq_zero_of_not_mem hnot, Nat.add_zero]
    have hmem : j ∈ l ++ [k] ↔ j ∈ l := by
      rw [List.mem_append, List.mem_singleton, or_iff_left (Ne.symm hj)]
    rw [if_neg hj, h j, hcount]
    exact if_congr hmem.symm rfl rfl

/-- The entries of a tally, up to their order. -/
theorem Of.toList_perm {m : OrdMap κ ℕ} {l : List κ} (h : Of cap m l) :
    m.toList.Perm (l.dedup.map fun k => (k, min (l.count k) cap)) := by
  have hnodup : (l.dedup.map fun k => (k, min (l.count k) cap)).Nodup :=
    (List.nodup_dedup l).map fun j k hjk => congrArg Prod.fst hjk
  rw [List.perm_ext_iff_of_nodup (OrdMap.nodup_toList m) hnodup]
  rintro ⟨k, n⟩
  rw [Std.ExtTreeMap.mem_toList_iff_getElem?_eq_some, h k, List.mem_map]
  simp only [List.mem_dedup, Prod.mk.injEq]
  constructor
  · intro hn
    split_ifs at hn with hk
    exact ⟨k, hk, rfl, Option.some.inj hn⟩
  · rintro ⟨j, hj, rfl, rfl⟩
    rw [if_pos hj]

/-- **The counters of some of the keys add up to the number of those occurrences**, up to the
cap. -/
theorem Of.sum_filter {m : OrdMap κ ℕ} {l : List κ} (h : Of cap m l) {entries : List (κ × ℕ)}
    (hperm : entries.Perm m.toList) (p : κ → Bool) :
    (entries.filter fun e => p e.1).foldl (fun acc e => addUpTo cap acc e.2) 0 =
      min (l.countP p) cap := by
  have hsum : ((entries.filter fun e => p e.1).map Prod.snd).sum =
      ((l.dedup.filter p).map fun k => min (l.count k) cap).sum := by
    rw [(((hperm.trans h.toList_perm).filter _).map _).sum_eq, List.filter_map, List.map_map]
    rfl
  rw [foldl_addUpTo Prod.snd _ (Nat.zero_le cap), Nat.zero_add, hsum, min_sum_map_min,
    List.sum_map_count_dedup_filter_eq_countP]

end

/-! ### Counting into slots -/

/-- What a loop leaves in one slot, when each turn changes the slot its entry names, if any. -/
theorem getElem?_foldl_modify {α β : Type*} (slot : α → Option ℕ) (f : β → α → β) (l : List α)
    (slots : List β) (i : ℕ) :
    (l.foldl (fun slots a =>
        match slot a with
        | some j => slots.modify j fun b => f b a
        | none => slots) slots)[i]? =
      slots[i]?.map fun b => (l.filter fun a => slot a = some i).foldl f b := by
  induction l generalizing slots with
  | nil => exact Option.map_id'.symm
  | cons a l ih =>
    rw [List.foldl_cons, ih]
    cases hslot : slot a with
    | none => simp [hslot]
    | some j =>
      by_cases hj : j = i
      · subst hj
        cases hget : slots[j]? <;> simp [hslot, hget]
      · simp [hslot, hj]

/-- Conditions of which no two hold of one element do not count more elements than there are. -/
theorem sum_countP_le {α β : Type*} {P : β → α → Bool} {bs : List β}
    (hexcl : bs.Pairwise fun b c => ∀ a, P b a → ¬P c a) (l : List α) :
    (bs.map fun b => l.countP (P b)).sum ≤ l.length := by
  induction bs generalizing l with
  | nil => exact Nat.zero_le _
  | cons b bs ih =>
    obtain ⟨hb, hbs⟩ := List.pairwise_cons.mp hexcl
    -- the other conditions count among the elements `b` does not
    have hrest : bs.map (fun c => l.countP (P c)) =
        bs.map fun c => (l.filter fun a => !P b a).countP (P c) := by
      refine List.map_congr_left fun c hc => ?_
      rw [List.countP_filter]
      refine List.countP_congr fun a _ => ?_
      have hbc := hb c hc a
      cases hPb : P b a <;> simp_all
    have hle := ih hbs (l.filter fun a => !P b a)
    have hlen := List.length_eq_countP_add_countP (P b) (l := l)
    rw [List.map_cons, List.sum_cons, hrest]
    rw [← List.countP_eq_length_filter] at hle
    have hnot : l.countP (fun a => !P b a) = l.countP fun a => decide ¬P b a = true :=
      List.countP_congr fun a _ => by cases P b a <;> simp
    omega

end Tally
