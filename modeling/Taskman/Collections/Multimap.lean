import Taskman.Collections.Worklist
import Mathlib.Data.List.Count

/-!
# Tables of lists

A table from keys to lists, filled by pushing one item after another under a key.  What a walk over
such a table can still push is bounded by the items under the keys it has not popped.

* `Multimap.get` : the items under a key, in the order they were pushed;
* `Multimap.ofLinks` : the items of a list under the keys a function gives them;
* `Multimap.unfollowed` : the items under the keys that were not popped;
* `Multimap.budget` : **they bound the pushes of a walk over the table**.
-/

namespace Taskman

/-- A table of lists, as the pushes that filled it. -/
structure Multimap (κ α : Type*) where
  entries : List (κ × α) := []

namespace Multimap

variable {κ α β : Type*} [DecidableEq κ]

/-- The items under a key. -/
def get (m : Multimap κ α) (k : κ) : List α := (m.entries.filter fun e => e.1 = k).map Prod.snd

/-- All items, key by key in some order. -/
def values (m : Multimap κ α) : List α := m.entries.map Prod.snd

/-- `if let Some(k) = parent(a) { m.entry(k).or_default().push(a) }` over a list. -/
def ofLinks (parent : α → Option κ) (l : List α) : Multimap κ α :=
  ⟨l.filterMap fun a => (parent a).map fun k => (k, a)⟩

/-- The items under the keys outside of `seen`. -/
def unfollowed (m : Multimap κ α) (seen : Finset κ) : ℕ := m.entries.countP fun e => e.1 ∉ seen

theorem get_ofLinks (parent : α → Option κ) (l : List α) (k : κ) :
    (ofLinks parent l).get k = l.filter fun a => parent a = some k := by
  induction l with
  | nil => rfl
  | cons a l ih =>
    cases hparent : parent a with
    | none => simpa [get, ofLinks, hparent] using ih
    | some j =>
      by_cases hj : j = k
      · simpa [get, ofLinks, hparent, hj] using ih
      · simpa [get, ofLinks, hparent, hj] using ih

@[simp]
theorem mem_get_ofLinks {parent : α → Option κ} {l : List α} {k : κ} {a : α} :
    a ∈ (ofLinks parent l).get k ↔ a ∈ l ∧ parent a = some k := by
  simp [get_ofLinks]

omit [DecidableEq κ] in
@[simp]
theorem mem_values_ofLinks {parent : α → Option κ} {l : List α} {a : α} :
    a ∈ (ofLinks parent l).values ↔ a ∈ l ∧ (parent a).isSome = true := by
  simp only [values, ofLinks, List.mem_map, List.mem_filterMap, Option.map_eq_some_iff,
    Option.isSome_iff_exists]
  constructor
  · rintro ⟨_, ⟨b, hb, k, hk, rfl⟩, rfl⟩
    exact ⟨hb, k, hk⟩
  · rintro ⟨ha, k, hk⟩
    exact ⟨(k, a), ⟨a, ha, k, hk, rfl⟩, rfl⟩

omit [DecidableEq κ] in
theorem length_ofLinks_le (parent : α → Option κ) (l : List α) :
    (ofLinks parent l).entries.length ≤ l.length :=
  List.length_filterMap_le _ _

/-- Popping a key follows the items under it. -/
theorem unfollowed_insert (m : Multimap κ α) {seen : Finset κ} {k : κ} (hk : k ∉ seen) :
    m.unfollowed (insert k seen) + (m.get k).length = m.unfollowed seen := by
  unfold unfollowed get
  rw [List.length_map, ← List.countP_eq_length_filter]
  induction m.entries with
  | nil => rfl
  | cons e entries ih =>
    simp only [Finset.mem_insert, List.countP_cons] at ih ⊢
    by_cases heq : e.1 = k
    · simp only [heq, hk, true_or, not_true, not_false_eq_true, decide_true, decide_false,
        if_true, Bool.false_eq_true, if_false]
      omega
    · by_cases hseen : e.1 ∈ seen
      · simp only [heq, hseen, or_true, not_true, decide_false, Bool.false_eq_true, if_false]
        omega
      · simp only [heq, hseen, or_self, not_false_eq_true, decide_true, decide_false, if_true,
          Bool.false_eq_true, if_false]
        omega

theorem unfollowed_le (m : Multimap κ α) (seen : Finset κ) :
    m.unfollowed seen ≤ m.entries.length :=
  List.countP_le_length

theorem unfollowed_anti (m : Multimap κ α) {seen seen' : Finset κ} (h : seen ⊆ seen') :
    m.unfollowed seen' ≤ m.unfollowed seen :=
  List.countP_mono_left fun e _ he => by
    have hnot : e.1 ∉ seen' := of_decide_eq_true he
    exact decide_eq_true fun hmem => hnot (h hmem)

/-- **A walk that pushes items under the key it pops stays within the table.** -/
theorem budget (m : Multimap κ α) (key : β → κ) (kids : β → List β)
    (hkids : ∀ b, (kids b).length ≤ (m.get (key b)).length) :
    Worklist.Budget key kids m.unfollowed := by
  intro seen b hb
  have hpay := m.unfollowed_insert hb
  have hle := hkids b
  omega

/-! ### Linked items -/

section Linked

variable {key : α → κ} {parent : α → Option κ} {l : List α}

/-- One item of a list is linked under another. -/
def Linked (key : α → κ) (parent : α → Option κ) (l : List α) (a b : α) : Prop :=
  a ∈ l ∧ b ∈ l ∧ parent b = some (key a)

omit [DecidableEq κ] in
theorem eq_of_key (hl : (l.map key).Nodup) {a b : α} (ha : a ∈ l) (hb : b ∈ l)
    (h : key a = key b) : a = b :=
  List.inj_on_of_nodup_map hl ha hb h

omit [DecidableEq κ] in
theorem leftUnique_linked (hl : (l.map key).Nodup) :
    Relator.LeftUnique (Linked key parent l) := by
  intro a b c hac hbc
  exact eq_of_key hl hac.1 hbc.1 (Option.some.inj (hac.2.2.symm.trans hbc.2.2))

/-- The keys under a key. -/
def next (key : α → κ) (m : Multimap κ α) (k : κ) : List κ := (m.get k).map key

theorem exists_linked_of_reach {a : α} (ha : a ∈ l) {k : κ}
    (h : Worklist.Reach ((ofLinks parent l).next key) (key a) k) :
    ∃ x ∈ l, key x = k ∧ Relation.ReflTransGen (Linked key parent l) a x := by
  induction h with
  | refl => exact ⟨a, ha, rfl, Relation.ReflTransGen.refl⟩
  | tail _ hstep ih =>
    obtain ⟨y, hy, rfl, hay⟩ := ih
    obtain ⟨z, hz, rfl⟩ := List.mem_map.mp hstep
    obtain ⟨hzl, hparent⟩ := mem_get_ofLinks.mp hz
    exact ⟨z, hzl, rfl, hay.tail ⟨hy, hzl, hparent⟩⟩

/-- **What a walk over the table reaches is what is linked, directly or not, under its start.** -/
theorem reach_next_iff (hl : (l.map key).Nodup) {a x : α} (ha : a ∈ l) (hx : x ∈ l) :
    Worklist.Reach ((ofLinks parent l).next key) (key a) (key x) ↔
      Relation.ReflTransGen (Linked key parent l) a x := by
  constructor
  · intro h
    obtain ⟨y, hy, hkey, hay⟩ := exists_linked_of_reach ha h
    rwa [eq_of_key hl hx hy hkey.symm]
  · intro h
    induction h with
    | refl => exact Relation.ReflTransGen.refl
    | @tail y z _ hstep ih =>
      exact (ih hstep.1).tail (List.mem_map_of_mem (mem_get_ofLinks.mpr ⟨hstep.2.1, hstep.2.2⟩))

end Linked

end Multimap

end Taskman
