import Taskman.Core.Settings.Widths

/-!
# Settings as preferences

Settings are the fields of the general section and what they say about tables, columns and rules.
The second part is a set of preferences: adding one replaces what was said in its slot.

* `Slot` : what a preference is about;
* `Settings.Says` : the preferences that hold;
* `says_foldl_addPreference` : **what a loop of additions leaves**;
* `ext_of_says` : settings are determined by their general fields and their preferences.
-/

namespace Taskman

namespace Settings

/-! ### Columns of tables -/

/-- What is kept for a column of a table. -/
def column {α : Type} (m : PerColumn α) (table col : Text) : Option α := m[table]?.bind (·[col]?)

section Column

variable {α : Type} {m n : PerColumn α} {table col : Text} {v : α}

theorem column_eq_some_iff :
    column m table col = some v ↔ ∃ cols, m[table]? = some cols ∧ cols[col]? = some v :=
  Option.bind_eq_some_iff

theorem column_empty : column (∅ : PerColumn α) table col = none := by
  rw [column, Std.ExtTreeMap.getElem?_empty, Option.bind_none]

theorem column_insertColumn (t c : Text) :
    column (insertColumn m table col v) t c =
      if table = t ∧ col = c then some v else column m t c := by
  unfold column insertColumn
  rw [OrdMap.getElem?_alter]
  by_cases ht : table = t
  · subst ht
    rw [if_pos rfl, Option.bind_some, OrdMap.getElem?_insert]
    by_cases hc : col = c
    · rw [if_pos hc, if_pos ⟨rfl, hc⟩]
    · rw [if_neg hc, if_neg fun h => hc h.2]
      cases m[table]? with
      | none => rw [Option.getD_none, Std.ExtTreeMap.getElem?_empty, Option.bind_none]
      | some cols => rw [Option.getD_some, Option.bind_some]
  · rw [if_neg ht, if_neg fun h => ht h.1]

theorem All.of_column {P : Text → Text → α → Prop} (h : All m P)
    (hv : column m table col = some v) : P table col v := by
  obtain ⟨cols, htable, hcol⟩ := column_eq_some_iff.mp hv
  exact (h table cols htable).2 col v hcol

/-- Without empty tables, what is kept for each column is all there is. -/
theorem eq_of_column {P Q : Text → Text → α → Prop} (hm : All m P) (hn : All n Q)
    (h : ∀ t c v, column m t c = some v ↔ column n t c = some v) : m = n := by
  -- a table of one map is there in the other, since it has some column
  have hle : ∀ {m n : PerColumn α} {P : Text → Text → α → Prop}, All m P →
      (∀ t c v, column m t c = some v → column n t c = some v) →
      ∀ (t : Text) (cols : OrdMap Text α), m[t]? = some cols → ∃ cols', n[t]? = some cols' := by
    intro m n P hm hle t cols hcols
    obtain ⟨c, v, hv⟩ := OrdMap.isEmpty_eq_false_iff.mp (hm t cols hcols).1
    obtain ⟨cols', hcols', -⟩ :=
      column_eq_some_iff.mp (hle t c v (column_eq_some_iff.mpr ⟨cols, hcols, hv⟩))
    exact ⟨cols', hcols'⟩
  refine OrdMap.ext fun t => ?_
  cases hmt : m[t]? with
  | none =>
    cases hnt : n[t]? with
    | none => rfl
    | some cols =>
      obtain ⟨cols', hcols'⟩ := hle hn (fun t c v => (h t c v).mpr) t cols hnt
      rw [hmt] at hcols'
      cases hcols'
  | some cols =>
    obtain ⟨cols', hnt⟩ := hle hm (fun t c v => (h t c v).mp) t cols hmt
    rw [hnt, Option.some.injEq]
    refine OrdMap.ext fun c => Option.ext fun v => ?_
    have hc := h t c v
    rw [column, column, hmt, hnt, Option.bind_some, Option.bind_some] at hc
    exact hc

end Column

/-! ### Preferences -/

/-- What a preference is about. -/
inductive Slot where
  | sort (table : Text)
  | rule (path : Text)
  | visible (table col : Text)
  | order (table : Text)
  | width (table col : Text)
  deriving DecidableEq

/-- The part of the settings a preference sets. -/
def Preference.slot : Preference → Slot
  | .sort table _ => .sort table
  | .rule path _ => .rule path
  | .visible table col _ => .visible table col
  | .order table _ => .order table
  | .width table col _ => .width table col

/-- A preference holds in these settings. -/
def Says (s : Settings) : Preference → Prop
  | .sort table preference => s.tableSort[table]? = some preference
  | .rule path r => s.processRules[path]? = some r
  | .visible table col on => column s.colVisible table col = some on
  | .order table ids => s.colOrder[table]? = some ids
  | .width table col w => column s.colWidths table col = some w

theorem Says.eq_of_slot_eq {s : Settings} {p q : Preference} (hp : s.Says p) (hq : s.Says q)
    (h : p.slot = q.slot) : p = q := by
  cases p <;> cases q <;> cases h <;> unfold Says at hp hq <;> dsimp only at hp hq <;>
    rw [hp] at hq <;> cases hq <;> rfl

theorem says_addPreference {s : Settings} {p q : Preference} :
    (s.addPreference q).Says p ↔ p = q ∨ q.slot ≠ p.slot ∧ s.Says p := by
  cases q <;> cases p <;>
    simp only [Settings.addPreference, Says, Preference.slot, column_insertColumn,
      OrdMap.getElem?_insert, reduceCtorEq, ne_eq, not_false_eq_true, true_and, false_or,
      Slot.sort.injEq, Slot.rule.injEq, Slot.visible.injEq, Slot.order.injEq, Slot.width.injEq,
      Preference.sort.injEq, Preference.rule.injEq, Preference.visible.injEq,
      Preference.order.injEq, Preference.width.injEq] <;>
    split_ifs with h <;> grind

/-- **What a loop of additions leaves**, if no two of them are about the same slot. -/
theorem says_foldl_addPreference {ps : List Preference} {s : Settings}
    (hfun : ∀ p ∈ ps, ∀ q ∈ ps, p.slot = q.slot → p = q) (hs : ∀ p, ¬ s.Says p) {p : Preference} :
    (ps.foldl Settings.addPreference s).Says p ↔ p ∈ ps := by
  induction ps using List.reverseRecOn generalizing p with
  | nil => simp [hs]
  | append_singleton ps q ih =>
    have hih := ih (fun a ha b hb => hfun a (List.mem_append_left _ ha) b
      (List.mem_append_left _ hb)) (p := p)
    rw [List.foldl_append, List.foldl_cons, List.foldl_nil, says_addPreference, hih,
      List.mem_append, List.mem_singleton]
    constructor
    · rintro (h | ⟨-, h⟩)
      · exact Or.inr h
      · exact Or.inl h
    · rintro (h | h)
      · -- an addition to the same slot says the same
        by_cases hslot : q.slot = p.slot
        · exact Or.inl (hfun p (List.mem_append_left _ h) q
            (List.mem_append_right _ (List.mem_singleton_self q)) hslot.symm)
        · exact Or.inr ⟨hslot, h⟩
      · exact Or.inl h

/-! ### The fields of the general section -/

/-- The settings without their preferences. -/
def bare (s : Settings) : Settings :=
  { s with colWidths := ∅, colVisible := ∅, colOrder := ∅, tableSort := ∅, processRules := ∅ }

theorem bare_foldl_addPreference (ps : List Preference) (s : Settings) :
    (ps.foldl Settings.addPreference s).bare = s.bare := by
  induction ps generalizing s with
  | nil => rfl
  | cons p ps ih =>
    rw [List.foldl_cons, ih]
    cases p <;> rfl

/-- **Settings are their general fields and their preferences.** -/
theorem ext_of_says {s t : Settings} (hs : s.LoadedTables) (ht : t.LoadedTables)
    (hbare : s.bare = t.bare) (h : ∀ p, s.Says p ↔ t.Says p) : s = t := by
  have hwidths : s.colWidths = t.colWidths :=
    eq_of_column hs.widths ht.widths fun table col w => h (.width table col w)
  have hvisible : s.colVisible = t.colVisible :=
    eq_of_column hs.visible ht.visible fun table col on => h (.visible table col on)
  have horder : s.colOrder = t.colOrder :=
    OrdMap.ext fun table => Option.ext fun ids => h (.order table ids)
  have hsort : s.tableSort = t.tableSort :=
    OrdMap.ext fun table => Option.ext fun preference => h (.sort table preference)
  have hrules : s.processRules = t.processRules :=
    OrdMap.ext fun path => Option.ext fun r => h (.rule path r)
  cases s
  cases t
  simp only [bare, Settings.mk.injEq] at hbare
  simp only at hwidths hvisible horder hsort hrules
  simp only [hwidths, hvisible, horder, hsort, hrules, hbare]

/-! ### Rounded widths -/

/-- The settings with every width as the saved text gives it. -/
def roundWidths (s : Settings) : Settings :=
  { s with colWidths := s.colWidths.map fun _ cols => cols.map fun _ w => roundWidth w }

theorem column_roundWidths {s : Settings} {table col : Text} :
    column s.roundWidths.colWidths table col =
      (column s.colWidths table col).map roundWidth := by
  unfold column roundWidths
  rw [Std.ExtTreeMap.getElem?_map]
  cases s.colWidths[table]? with
  | none => rfl
  | some cols =>
    rw [Option.map_some, Option.bind_some, Option.bind_some, Std.ExtTreeMap.getElem?_map]

theorem LoadedTables.roundWidths {s : Settings} (h : s.LoadedTables) :
    s.roundWidths.LoadedTables := by
  refine { h with widths := fun table cols htable => ?_ }
  unfold Settings.roundWidths at htable
  rw [Std.ExtTreeMap.getElem?_map, Option.map_eq_some_iff] at htable
  obtain ⟨cols, hcols, rfl⟩ := htable
  obtain ⟨hne, hall⟩ := h.widths table cols hcols
  constructor
  · obtain ⟨col, w, hw⟩ := OrdMap.isEmpty_eq_false_iff.mp hne
    refine OrdMap.isEmpty_eq_false_iff.mpr ⟨col, roundWidth w, ?_⟩
    rw [Std.ExtTreeMap.getElem?_map, hw, Option.map_some]
  · intro col v hv
    rw [Std.ExtTreeMap.getElem?_map, Option.map_eq_some_iff] at hv
    obtain ⟨w, hw, rfl⟩ := hv
    obtain ⟨htable, hkey, hrange⟩ := hall col w hw
    exact ⟨htable, hkey, widthInRange_roundWidth hrange⟩

end Settings

end Taskman
