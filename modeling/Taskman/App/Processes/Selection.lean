import Taskman.App.Processes.Page

/-!
# What a selection ends

Ending the selected tasks rebuilds the rows of the page: a selected row that is shown collapsed
stands for its whole group, any other selected row for its process, and a selected process that has
no row stands for itself.  What no longer lives is left out.

* `Processes.terminationTargetsForSelection` : the targets, with the names shown for them;
* `Processes.mem_targets_iff` : **a target lives, and is selected or in a collapsed group whose own
  row is selected**;
* `Processes.targets_follow_selection` : what follows for the page.
-/

namespace Taskman

namespace Processes

/-- What the targets of a selection are computed from; one snapshot throughout. -/
structure SelectionInput where
  snapshot : Option Snapshot
  search : Text
  sortCol : ℕ
  ascending : Bool
  expanded : Finset ℕ
  groupCollapsed : ℕ → Bool
  /-- The selected identities. -/
  selection : List ProcessIdentity

/-- Whether an identity matches a running process; an unknown creation time accepts the pid. -/
def identityIsLive (snapshot : Snapshot) (identity : ProcessIdentity) : Bool :=
  (snapshot.process identity.pid).any fun p =>
    !p.synthetic && (p.startEpochS.isNone || decide (p.startEpochS = identity.startEpochS))

theorem identityIsLive_iff {snapshot : Snapshot} {identity : ProcessIdentity} :
    identityIsLive snapshot identity = true ↔
      ∃ p, snapshot.process identity.pid = some p ∧ p.synthetic = false ∧
        (p.startEpochS = none ∨ p.startEpochS = identity.startEpochS) := by
  unfold identityIsLive
  cases snapshot.process identity.pid with
  | none => simp
  | some p => simp

/-- One identity's turn to become a target. -/
def resolveStep (snapshot : Snapshot)
    (s : Finset ProcessIdentity × List (ProcessIdentity × Text)) (identity : ProcessIdentity) :
    Finset ProcessIdentity × List (ProcessIdentity × Text) :=
  if identity ∈ s.1 then s
  else if !identityIsLive snapshot identity then (insert identity s.1, s.2)
  else
    match (snapshot.process identity.pid).filter fun p => !p.synthetic with
    | none => (insert identity s.1, s.2)
    | some process => (insert identity s.1, s.2 ++ [(identity, process.shownName)])

/-- The processes of some identities that still run, each once. -/
def resolveTerminationTargets (snapshot : Option Snapshot) (identities : List ProcessIdentity) :
    List (ProcessIdentity × Text) :=
  match snapshot with
  | none => []
  | some snapshot => (identities.foldl (resolveStep snapshot) (∅, [])).2

/-- One row's turn to stand for a selected identity. -/
def representStep (expanded : Finset ℕ) (selected : List ProcessIdentity)
    (s : Finset ProcessIdentity × List ProcessIdentity) (r : DisplayRow) :
    Finset ProcessIdentity × List ProcessIdentity :=
  match r with
  | .groupHeader _ _ => s
  | .process row =>
    if row.aggregate = true ∧ row.pid ∈ expanded then s
    else if identityOf row ∈ selected then
      (insert (identityOf row) s.1, s.2 ++ row.terminationTargets)
    else s

/-- The rows of the page at the time of the action. -/
def SelectionInput.rows (app : SelectionInput) (host : PageHost) (hash : PageHash)
    (snapshot : Snapshot) (expanded : Finset ℕ) : List DisplayRow :=
  buildDisplayRows host hash snapshot app.search app.sortCol app.ascending expanded
    app.groupCollapsed

/-- `termination_targets_for_selection`. -/
def terminationTargetsForSelection (host : PageHost) (hash : PageHash)
    (iteration : HashOrder ProcessIdentity) (app : SelectionInput) :
    List (ProcessIdentity × Text) :=
  match app.snapshot with
  | none => []
  | some snapshot =>
    let rows := app.rows host hash snapshot app.expanded
    let selected := app.selection.dedup
    let s := rows.foldl (representStep app.expanded selected) (∅, [])
    let represented :=
      s.2 ++ (iteration.order selected).filter fun identity => decide (identity ∉ s.1)
    resolveTerminationTargets app.snapshot represented

/-! ### Resolving identities -/

theorem resolveStep_eq (snapshot : Snapshot)
    (s : Finset ProcessIdentity × List (ProcessIdentity × Text)) (identity : ProcessIdentity) :
    resolveStep snapshot s identity = s ∧ identity ∈ s.1 ∨
    resolveStep snapshot s identity = (insert identity s.1, s.2) ∧
      identityIsLive snapshot identity = false ∨
    ∃ p, snapshot.process identity.pid = some p ∧
      resolveStep snapshot s identity =
        (insert identity s.1, s.2 ++ [(identity, p.shownName)]) ∧
      identity ∉ s.1 ∧ identityIsLive snapshot identity = true := by
  unfold resolveStep
  by_cases hseen : identity ∈ s.1
  · exact Or.inl ⟨if_pos hseen, hseen⟩
  · rw [if_neg hseen]
    cases hlive : identityIsLive snapshot identity with
    | false => exact Or.inr (Or.inl ⟨rfl, rfl⟩)
    | true =>
      obtain ⟨p, hp, hsynthetic, -⟩ := identityIsLive_iff.mp hlive
      have hfilter : (snapshot.process identity.pid).filter (fun p => !p.synthetic) = some p := by
        rw [hp, Option.filter_some, hsynthetic]
        rfl
      refine Or.inr (Or.inr ⟨p, hp, ?_, hseen, rfl⟩)
      rw [hfilter]
      rfl

/-- What the loop over the identities keeps. -/
structure Resolved (snapshot : Snapshot) (identities : List ProcessIdentity)
    (s : Finset ProcessIdentity × List (ProcessIdentity × Text)) : Prop where
  seen : ∀ i, i ∈ s.1 ↔ i ∈ identities
  nodup : (s.2.map Prod.fst).Nodup
  mem : ∀ i, i ∈ s.2.map Prod.fst ↔ i ∈ identities ∧ identityIsLive snapshot i = true
  named : ∀ t ∈ s.2, ∃ p, snapshot.process t.1.pid = some p ∧ t.2 = p.shownName

theorem Resolved.step {snapshot : Snapshot} {identities : List ProcessIdentity}
    {s : Finset ProcessIdentity × List (ProcessIdentity × Text)}
    (h : Resolved snapshot identities s) (identity : ProcessIdentity) :
    Resolved snapshot (identities ++ [identity]) (resolveStep snapshot s identity) := by
  have hmem : ∀ i, i ∈ identities ++ [identity] ↔ i ∈ identities ∨ i = identity := by
    intro i
    rw [List.mem_append, List.mem_singleton]
  rcases resolveStep_eq snapshot s identity with ⟨heq, hseen⟩ | ⟨heq, hdead⟩ |
    ⟨p, hp, heq, hnew, hlive⟩
  · have hold : identity ∈ identities := (h.seen identity).mp hseen
    have hsame : ∀ i, i ∈ identities ++ [identity] ↔ i ∈ identities := by
      intro i
      rw [hmem]
      refine ⟨?_, Or.inl⟩
      rintro (hi | rfl)
      · exact hi
      · exact hold
    rw [heq]
    refine ⟨fun i => ?_, h.nodup, fun i => ?_, h.named⟩
    · rw [h.seen, hsame]
    · rw [h.mem, hsame]
  · rw [heq]
    refine ⟨fun i => ?_, h.nodup, fun i => ?_, h.named⟩
    · rw [Finset.mem_insert, h.seen, hmem, or_comm]
    · rw [h.mem, hmem]
      constructor
      · rintro ⟨hi, hlive⟩
        exact ⟨Or.inl hi, hlive⟩
      · rintro ⟨hi | rfl, hlive⟩
        · exact ⟨hi, hlive⟩
        · rw [hdead] at hlive
          cases hlive
  · rw [heq]
    refine ⟨fun i => ?_, ?_, fun i => ?_, ?_⟩
    · rw [Finset.mem_insert, h.seen, hmem, or_comm]
    · have hnot : identity ∉ s.2.map Prod.fst := by
        intro hi
        exact hnew ((h.seen identity).mpr ((h.mem identity).mp hi).1)
      rw [List.map_append, List.map_singleton]
      exact h.nodup.append (List.nodup_singleton _) (List.disjoint_singleton.mpr hnot)
    · rw [List.map_append, List.mem_append, List.map_singleton, List.mem_singleton, h.mem, hmem]
      constructor
      · rintro (⟨hi, hilive⟩ | rfl)
        · exact ⟨Or.inl hi, hilive⟩
        · exact ⟨Or.inr rfl, hlive⟩
      · rintro ⟨hi | hi, hilive⟩
        · exact Or.inl ⟨hi, hilive⟩
        · exact Or.inr hi
    · intro t ht
      rcases List.mem_append.mp ht with ht | ht
      · exact h.named t ht
      · rw [List.mem_singleton.mp ht]
        exact ⟨p, hp, rfl⟩

/-- **The targets are the living identities among those asked for, each once.** -/
theorem resolved_foldl (snapshot : Snapshot) (identities : List ProcessIdentity) :
    Resolved snapshot identities (identities.foldl (resolveStep snapshot) (∅, [])) := by
  suffices h : ∀ done s, Resolved snapshot done s →
      Resolved snapshot (done ++ identities) (identities.foldl (resolveStep snapshot) s) by
    exact h [] (∅, []) ⟨by simp, by simp, by simp, by simp⟩
  induction identities with
  | nil =>
    intro done s hs
    rw [List.append_nil]
    exact hs
  | cons identity identities ih =>
    intro done s hs
    have hstep := ih (done ++ [identity]) _ (hs.step identity)
    rwa [List.append_assoc, List.singleton_append] at hstep

/-! ### Rows that stand for a selection -/

/-- A row that is not the head of an expanded group, and whose identity is selected. -/
def Represents (expanded : Finset ℕ) (selected : List ProcessIdentity) (row : RowData) : Prop :=
  ¬ (row.aggregate = true ∧ row.pid ∈ expanded) ∧ identityOf row ∈ selected

theorem foldl_representStep (expanded : Finset ℕ) (selected : List ProcessIdentity)
    (rows : List DisplayRow) :
    ∀ s : Finset ProcessIdentity × List ProcessIdentity,
      (∀ i, i ∈ (rows.foldl (representStep expanded selected) s).1 ↔ i ∈ s.1 ∨
        ∃ row, DisplayRow.process row ∈ rows ∧ Represents expanded selected row ∧
          identityOf row = i) ∧
      ∀ i, i ∈ (rows.foldl (representStep expanded selected) s).2 ↔ i ∈ s.2 ∨
        ∃ row, DisplayRow.process row ∈ rows ∧ Represents expanded selected row ∧
          i ∈ row.terminationTargets := by
  induction rows with
  | nil =>
    intro s
    simp
  | cons r rows ih =>
    intro s
    obtain ⟨ihmatched, ihtargets⟩ := ih (representStep expanded selected s r)
    rw [List.foldl_cons]
    cases r with
    | groupHeader gi total =>
      refine ⟨fun i => (ihmatched i).trans ?_, fun i => (ihtargets i).trans ?_⟩
      · simp [representStep]
      · simp [representStep]
    | process row =>
      -- a selected row adds its targets, unless its members are shown in its place
      by_cases hrow : Represents expanded selected row
      · have hstep : representStep expanded selected s (.process row) =
            (insert (identityOf row) s.1, s.2 ++ row.terminationTargets) := by
          rw [representStep, if_neg hrow.1, if_pos hrow.2]
        rw [hstep] at ihmatched ihtargets
        refine ⟨fun i => ?_, fun i => ?_⟩
        · rw [hstep, ihmatched, Finset.mem_insert]
          constructor
          · rintro ((rfl | hi) | ⟨row', hrow', h⟩)
            · exact Or.inr ⟨row, List.mem_cons_self, hrow, rfl⟩
            · exact Or.inl hi
            · exact Or.inr ⟨row', List.mem_cons_of_mem _ hrow', h⟩
          · rintro (hi | ⟨row', hrow', hrep, rfl⟩)
            · exact Or.inl (Or.inr hi)
            · rcases List.mem_cons.mp hrow' with heq | hrow'
              · obtain rfl := DisplayRow.process.inj heq
                exact Or.inl (Or.inl rfl)
              · exact Or.inr ⟨row', hrow', hrep, rfl⟩
        · rw [hstep, ihtargets, List.mem_append]
          constructor
          · rintro ((hi | hi) | ⟨row', hrow', h⟩)
            · exact Or.inl hi
            · exact Or.inr ⟨row, List.mem_cons_self, hrow, hi⟩
            · exact Or.inr ⟨row', List.mem_cons_of_mem _ hrow', h⟩
          · rintro (hi | ⟨row', hrow', hrep, hi⟩)
            · exact Or.inl (Or.inl hi)
            · rcases List.mem_cons.mp hrow' with heq | hrow'
              · obtain rfl := DisplayRow.process.inj heq
                exact Or.inl (Or.inr hi)
              · exact Or.inr ⟨row', hrow', hrep, hi⟩
      · have hstep : representStep expanded selected s (.process row) = s := by
          unfold representStep
          by_cases hexpanded : row.aggregate = true ∧ row.pid ∈ expanded
          · exact if_pos hexpanded
          · have hsel : identityOf row ∉ selected := fun hsel => hrow ⟨hexpanded, hsel⟩
            simp only [hexpanded, if_false, hsel]
        rw [hstep] at ihmatched ihtargets ⊢
        have hcons : ∀ P : RowData → Prop,
            (∃ row', DisplayRow.process row' ∈ rows ∧ Represents expanded selected row' ∧ P row') ↔
            ∃ row', DisplayRow.process row' ∈ .process row :: rows ∧
              Represents expanded selected row' ∧ P row' := by
          intro P
          constructor
          · rintro ⟨row', hrow', h⟩
            exact ⟨row', List.mem_cons_of_mem _ hrow', h⟩
          · rintro ⟨row', hrow', hrep, h⟩
            rcases List.mem_cons.mp hrow' with heq | hrow'
            · obtain rfl := DisplayRow.process.inj heq
              exact absurd hrep hrow
            · exact ⟨row', hrow', hrep, h⟩
        refine ⟨fun i => ?_, fun i => ?_⟩
        · rw [ihmatched, hcons fun row' => identityOf row' = i]
        · rw [ihtargets, hcons fun row' => i ∈ row'.terminationTargets]

/-! ### Targets -/

/-- The process found under a pid is the one with that pid. -/
theorem process_eq_some_iff {snapshot : Snapshot} (h : Distinct snapshot.processes)
    {p : ProcessEntry} {pid : ℕ} :
    snapshot.process pid = some p ↔ p ∈ snapshot.processes ∧ p.pid = pid := by
  constructor
  · intro hp
    exact ⟨List.mem_of_find?_eq_some hp, by simpa using List.find?_some hp⟩
  · rintro ⟨hp, rfl⟩
    cases hfind : snapshot.process p.pid with
    | none => exact absurd (decide_eq_true rfl) (List.find?_eq_none.mp hfind p hp)
    | some q =>
      have hpid : q.pid = p.pid := by simpa using List.find?_some hfind
      rw [Multimap.eq_of_key h (List.mem_of_find?_eq_some hfind) hp hpid]

/-- A row that is no aggregate stands for its own process. -/
theorem Block.Valid.targets_of_not_aggregate {host : PageHost} {hash : PageHash} {b : Block}
    (h : b.Valid host hash) {expanded : Finset ℕ} {row : RowData} (hrow : b.Shows expanded row)
    (hnot : row.aggregate = false) : row.terminationTargets = [identityOf row] := by
  rcases hrow with rfl | ⟨-, hrow⟩
  · cases h with
    | single p => rfl
    | group hroot hcount hhead =>
      rw [hhead.aggregate] at hnot
      cases hnot
  · obtain ⟨-, p, -, depth, -, rfl⟩ := h.mem_body hrow
    rfl

theorem Block.Valid.eq_head_of_aggregate {host : PageHost} {hash : PageHash} {b : Block}
    (h : b.Valid host hash) {expanded : Finset ℕ} {row : RowData} (hrow : b.Shows expanded row)
    (haggregate : row.aggregate = true) : row = b.head := by
  rcases hrow with rfl | ⟨-, hrow⟩
  · rfl
  · obtain ⟨-, p, -, depth, -, rfl⟩ := h.mem_body hrow
    cases haggregate

/-- The row of a living process stands for it, also as the head of a group. -/
theorem Block.Valid.identity_mem_targets {host : PageHost} {hash : PageHash} {b : Block}
    (h : b.Valid host hash) {snapshot : Snapshot} (hdistinct : Distinct snapshot.processes)
    (hroot : b.root ∈ snapshot.processes) {expanded : Finset ℕ} {row : RowData}
    (hrow : b.Shows expanded row) (hlive : identityIsLive snapshot (identityOf row) = true) :
    identityOf row ∈ row.terminationTargets := by
  cases haggregate : row.aggregate with
  | false =>
    rw [h.targets_of_not_aggregate hrow haggregate]
    exact List.mem_singleton_self _
  | true =>
    obtain rfl := h.eq_head_of_aggregate hrow haggregate
    rw [h.identityOf_head] at hlive ⊢
    obtain ⟨p, hp, hsynthetic, -⟩ := identityIsLive_iff.mp hlive
    have hself : snapshot.process b.root.pid = some b.root :=
      (process_eq_some_iff hdistinct).mpr ⟨hroot, rfl⟩
    obtain rfl : b.root = p := Option.some.inj (hself.symm.trans hp)
    cases h with
    | single p => exact List.mem_singleton_self _
    | group hmember hcount hhead =>
      rw [hhead.targets]
      refine List.mem_map_of_mem (List.mem_filter.mpr ⟨hmember, ?_⟩)
      rw [hsynthetic]
      rfl

section

variable (host : PageHost) (hash : PageHash) (iteration : HashOrder ProcessIdentity)

/-- The headers and blocks of the page, whatever is expanded. -/
def SelectionInput.items (app : SelectionInput) (host : PageHost) (hash : PageHash)
    (snapshot : Snapshot) : List Item :=
  displayItems host hash snapshot app.search app.sortCol app.ascending app.groupCollapsed

/-- **A target lives, and is selected or in a collapsed group whose own row is selected.** -/
theorem mem_targets_iff (app : SelectionInput) {snapshot : Snapshot}
    (hsnapshot : app.snapshot = some snapshot) (h : Distinct snapshot.processes)
    {i : ProcessIdentity} :
    i ∈ (terminationTargetsForSelection host hash iteration app).map Prod.fst ↔
      identityIsLive snapshot i = true ∧
        (i ∈ app.selection ∨ ∃ b, Item.block b ∈ app.items host hash snapshot ∧
          b.head.aggregate = true ∧ b.head.pid ∉ app.expanded ∧
          identityOf b.head ∈ app.selection ∧ i ∈ b.head.terminationTargets) := by
  obtain ⟨maxima, hrows⟩ := mem_buildDisplayRows_iff host hash h app.search app.sortCol
    app.ascending app.groupCollapsed app.expanded
  obtain ⟨hmatched, htargets⟩ := foldl_representStep app.expanded app.selection.dedup
    (app.rows host hash snapshot app.expanded) (∅, [])
  unfold terminationTargetsForSelection
  rw [hsnapshot]
  dsimp only [resolveTerminationTargets]
  rw [(resolved_foldl snapshot _).mem, and_comm]
  refine and_congr_right fun hlive => ?_
  rw [List.mem_append, htargets, List.mem_filter, iteration.mem_order, List.mem_dedup,
    decide_eq_true_iff, hmatched]
  simp only [List.not_mem_nil, Finset.notMem_empty, false_or]
  constructor
  · rintro (⟨row, hrow, hrep, hi⟩ | ⟨hi, -⟩)
    · obtain ⟨b, hb, raw, hraw, rfl⟩ := (hrows row).mp hrow
      have hvalid := (valid_of_mem_displayItems h hb).1
      have hsel : identityOf raw ∈ app.selection := List.mem_dedup.mp hrep.2
      cases haggregate : raw.aggregate with
      | false =>
        have heq := hvalid.targets_of_not_aggregate hraw haggregate
        have hi' : i ∈ raw.terminationTargets := hi
        rw [heq, List.mem_singleton] at hi'
        exact Or.inl (hi' ▸ hsel)
      | true =>
        obtain rfl := hvalid.eq_head_of_aggregate hraw haggregate
        exact Or.inr ⟨b, hb, haggregate, fun hmem => hrep.1 ⟨haggregate, hmem⟩, hsel, hi⟩
    · exact Or.inl hi
  · rintro (hi | ⟨b, hb, haggregate, hcollapsed, hsel, hi⟩)
    · by_cases hrow : ∃ row, DisplayRow.process row ∈ app.rows host hash snapshot app.expanded ∧
          Represents app.expanded app.selection.dedup row ∧ identityOf row = i
      · obtain ⟨row, hrow, hrep, rfl⟩ := hrow
        obtain ⟨b, hb, raw, hraw, rfl⟩ := (hrows row).mp hrow
        obtain ⟨hvalid, hmembers⟩ := valid_of_mem_displayItems h hb
        have hmem : identityOf raw ∈ raw.terminationTargets :=
          hvalid.identity_mem_targets h (hmembers _ hvalid.root_mem) hraw hlive
        exact Or.inl ⟨raw.withHeat maxima, hrow, hrep, hmem⟩
      · exact Or.inr ⟨hi, hrow⟩
    · refine Or.inl ⟨b.head.withHeat maxima, ?_, ?_, hi⟩
      · exact (hrows _).mpr ⟨b, hb, b.head, Or.inl rfl, rfl⟩
      · exact ⟨fun hexpanded => hcollapsed hexpanded.2, List.mem_dedup.mpr hsel⟩

theorem nodup_targets (app : SelectionInput) :
    ((terminationTargetsForSelection host hash iteration app).map Prod.fst).Nodup := by
  unfold terminationTargetsForSelection
  cases app.snapshot with
  | none => exact List.nodup_nil
  | some snapshot => exact (resolved_foldl snapshot _).nodup

/-- A target is shown under the name of the process with its pid. -/
theorem named_of_mem_targets (app : SelectionInput) {snapshot : Snapshot}
    (hsnapshot : app.snapshot = some snapshot) (h : Distinct snapshot.processes) :
    ∀ t ∈ terminationTargetsForSelection host hash iteration app,
      ∀ p ∈ snapshot.processes, p.pid = t.1.pid → t.2 = p.shownName := by
  intro t ht p hp hpid
  unfold terminationTargetsForSelection at ht
  rw [hsnapshot] at ht
  obtain ⟨q, hq, hname⟩ := (resolved_foldl snapshot _).named t ht
  rw [(process_eq_some_iff h).mpr ⟨hp, hpid⟩] at hq
  rw [hname, Option.some.inj hq]

/-- **The targets of a selection.**  No identity occurs twice, and two targets share a pid only if
the creation time of their process is unknown; every target is a running process that is no
pseudo-row; every selected running process is a target; an unselected target is in the group of a
collapsed aggregate row that is itself selected; and expanding or collapsing groups whose head is
not selected changes nothing. -/
theorem targets_follow_selection {app : SelectionInput} {snapshot : Snapshot}
    (hsnapshot : app.snapshot = some snapshot) (h : Distinct snapshot.processes) :
    ((terminationTargetsForSelection host hash iteration app).map Prod.fst).Nodup ∧
    (∀ t ∈ terminationTargetsForSelection host hash iteration app,
      identityIsLive snapshot t.1 = true ∧ ∃ p ∈ snapshot.processes,
        p.pid = t.1.pid ∧ p.synthetic = false ∧ t.2 = p.shownName) ∧
    (∀ t ∈ terminationTargetsForSelection host hash iteration app,
      ∀ t' ∈ terminationTargetsForSelection host hash iteration app, t.1.pid = t'.1.pid →
        t = t' ∨ ∃ p ∈ snapshot.processes, p.pid = t.1.pid ∧ p.startEpochS = none) ∧
    (∀ i ∈ app.selection, identityIsLive snapshot i = true →
      i ∈ (terminationTargetsForSelection host hash iteration app).map Prod.fst) ∧
    (∀ i ∈ (terminationTargetsForSelection host hash iteration app).map Prod.fst,
      i ∉ app.selection →
        ∃ row, DisplayRow.process row ∈ app.rows host hash snapshot app.expanded ∧
          row.aggregate = true ∧ row.pid ∉ app.expanded ∧ identityOf row ∈ app.selection ∧
          i ∈ row.terminationTargets) ∧
    ∀ expanded : Finset ℕ,
      (∀ g, (g ∈ expanded ↔ g ∈ app.expanded) ∨
        ∀ row, DisplayRow.process row ∈ app.rows host hash snapshot app.expanded →
          row.aggregate = true → row.pid = g → identityOf row ∉ app.selection) →
      ∀ t, t ∈ terminationTargetsForSelection host hash iteration
          { app with expanded := expanded } ↔
        t ∈ terminationTargetsForSelection host hash iteration app := by
  -- the rows of the page are the blocks, up to the heat of their cells
  obtain ⟨maxima, hrows⟩ := mem_buildDisplayRows_iff host hash h app.search app.sortCol
    app.ascending app.groupCollapsed app.expanded
  have hmem := fun i => mem_targets_iff host hash iteration app hsnapshot h (i := i)
  have hlive : ∀ i ∈ (terminationTargetsForSelection host hash iteration app).map Prod.fst,
      identityIsLive snapshot i = true := fun i hi => ((hmem i).mp hi).1
  have hnamed := named_of_mem_targets host hash iteration app hsnapshot h
  refine ⟨nodup_targets host hash iteration app, ?_, ?_, ?_, ?_, ?_⟩
  · intro t ht
    have ht' := hlive t.1 (List.mem_map_of_mem ht)
    obtain ⟨p, hp, hsynthetic, -⟩ := identityIsLive_iff.mp ht'
    obtain ⟨hpmem, hpid⟩ := (process_eq_some_iff h).mp hp
    refine ⟨ht', p, hpmem, hpid, hsynthetic, ?_⟩
    exact hnamed t ht p hpmem hpid
  · intro t ht t' ht' hpid
    obtain ⟨p, hp, -, hstart⟩ := identityIsLive_iff.mp (hlive t.1 (List.mem_map_of_mem ht))
    obtain ⟨p', hp', -, hstart'⟩ := identityIsLive_iff.mp (hlive t'.1 (List.mem_map_of_mem ht'))
    rw [← hpid, hp] at hp'
    obtain rfl := Option.some.inj hp'
    obtain ⟨hpmem, hppid⟩ := (process_eq_some_iff h).mp hp
    -- one pid is one process; two targets of it differ at most in the start, which a process
    -- without one does not settle
    rcases hstart with hnone | hstart
    · exact Or.inr ⟨p, hpmem, hppid, hnone⟩
    rcases hstart' with hnone | hstart'
    · exact Or.inr ⟨p, hpmem, hppid, hnone⟩
    have hidentity : t.1 = t'.1 := by
      rw [show t.1 = ⟨t.1.pid, t.1.startEpochS⟩ from rfl, hpid, ← hstart, hstart']
    refine Or.inl (Prod.ext hidentity ?_)
    rw [hnamed t ht p hpmem hppid, hnamed t' ht' p hpmem (hppid.trans hpid)]
  · intro i hi hilive
    exact (hmem i).mpr ⟨hilive, Or.inl hi⟩
  · intro i hi hnot
    rcases ((hmem i).mp hi).2 with hsel | ⟨b, hb, haggregate, hcollapsed, hsel, hi⟩
    · exact absurd hsel hnot
    · refine ⟨b.head.withHeat maxima, (hrows _).mpr ⟨b, hb, b.head, Or.inl rfl, rfl⟩, ?_⟩
      exact ⟨haggregate, hcollapsed, hsel, hi⟩
  · intro expanded hexpanded t
    -- the targets of both pages have the same identities; their names are those of the snapshot
    have hsame : ∀ i, i ∈ (terminationTargetsForSelection host hash iteration
        { app with expanded := expanded }).map Prod.fst ↔
        i ∈ (terminationTargetsForSelection host hash iteration app).map Prod.fst := by
      intro i
      rw [hmem, mem_targets_iff host hash iteration { app with expanded := expanded }
        hsnapshot h]
      refine and_congr_right fun _ => or_congr_right (exists_congr fun b => ?_)
      refine and_congr_right fun hb => and_congr_right fun haggregate => ?_
      rw [← and_assoc, ← and_assoc, and_congr_left_iff]
      intro _
      have hrow : DisplayRow.process (b.head.withHeat maxima) ∈
          app.rows host hash snapshot app.expanded :=
        (hrows _).mpr ⟨b, hb, b.head, Or.inl rfl, rfl⟩
      -- a head is in both sets of expanded groups, or in neither, or it is not selected
      rcases hexpanded b.head.pid with hiff | hunselected
      · exact and_congr_left fun _ => not_congr hiff
      · have hnot : identityOf b.head ∉ app.selection :=
          hunselected (b.head.withHeat maxima) hrow haggregate rfl
        exact iff_of_false (fun h => hnot h.2) fun h => hnot h.2
    have hnamed' := named_of_mem_targets host hash iteration
      { app with expanded := expanded } hsnapshot h
    constructor
    · intro ht
      obtain ⟨t', ht', heq⟩ := List.mem_map.mp ((hsame t.1).mp (List.mem_map_of_mem ht))
      obtain ⟨p, hp, -⟩ := identityIsLive_iff.mp (hlive t'.1 (List.mem_map_of_mem ht'))
      obtain ⟨hpmem, hpid⟩ := (process_eq_some_iff h).mp hp
      have hname : t.2 = t'.2 := by
        rw [hnamed' t ht p hpmem (heq ▸ hpid), hnamed t' ht' p hpmem hpid]
      rwa [Prod.ext heq.symm hname]
    · intro ht
      obtain ⟨t', ht', heq⟩ := List.mem_map.mp ((hsame t.1).mpr (List.mem_map_of_mem ht))
      obtain ⟨p, hp, -⟩ := identityIsLive_iff.mp (hlive t.1 (List.mem_map_of_mem ht))
      obtain ⟨hpmem, hpid⟩ := (process_eq_some_iff h).mp hp
      have hname : t.2 = t'.2 := by
        rw [hnamed t ht p hpmem hpid, hnamed' t' ht' p hpmem (heq.symm ▸ hpid)]
      rwa [Prod.ext heq.symm hname]

end

/-- A collapsed application is selected: it ends with its helper. -/
theorem targets_follow_selection_example :
    let a : ProcessEntry := { pid := 1, startEpochS := some 1, name := "a.exe".toList }
    let helper : ProcessEntry :=
      { pid := 2, ppid := some 1, startEpochS := some 3, name := "a.exe".toList }
    let app : SelectionInput :=
      { snapshot := some { processes := [a, helper] }, search := [], sortCol := 0,
        ascending := true, expanded := ∅, groupCollapsed := fun _ => false,
        selection := [⟨1, some 1⟩] }
    ⟨1, some 1⟩ ∈
        (terminationTargetsForSelection asciiHost insertedHash HashOrder.inserted app).map
          Prod.fst ∧
      terminationTargetsForSelection asciiHost insertedHash HashOrder.inserted app =
        [(⟨1, some 1⟩, "a.exe".toList), (⟨2, some 3⟩, "a.exe".toList)] := by
  intro a helper app
  obtain ⟨-, -, -, hselected, -⟩ := @targets_follow_selection asciiHost insertedHash
    HashOrder.inserted app { processes := [a, helper] } rfl (by decide)
  exact ⟨hselected ⟨1, some 1⟩ (by decide) (by decide), by decide⟩

/-- Two processes under one pid: the row of the first stands for the second and its child, and the
selected, running first one is not ended. -/
theorem duplicate_pid_loses_target :
    let a : ProcessEntry := { pid := 1, startEpochS := some 1, name := "a.exe".toList }
    let snapshot : Snapshot :=
      { processes := [a, { a with startEpochS := some 2 },
          { a with pid := 2, ppid := some 1, startEpochS := some 3 }] }
    let app : SelectionInput :=
      { snapshot := some snapshot, search := [], sortCol := 0, ascending := true, expanded := ∅,
        groupCollapsed := fun _ => false, selection := [⟨1, some 1⟩] }
    identityIsLive snapshot ⟨1, some 1⟩ = true ∧
      ⟨1, some 1⟩ ∈ app.selection ∧
      ⟨1, some 1⟩ ∉
        (terminationTargetsForSelection asciiHost insertedHash HashOrder.inserted app).map
          Prod.fst := by
  decide

end Processes

end Taskman
