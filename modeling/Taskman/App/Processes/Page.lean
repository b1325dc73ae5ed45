import Taskman.App.Processes.Families

/-!
# The rows of the Processes page

With a search the page is the flat list of the matching processes.  Without one it has three
sections; sorted by a resource, the blocks of all sections compete in one list.

* `Processes.buildDisplayRows` : the rows of the page;
* `Processes.displayItems` : its headers and blocks, whatever is expanded;
* `Processes.buildDisplayRows_eq` : **the rows are those of the items, with the heat of the whole
  list**;
* `Processes.valid_of_mem_displayItems` : **every block of the page is valid**.
-/

namespace Taskman

namespace Processes

/-! ### The page -/

/-- Creation time, then pid. -/
def creationOrder : ProcessEntry → ProcessEntry → Ordering :=
  compareLex (compareOn ProcessEntry.startEpochS) (compareOn ProcessEntry.pid)

/-- The processes by creation time: the order every later tie falls back on. -/
def byCreation (snap : Snapshot) : List ProcessEntry := sortBy creationOrder snap.processes

/-- The category of a section. -/
def sectionCategory (gi : ℕ) : ProcCategory :=
  match gi with
  | 0 => .app
  | 1 => .background
  | _ => .system

/-- The processes of a section. -/
def sectionMembers (groups : DisplayGroups) (all : List ProcessEntry) (cat : ProcCategory) :
    List ProcessEntry :=
  all.filter fun p => decide ((groups.category p.pid).getD p.category = cat)

/-- What the sections are made from. -/
structure PageInput where
  all : List ProcessEntry
  groups : DisplayGroups
  subtree : Subtree
  sortCol : ℕ
  ascending : Bool

/-- The processes of a section. -/
def PageInput.members (x : PageInput) (cat : ProcCategory) : List ProcessEntry :=
  sectionMembers x.groups x.all cat

/-- What a section lists under each pid. -/
def PageInput.children (x : PageInput) (cat : ProcCategory) : Multimap ℕ ProcessEntry :=
  displayChildrenMap (x.members cat) x.groups

/-- What a section starts from. -/
def PageInput.roots (x : PageInput) (cat : ProcCategory) : List ProcessEntry :=
  treeRoots (x.members cat) (x.children cat)

/-- The count of a section: app groups, or processes. -/
def PageInput.total (x : PageInput) (cat : ProcCategory) : ℕ :=
  if cat = .app then (x.roots cat).length else (x.members cat).length

/-- The rows of a section. -/
def emitSection (host : PageHost) (hash : PageHash) (x : PageInput) (expanded : Finset ℕ)
    (cat : ProcCategory) : List DisplayRow :=
  if cat = .app then
    emitTree host hash (x.roots cat) (x.children cat) x.subtree x.sortCol x.ascending expanded
  else
    emitFlatWithFamilyGroups host hash (x.members cat) (x.children cat) x.sortCol x.ascending
      expanded

/-- Reorder the blocks of all sections into one list: by the column of their heads, then by pid. -/
def blockOrder (sortCol : ℕ) (ascending : Bool) (a b : List DisplayRow) : Ordering :=
  let vi : Fin VALUE_COLS :=
    ⟨min (sortCol - FIXED_COLS) (VALUE_COLS - 1), Nat.lt_of_le_of_lt (Nat.min_le_right _ _)
      (by decide)⟩
  match a.head?, b.head? with
  | some (.process x), some (.process y) =>
    (directed (compare (x.values vi) (y.values vi)) ascending).then (compare x.pid y.pid)
  | _, _ => .eq

/-- A row of depth 0 starts a block, a nested row rides along, a header is dropped. -/
def blockStep (blocks : List (List DisplayRow)) (r : DisplayRow) : List (List DisplayRow) :=
  match r with
  | .groupHeader _ _ => blocks
  | .process d =>
    if d.depth = 0 then blocks ++ [[.process d]]
    else
      match blocks.getLast? with
      | none => blocks
      | some last => blocks.dropLast ++ [last ++ [.process d]]

/-- The blocks in order, each with its rows. -/
def sortBlocksGlobally (rows : List DisplayRow) (sortCol : ℕ) (ascending : Bool) :
    List DisplayRow :=
  (sortBy (blockOrder sortCol ascending) (rows.foldl blockStep [])).flatten

/-- The rows of the three sections. -/
def sectionRows (host : PageHost) (hash : PageHash) (x : PageInput) (expanded : Finset ℕ)
    (groupCollapsed : ℕ → Bool) : List DisplayRow :=
  [0, 1, 2].flatMap fun gi =>
    let cat := sectionCategory gi
    if x.sortCol < FIXED_COLS then
      .groupHeader gi (x.total cat) ::
        if groupCollapsed gi then [] else emitSection host hash x expanded cat
    else emitSection host hash x expanded cat

/-- What the sections of a snapshot are made from. -/
def pageInput (hash : PageHash) (snap : Snapshot) (sortCol : ℕ) (ascending : Bool) : PageInput :=
  let all := byCreation snap
  let groups := deriveDisplayGroups hash all
  { all := all
    groups := groups
    subtree := subtreeRollups all (displayChildrenMap all groups)
    sortCol := sortCol
    ascending := ascending }

/-- The matching processes, in the order they are shown. -/
def searchMatches (host : PageHost) (snap : Snapshot) (q : Search.Query) (sortCol : ℕ)
    (ascending : Bool) : List ProcessEntry :=
  let matched := (byCreation snap).filter (q.matchesProcess host)
  sortEntries host matched sortCol ascending (ownTable matched)

/-- `build_display_rows`. -/
def buildDisplayRows (host : PageHost) (hash : PageHash) (snap : Snapshot) (rawSearch : Text)
    (sortCol : ℕ) (ascending : Bool) (expanded : Finset ℕ) (groupCollapsed : ℕ → Bool) :
    List DisplayRow :=
  let q := Search.Query.new host rawSearch
  if !q.isEmpty then
    normalizeHeat ((searchMatches host snap q sortCol ascending).map fun p =>
      .process (makeFlatRow host p))
  else
    let out := sectionRows host hash (pageInput hash snap sortCol ascending) expanded groupCollapsed
    if FIXED_COLS ≤ sortCol then normalizeHeat (sortBlocksGlobally out sortCol ascending)
    else normalizeHeat out

/-! ### Blocks -/

/-- A header or a block of the page. -/
inductive Item where
  | header (gi total : ℕ)
  | block (b : Block)

/-- The rows of an item. -/
def Item.rows (expanded : Finset ℕ) : Item → List DisplayRow
  | .header gi total => [.groupHeader gi total]
  | .block b => b.rows expanded

/-- The blocks of a section. -/
def sectionBlocks (host : PageHost) (hash : PageHash) (x : PageInput) (cat : ProcCategory) :
    List Block :=
  if cat = .app then
    (sortEntries host (x.roots cat) x.sortCol x.ascending
      (treeTables hash (x.roots cat) (x.children cat)).shown).map
        (treeBlock host hash (x.children cat) x.subtree x.sortCol x.ascending)
  else
    let table := familyTable host hash (x.members cat) (x.children cat)
    (sortEntries host (table.display (x.members cat)) x.sortCol x.ascending
      (representedValues hash (x.members cat) table)).map
        (familyBlock host hash x.sortCol x.ascending table)

/-- The headers and blocks of the page, whatever is expanded. -/
def displayItems (host : PageHost) (hash : PageHash) (snap : Snapshot) (rawSearch : Text)
    (sortCol : ℕ) (ascending : Bool) (groupCollapsed : ℕ → Bool) : List Item :=
  let q := Search.Query.new host rawSearch
  let x := pageInput hash snap sortCol ascending
  if !q.isEmpty then
    (searchMatches host snap q sortCol ascending).map fun p =>
      .block ⟨p, [p], makeOwnRow host p 0, []⟩
  else if FIXED_COLS ≤ sortCol then
    (sortBy (fun a b : Block => blockOrder sortCol ascending [.process a.head] [.process b.head])
      ([0, 1, 2].flatMap fun gi => sectionBlocks host hash x (sectionCategory gi))).map Item.block
  else
    [0, 1, 2].flatMap fun gi =>
      .header gi (x.total (sectionCategory gi)) ::
        if groupCollapsed gi then []
        else (sectionBlocks host hash x (sectionCategory gi)).map Item.block

/-! ### The rows of the blocks -/

theorem distinct_byCreation {snap : Snapshot} (h : Distinct snap.processes) :
    Distinct (byCreation snap) :=
  ((sortBy_perm creationOrder snap.processes).map ProcessEntry.pid).nodup_iff.mpr h

theorem distinct_members {x : PageInput} (h : Distinct x.all) (cat : ProcCategory) :
    Distinct (x.members cat) :=
  h.sublist (List.filter_sublist.map _)

theorem distinct_roots {x : PageInput} (h : Distinct x.all) (cat : ProcCategory) :
    Distinct (x.roots cat) :=
  distinct_treeRoots _ (distinct_members h cat) fun _ _ _ hk => mem_of_displayParent hk

/-- The rows of a section are those of its blocks. -/
theorem emitSection_eq (host : PageHost) (hash : PageHash) {x : PageInput} (h : Distinct x.all)
    (expanded : Finset ℕ) (cat : ProcCategory) :
    emitSection host hash x expanded cat =
      (sectionBlocks host hash x cat).flatMap (Block.rows expanded) := by
  unfold emitSection sectionBlocks
  by_cases hcat : cat = .app
  · rw [if_pos hcat, if_pos hcat, emitTree_eq host hash (distinct_roots h cat), List.flatMap_map]
  · rw [if_neg hcat, if_neg hcat, emitFlat_eq host hash (distinct_members h cat),
      List.flatMap_map]

/-- A block of a section stands for processes of the section. -/
theorem members_of_mem_sectionBlocks {host : PageHost} {hash : PageHash} {x : PageInput}
    (h : Distinct x.all) {cat : ProcCategory} {b : Block}
    (hb : b ∈ sectionBlocks host hash x cat) : ∀ p ∈ b.members, p ∈ x.members cat := by
  have hmembers := distinct_members h cat
  unfold sectionBlocks at hb
  by_cases hcat : cat = .app
  · rw [if_pos hcat] at hb
    obtain ⟨root, hroot, rfl⟩ := List.mem_map.mp hb
    rw [sortEntries, mem_sortBy] at hroot
    have hroot' : root ∈ x.members cat := mem_of_mem_treeRoots hmembers hroot
    intro p hp
    rw [PageInput.children, displayChildrenMap,
      members_treeBlock host hash x.subtree x.sortCol x.ascending hmembers hroot'] at hp
    exact ((mem_treeGroupMembers hmembers hroot').mp hp).1
  · rw [if_neg hcat] at hb
    obtain ⟨p, hp, rfl⟩ := List.mem_map.mp hb
    rw [sortEntries, mem_sortBy, FamilyTable.display, List.mem_filter, decide_eq_true_iff] at hp
    intro q hq
    rw [members_familyBlock] at hq
    have hgrouped : Grouped host _ (x.members cat)
        (familyTable host hash (x.members cat) (x.children cat)) := familyTable_spec hmembers hash
    exact (hgrouped.stands hmembers hp.1 hp.2).mem_of_mem_members hmembers hp.1 hq

/-- **Every block of a section is valid, and stands for processes of the section.** -/
theorem valid_of_mem_sectionBlocks {host : PageHost} {hash : PageHash} {x : PageInput}
    (h : Distinct x.all) {cat : ProcCategory} {b : Block}
    (hb : b ∈ sectionBlocks host hash x cat) :
    b.Valid host hash ∧ ∀ p ∈ b.members, p ∈ x.all := by
  have hmembers := distinct_members h cat
  refine ⟨?_, fun p hp => (List.mem_filter.mp (members_of_mem_sectionBlocks h hb p hp)).1⟩
  unfold sectionBlocks at hb
  by_cases hcat : cat = .app
  · rw [if_pos hcat] at hb
    obtain ⟨root, hroot, rfl⟩ := List.mem_map.mp hb
    rw [sortEntries, mem_sortBy] at hroot
    exact treeBlock_valid host hash x.subtree x.sortCol x.ascending hmembers
      (mem_of_mem_treeRoots hmembers hroot)
  · rw [if_neg hcat] at hb
    obtain ⟨p, hp, rfl⟩ := List.mem_map.mp hb
    rw [sortEntries, mem_sortBy, FamilyTable.display, List.mem_filter, decide_eq_true_iff] at hp
    exact familyBlock_valid hmembers (familyTable_spec hmembers hash) hash x.sortCol x.ascending
      hp.1 hp.2

/-- Cutting the rows of valid blocks at depth 0 gives the blocks back. -/
theorem foldl_blockStep {host : PageHost} {hash : PageHash} (expanded : Finset ℕ)
    (blocks : List Block) (hvalid : ∀ b ∈ blocks, b.Valid host hash) :
    ∀ done : List (List DisplayRow),
      (blocks.flatMap (Block.rows expanded)).foldl blockStep done =
        done ++ blocks.map (Block.rows expanded) := by
  induction blocks with
  | nil =>
    intro done
    simp
  | cons b blocks ih =>
    intro done
    have hb := hvalid b List.mem_cons_self
    have hhead : ∀ done, blockStep done (.process b.head) = done ++ [[.process b.head]] :=
      fun done => if_pos hb.depth_head
    have hbody : ∀ (body : List RowData) (last : List DisplayRow), (∀ row ∈ body, row ∈ b.body) →
        (body.map DisplayRow.process).foldl blockStep (done ++ [last]) =
          done ++ [last ++ body.map .process] := by
      intro body
      induction body with
      | nil =>
        intro last _
        simp
      | cons row body ihbody =>
        intro last hrows
        obtain ⟨-, p, -, depth, hdepth, hrow⟩ := hb.mem_body (hrows row List.mem_cons_self)
        have hne : row.depth ≠ 0 := by
          rw [hrow]
          exact Nat.one_le_iff_ne_zero.mp hdepth
        have hstep : blockStep (done ++ [last]) (.process row) =
            done ++ [last ++ [.process row]] := by
          rw [blockStep, if_neg hne, List.getLast?_concat, List.dropLast_concat]
        rw [List.map_cons, List.foldl_cons, hstep,
          ihbody _ fun r hr => hrows r (List.mem_cons_of_mem _ hr), List.append_assoc,
          List.singleton_append]
    rw [List.flatMap_cons, List.foldl_append, Block.rows, List.foldl_cons, hhead]
    have hrest : ∀ done, (blocks.flatMap (Block.rows expanded)).foldl blockStep done =
        done ++ blocks.map (Block.rows expanded) :=
      ih fun b hb => hvalid b (List.mem_cons_of_mem _ hb)
    by_cases hexpanded : b.head.aggregate = true ∧ b.head.pid ∈ expanded
    · rw [if_pos hexpanded, hbody _ _ fun _ hr => hr, hrest, List.map_cons, Block.rows,
        if_pos hexpanded, List.append_assoc]
      rfl
    · rw [if_neg hexpanded, List.foldl_nil, hrest, List.map_cons, Block.rows, if_neg hexpanded,
        List.append_assoc]
      rfl

/-- Sorting the blocks' rows is sorting the blocks by their heads. -/
theorem sortBlocksGlobally_eq {host : PageHost} {hash : PageHash} (expanded : Finset ℕ)
    {blocks : List Block} (hvalid : ∀ b ∈ blocks, b.Valid host hash) (sortCol : ℕ)
    (ascending : Bool) :
    sortBlocksGlobally (blocks.flatMap (Block.rows expanded)) sortCol ascending =
      (sortBy (fun a b : Block =>
        blockOrder sortCol ascending [.process a.head] [.process b.head]) blocks).flatMap
          (Block.rows expanded) := by
  rw [sortBlocksGlobally, foldl_blockStep expanded blocks hvalid, List.nil_append,
    ← map_sortBy (Block.rows expanded) (blockOrder sortCol ascending), List.flatMap_def]
  rfl

/-- **The rows of the page are those of its items, with the heat of the whole list.** -/
theorem buildDisplayRows_eq (host : PageHost) (hash : PageHash) {snap : Snapshot}
    (h : Distinct snap.processes) (rawSearch : Text) (sortCol : ℕ) (ascending : Bool)
    (expanded : Finset ℕ) (groupCollapsed : ℕ → Bool) :
    buildDisplayRows host hash snap rawSearch sortCol ascending expanded groupCollapsed =
      normalizeHeat ((displayItems host hash snap rawSearch sortCol ascending
        groupCollapsed).flatMap (Item.rows expanded)) := by
  have hall : Distinct (pageInput hash snap sortCol ascending).all := distinct_byCreation h
  dsimp only [buildDisplayRows, displayItems]
  -- the page has three shapes: search results, one sorted list, or sections
  by_cases hsearch : (!(Search.Query.new host rawSearch).isEmpty) = true
  · rw [if_pos hsearch, if_pos hsearch, List.flatMap_map]
    congr 1
    rw [← List.flatMap_singleton' (List.map _ _), List.flatMap_map]
    rfl
  · rw [if_neg hsearch, if_neg hsearch]
    by_cases hcol : FIXED_COLS ≤ sortCol
    · have hrows : sectionRows host hash (pageInput hash snap sortCol ascending) expanded
          groupCollapsed =
          ([0, 1, 2].flatMap fun gi => sectionBlocks host hash
            (pageInput hash snap sortCol ascending) (sectionCategory gi)).flatMap
              (Block.rows expanded) := by
        rw [sectionRows, List.flatMap_assoc]
        refine List.flatMap_congr fun gi _ => ?_
        have hnot : ¬ (pageInput hash snap sortCol ascending).sortCol < FIXED_COLS :=
          Nat.not_lt.mpr hcol
        dsimp only
        rw [if_neg hnot, emitSection_eq host hash hall]
      have hvalid : ∀ b ∈ [0, 1, 2].flatMap fun gi => sectionBlocks host hash
          (pageInput hash snap sortCol ascending) (sectionCategory gi), b.Valid host hash := by
        intro b hb
        obtain ⟨gi, -, hb⟩ := List.mem_flatMap.mp hb
        exact (valid_of_mem_sectionBlocks hall hb).1
      rw [if_pos hcol, if_pos hcol, hrows, sortBlocksGlobally_eq expanded hvalid, List.flatMap_map]
      rfl
    · rw [if_neg hcol, if_neg hcol, sectionRows, List.flatMap_assoc]
      congr 1
      refine List.flatMap_congr fun gi _ => ?_
      have hlt : (pageInput hash snap sortCol ascending).sortCol < FIXED_COLS :=
        Nat.lt_of_not_le hcol
      dsimp only
      rw [if_pos hlt, List.flatMap_cons]
      by_cases hcollapsed : groupCollapsed gi
      · rw [if_pos hcollapsed, if_pos hcollapsed]
        rfl
      · rw [if_neg hcollapsed, if_neg hcollapsed, emitSection_eq host hash hall, List.flatMap_map]
        rfl

/-- **Every block of the page is valid, and stands for processes of the snapshot.** -/
theorem valid_of_mem_displayItems {host : PageHost} {hash : PageHash} {snap : Snapshot}
    (h : Distinct snap.processes) {rawSearch : Text} {sortCol : ℕ} {ascending : Bool}
    {groupCollapsed : ℕ → Bool} {b : Block}
    (hb : Item.block b ∈ displayItems host hash snap rawSearch sortCol ascending groupCollapsed) :
    b.Valid host hash ∧ ∀ p ∈ b.members, p ∈ snap.processes := by
  have hall : Distinct (pageInput hash snap sortCol ascending).all := distinct_byCreation h
  have hmem : ∀ p ∈ byCreation snap, p ∈ snap.processes := fun p hp => mem_sortBy.mp hp
  have hsection : ∀ cat, b ∈ sectionBlocks host hash (pageInput hash snap sortCol ascending) cat →
      b.Valid host hash ∧ ∀ p ∈ b.members, p ∈ snap.processes := by
    intro cat hb
    obtain ⟨hvalid, hmembers⟩ := valid_of_mem_sectionBlocks hall hb
    exact ⟨hvalid, fun p hp => hmem p (hmembers p hp)⟩
  dsimp only [displayItems] at hb
  split at hb
  · obtain ⟨p, hp, heq⟩ := List.mem_map.mp hb
    obtain rfl := Item.block.inj heq
    dsimp only [searchMatches, sortEntries] at hp
    rw [mem_sortBy, List.mem_filter] at hp
    exact ⟨Block.Valid.single p, fun q hq => List.mem_singleton.mp hq ▸ hmem p hp.1⟩
  · split at hb
    · obtain ⟨b', hb', heq⟩ := List.mem_map.mp hb
      obtain rfl := Item.block.inj heq
      rw [mem_sortBy] at hb'
      obtain ⟨gi, -, hb'⟩ := List.mem_flatMap.mp hb'
      exact hsection _ hb'
    · obtain ⟨gi, -, hb⟩ := List.mem_flatMap.mp hb
      rcases List.mem_cons.mp hb with heq | hb
      · cases heq
      · split at hb
        · cases hb
        · obtain ⟨b', hb', heq⟩ := List.mem_map.mp hb
          obtain rfl := Item.block.inj heq
          exact hsection _ hb'

/-- A row of a block: its head, or, where it is expanded, a row of a member. -/
def Block.Shows (expanded : Finset ℕ) (b : Block) (row : RowData) : Prop :=
  row = b.head ∨ (b.head.aggregate = true ∧ b.head.pid ∈ expanded) ∧ row ∈ b.body

theorem Block.mem_rows_iff {expanded : Finset ℕ} {b : Block} {row : RowData} :
    DisplayRow.process row ∈ b.rows expanded ↔ b.Shows expanded row := by
  unfold Block.rows Block.Shows
  rw [List.mem_cons, DisplayRow.process.injEq]
  refine or_congr_right ?_
  split
  · rename_i h
    simp [h]
  · rename_i h
    simp [h]

/-- **The process rows of the page are the rows of its blocks, with their heat.** -/
theorem mem_buildDisplayRows_iff (host : PageHost) (hash : PageHash) {snap : Snapshot}
    (h : Distinct snap.processes) (rawSearch : Text) (sortCol : ℕ) (ascending : Bool)
    (groupCollapsed : ℕ → Bool) (expanded : Finset ℕ) :
    ∃ maxima, ∀ row, DisplayRow.process row ∈ buildDisplayRows host hash snap rawSearch sortCol
        ascending expanded groupCollapsed ↔
      ∃ b, Item.block b ∈ displayItems host hash snap rawSearch sortCol ascending groupCollapsed ∧
        ∃ raw, b.Shows expanded raw ∧ row = raw.withHeat maxima := by
  rw [buildDisplayRows_eq host hash h]
  refine ⟨columnMax ((displayItems host hash snap rawSearch sortCol ascending
    groupCollapsed).flatMap (Item.rows expanded)), fun row => ?_⟩
  rw [normalizeHeat, List.mem_map]
  constructor
  · rintro ⟨r, hr, heq⟩
    obtain ⟨item, hitem, hr⟩ := List.mem_flatMap.mp hr
    cases r with
    | groupHeader gi total => cases heq
    | process raw =>
      cases item with
      | header gi total => cases List.mem_singleton.mp hr
      | block b =>
        exact ⟨b, hitem, raw, Block.mem_rows_iff.mp hr, (DisplayRow.process.inj heq).symm⟩
  · rintro ⟨b, hb, raw, hraw, rfl⟩
    exact ⟨.process raw, List.mem_flatMap.mpr ⟨.block b, hb, Block.mem_rows_iff.mpr hraw⟩, rfl⟩

/-! ### A host -/

/-- A host whose texts have ASCII letters only. -/
def asciiHost : PageHost where
  toLowercase := Text.toAsciiLowercase
  charToLowercase c := [c.toLower]
  serviceHost := "Service Host".toList
  terminatedTooltip d := "Ended: ".toList ++ d

/-- Every hash table iterates in the order of insertion. -/
def insertedHash : PageHash where
  appRoots := HashOrder.inserted
  runs := HashOrder.inserted
  disks _ := HashOrder.inserted
  gpus _ := HashOrder.inserted

/-- Every hash table iterates from the last entry to the first. -/
def reversedHash : PageHash where
  appRoots := HashOrder.reversed
  runs := HashOrder.reversed
  disks _ := HashOrder.reversed
  gpus _ := HashOrder.reversed

end Processes

end Taskman
