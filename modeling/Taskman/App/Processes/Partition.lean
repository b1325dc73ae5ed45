import Taskman.App.Processes.Groups
import Taskman.App.Processes.Order

/-!
# Every process once

The heads of the page stand for all processes, and none of them twice, unless the parent links are
odd.  In the Apps section two trees overlap where something hangs off a cycle of parents and comes
before the cycle.  In the other sections a process is lost where its head, which comes first, is
taken into the family of a later head that does not accept the process itself.

* `Processes.treeGroups_perm_iff` : **the app trees are a partition exactly when cycles come
  first**;
* `Processes.families_perm_iff` : **the families and runs of a section are a partition exactly when
  the families nest**;
* `Processes.ShownOnce` : what the rows of the page say of every process;
* `Processes.Separable` : the condition on the snapshot;
* `Processes.shownOnce_iff` : **the page shows every process once exactly when the snapshot is
  separable**.
-/

namespace Taskman

namespace Processes

/-! ### The trees of the Apps section -/

section Trees

variable {parent : ProcessEntry → Option ℕ} {l : List ProcessEntry}
  {lt : ProcessEntry → ProcessEntry → Prop}

/-- A list of processes is split by groups of them exactly when these are disjoint and leave
nothing out. -/
theorem flatMap_perm_iff {f : ProcessEntry → List ProcessEntry} {heads : List ProcessEntry}
    (hl : l.Nodup) (hf : ∀ p ∈ heads, (f p).Nodup) (hmem : ∀ p ∈ heads, ∀ x ∈ f p, x ∈ l) :
    (heads.flatMap f).Perm l ↔
      heads.Pairwise (fun p q => ∀ x, ¬ (x ∈ f p ∧ x ∈ f q)) ∧ ∀ x ∈ l, ∃ p ∈ heads, x ∈ f p := by
  have hnodup : (heads.flatMap f).Nodup ↔
      heads.Pairwise fun p q => ∀ x, ¬ (x ∈ f p ∧ x ∈ f q) := by
    rw [List.nodup_flatMap, and_iff_right hf]
    refine List.Pairwise.iff fun p q => ?_
    exact ⟨fun h x hx => h hx.1 hx.2, fun h x hp hq => h x ⟨hp, hq⟩⟩
  constructor
  · intro h
    exact ⟨hnodup.mp (h.nodup_iff.mpr hl), fun x hx => List.mem_flatMap.mp (h.mem_iff.mpr hx)⟩
  · rintro ⟨hdisjoint, hcover⟩
    refine (List.perm_ext_iff_of_nodup (hnodup.mpr hdisjoint) hl).mpr fun x => ⟨fun hx => ?_, ?_⟩
    · obtain ⟨p, hp, hx⟩ := List.mem_flatMap.mp hx
      exact hmem p hp x hx
    · exact fun hx => List.mem_flatMap.mpr (hcover x hx)

theorem exists_treeRoot (hl : Distinct l) {x : ProcessEntry} (hx : x ∈ l) :
    ∃ root ∈ treeRoots l (Multimap.ofLinks parent l), Forest.Below (Linked parent l) root x := by
  rw [treeRoots_eq hl]
  exact Forest.exists_mem_picks (Forest.Below (Linked parent l))
    (fun _ => Relation.ReflTransGen.refl) (unlinked parent l) hx

/-- **The app trees are a partition exactly when cycles come first.** -/
theorem treeGroups_perm_iff (hl : Distinct l)
    (hparent : ∀ p ∈ l, ∀ k, parent p = some k → k ∈ l.map ProcessEntry.pid)
    (hlt : l.Pairwise lt) (hasymm : ∀ a b, lt a b → ¬ lt b a) :
    ((treeRoots l (Multimap.ofLinks parent l)).flatMap fun root =>
        treeGroupMembers root (Multimap.ofLinks parent l)).Perm l ↔
      Forest.CyclesFirst (Linked parent l) lt := by
  have hroot : ∀ root ∈ treeRoots l (Multimap.ofLinks parent l), root ∈ l :=
    fun root h => mem_of_mem_treeRoots hl h
  rw [flatMap_perm_iff (hl.of_map _) (fun root _ => nodup_treeGroupMembers root _)
    fun root h x hx => ((mem_treeGroupMembers hl (hroot root h)).mp hx).1]
  have hcover : ∀ x ∈ l, ∃ root ∈ treeRoots l (Multimap.ofLinks parent l),
      x ∈ treeGroupMembers root (Multimap.ofLinks parent l) := by
    intro x hx
    obtain ⟨root, h, hbelow⟩ := exists_treeRoot hl hx
    exact ⟨root, h, (mem_treeGroupMembers hl (hroot root h)).mpr ⟨hx, hbelow⟩⟩
  rw [and_iff_left hcover, ← Forest.disjoint_picks_iff (Multimap.leftUnique_linked hl)
    (fun _ _ h => ⟨h.1, h.2.1⟩) (fun _ => mem_unlinked_iff hl hparent) (nodup_unlinked hl) hlt
    hasymm, ← treeRoots_eq hl]
  refine List.Pairwise.iff_of_mem fun {p q} hp hq => forall_congr' fun x => not_congr ?_
  rw [mem_treeGroupMembers hl (hroot p hp), mem_treeGroupMembers hl (hroot q hq)]
  constructor
  · rintro ⟨h, h'⟩
    exact ⟨h.2, h'.2⟩
  · rintro ⟨h, h'⟩
    have hx : x ∈ l := by
      rcases Relation.ReflTransGen.cases_tail h with heq | ⟨y, -, hlink⟩
      · exact heq ▸ hroot p hp
      · exact hlink.2.1
    exact ⟨⟨hx, h⟩, hx, h'⟩

end Trees

/-! ### The families and runs of the other sections -/

section Families

variable {parent : ProcessEntry → Option ℕ} {l : List ProcessEntry} {host : PageHost}
  {table : FamilyTable}

theorem Run.eq (hl : Distinct l) {key key' : ℕ × Text} {head head' x : ProcessEntry}
    {rest rest' : List ProcessEntry} (hrun : Run (sectionRuns host parent l) key head rest)
    (hrun' : Run (sectionRuns host parent l) key' head' rest') (hx : x ∈ head :: rest)
    (hx' : x ∈ head' :: rest') : head = head' ∧ rest = rest' := by
  obtain rfl : key = key' :=
    apart_sectionRuns parent host hl key key' x x (hrun.mem_iff.mp hx) (hrun'.mem_iff.mp hx') rfl
  exact hrun.unique hrun'

theorem Grouped.topmost (h : Grouped host parent l table) (hl : Distinct l) {p : ProcessEntry}
    (hp : p ∈ table.display l) : Forest.Topmost (Linked parent l) Joins l p := by
  rw [FamilyTable.display, List.mem_filter, decide_eq_true_iff] at hp
  exact ((h.notMem_swallowed_iff hl hp.1).mp hp.2).1

/-- What it stands for is in its family or in its run. -/
theorem Grouped.mem_members_iff (h : Grouped host parent l table) (hl : Distinct l)
    {p x : ProcessEntry} (hp : p ∈ table.display l) :
    x ∈ table.members p ↔ FamilyOf parent l p x ∨
      ∃ key rest, Run (sectionRuns host parent l) key p rest ∧ x ∈ p :: rest := by
  rw [FamilyTable.display, List.mem_filter, decide_eq_true_iff] at hp
  have hnot : ∀ {key rest}, Run (sectionRuns host parent l) key p rest →
      ∀ y, FamilyOf parent l p y → y = p :=
    fun hrun => (alone_of_mem_run hl hrun List.mem_cons_self).2.2.1
  unfold FamilyTable.members
  cases h.stands hl hp.1 hp.2 with
  | family hcount hheads =>
    rw [hheads, Option.getD_some, mem_applicationFamily hl hp.1]
    refine ⟨Or.inl, fun hx => hx.resolve_right ?_⟩
    rintro ⟨key, rest, hrun, -⟩
    obtain ⟨⟨tail, htail⟩, hnodup, hmem⟩ := applicationFamily_spec parent hl hp.1
    obtain ⟨y, hy⟩ : ∃ y, y ∈ (applicationFamily p (Multimap.ofLinks parent l)).drop 1 := by
      refine List.exists_mem_of_length_pos ?_
      rw [List.length_drop]
      omega
    obtain ⟨hfam, hne⟩ := (mem_drop_applicationFamily hl hp.1).mp hy
    exact hne (hnot hrun y hfam)
  | run key rest hrun hheads =>
    rw [hheads, Option.getD_some]
    constructor
    · exact fun hx => Or.inr ⟨key, rest, hrun, hx⟩
    · rintro (hx | ⟨key', rest', hrun', hx⟩)
      · rw [hnot hrun x hx]
        exact List.mem_cons_self
      · obtain ⟨-, rfl⟩ := hrun.eq hl hrun' List.mem_cons_self List.mem_cons_self
        exact hx
  | alone hself hheads hrun =>
    rw [hheads, Option.getD_none, List.mem_singleton]
    constructor
    · rintro rfl
      exact Or.inl (Forest.Family.refl x)
    · rintro (hx | ⟨key, rest, hrun', -⟩)
      · exact hself x hx
      · exact absurd List.mem_cons_self (hrun key p rest hrun')

/-- Nobody is behind the head of a run who heads one. -/
theorem Grouped.head_mem_display (h : Grouped host parent l table) (hl : Distinct l)
    {key : ℕ × Text} {head : ProcessEntry} {rest : List ProcessEntry}
    (hrun : Run (sectionRuns host parent l) key head rest) : head ∈ table.display l := by
  obtain ⟨hhead, htop, -, -⟩ := alone_of_mem_run hl hrun List.mem_cons_self
  rw [FamilyTable.display, List.mem_filter, decide_eq_true_iff, h.notMem_swallowed_iff hl hhead]
  refine ⟨hhead, htop, fun key' head' rest' hrun' hmem => ?_⟩
  obtain ⟨-, rfl⟩ := hrun.eq hl hrun' List.mem_cons_self (List.mem_cons_of_mem _ hmem)
  exact (List.nodup_cons.mp (hrun.distinct hl).of_map).1 hmem

/-- Two processes with rows of their own stand for different processes. -/
theorem Grouped.eq_of_mem_members (h : Grouped host parent l table) (hl : Distinct l)
    {p q x : ProcessEntry} (hp : p ∈ table.display l) (hq : q ∈ table.display l)
    (hpx : x ∈ table.members p) (hqx : x ∈ table.members q) : p = q := by
  -- a member of a run is topmost, so a head with it in its family is that member
  have hmixed : ∀ {p q : ProcessEntry}, p ∈ table.display l → q ∈ table.display l →
      FamilyOf parent l p x → ∀ {key rest}, Run (sectionRuns host parent l) key q rest →
        x ∈ q :: rest → p = q := by
    intro p q hp hq hpx key rest hrun hqx
    obtain ⟨-, hx, -⟩ := alone_of_mem_run hl hrun hqx
    obtain rfl : p = x := hx.2 p (h.topmost hl hp).1 hpx
    refine (List.mem_cons.mp hqx).resolve_right fun hmem => ?_
    rw [FamilyTable.display, List.mem_filter, decide_eq_true_iff] at hp
    exact ((h.notMem_swallowed_iff hl hp.1).mp hp.2).2 key q rest hrun hmem
  rw [h.mem_members_iff hl hp] at hpx
  rw [h.mem_members_iff hl hq] at hqx
  rcases hpx with hpx | ⟨key, rest, hrun, hpx⟩
  · rcases hqx with hqx | ⟨key', rest', hrun', hqx⟩
    · exact (h.topmost hl hp).eq (Multimap.leftUnique_linked hl) (h.topmost hl hq) hpx hqx
    · exact hmixed hp hq hpx hrun' hqx
  · rcases hqx with hqx | ⟨key', rest', hrun', hqx⟩
    · exact (hmixed hq hp hqx hrun hpx).symm
    · exact (hrun.eq hl hrun' hpx hqx).1

/-- **Somebody with a row of his own stands for a process exactly if a topmost head accepts it.** -/
theorem Grouped.covered_iff (h : Grouped host parent l table) (hl : Distinct l)
    {x : ProcessEntry} :
    (∃ p ∈ table.display l, x ∈ table.members p) ↔
      ∃ d, Forest.Topmost (Linked parent l) Joins l d ∧ FamilyOf parent l d x := by
  constructor
  · rintro ⟨p, hp, hx⟩
    rcases (h.mem_members_iff hl hp).mp hx with hx | ⟨key, rest, hrun, hx⟩
    · exact ⟨p, h.topmost hl hp, hx⟩
    · exact ⟨x, (alone_of_mem_run hl hrun hx).2.1, Forest.Family.refl x⟩
  · rintro ⟨d, hd, hx⟩
    have hdl : d ∈ l := mem_of_mem_familyLeads hd.1
    by_cases hrun : ∃ key head rest, Run (sectionRuns host parent l) key head rest ∧ d ∈ rest
    · -- a process behind the head of a run accepts nobody
      obtain ⟨key, head, rest, hrun, hmem⟩ := hrun
      obtain ⟨-, -, hself, -⟩ := alone_of_mem_run hl hrun (List.mem_cons_of_mem _ hmem)
      have hhead := h.head_mem_display hl hrun
      refine ⟨head, hhead, (h.mem_members_iff hl hhead).mpr (Or.inr ⟨key, rest, hrun, ?_⟩)⟩
      rw [hself x hx]
      exact List.mem_cons_of_mem _ hmem
    · have hdisplay : d ∈ table.display l := by
        rw [FamilyTable.display, List.mem_filter, decide_eq_true_iff,
          h.notMem_swallowed_iff hl hdl]
        exact ⟨hdl, hd, fun key head rest hr hmem => hrun ⟨key, head, rest, hr, hmem⟩⟩
      exact ⟨d, hdisplay, (h.mem_members_iff hl hdisplay).mpr (Or.inl hx)⟩

/-- **The families and runs of a section are a partition exactly when the families nest.** -/
theorem families_perm_iff (h : Grouped host parent l table) (hl : Distinct l) :
    ((table.display l).flatMap table.members).Perm l ↔ Forest.Nested (Linked parent l) Joins l := by
  have hstands : ∀ p ∈ table.display l, p ∈ l ∧ Stands host parent l table p := by
    intro p hp
    rw [FamilyTable.display, List.mem_filter, decide_eq_true_iff] at hp
    exact ⟨hp.1, h.stands hl hp.1 hp.2⟩
  have hdisjoint : (table.display l).Pairwise fun p q =>
      ∀ x, ¬ (x ∈ table.members p ∧ x ∈ table.members q) := by
    have hnodup : (table.display l).Nodup := (hl.of_map _).filter _
    refine hnodup.imp_of_mem fun {p q} hp hq hne x hx => ?_
    exact hne (h.eq_of_mem_members hl hp hq hx.1 hx.2)
  rw [flatMap_perm_iff (hl.of_map _)
    (fun p hp => ((hstands p hp).2.members hl (hstands p hp).1).2.of_map _)
    fun p hp x hx => (hstands p hp).2.mem_of_mem_members hl (hstands p hp).1 hx,
    and_iff_right hdisjoint, ← Forest.covered_iff (Multimap.leftUnique_linked hl)
      fun _ _ hlink => ⟨hlink.1, hlink.2.1⟩]
  exact forall₂_congr fun x _ => h.covered_iff hl

end Families

/-! ### The blocks of the page -/

section Sections

variable {host : PageHost} {hash : PageHash} {x : PageInput}

/-- A process comes before another in the order of creation. -/
def CreatedBefore (a b : ProcessEntry) : Prop := creationOrder a b = .lt

theorem CreatedBefore.asymm {a b : ProcessEntry} (h : CreatedBefore a b) : ¬ CreatedBefore b a := by
  intro h'
  have hgt : creationOrder a b = .gt := Std.OrientedCmp.gt_of_lt h'
  rw [CreatedBefore, hgt] at h
  cases h

/-- The processes of the page stand in the order of creation. -/
theorem pairwise_byCreation {snap : Snapshot} (h : Distinct snap.processes) :
    (byCreation snap).Pairwise CreatedBefore := by
  have hdistinct : (byCreation snap).Pairwise fun a b => a.pid ≠ b.pid :=
    List.pairwise_map.mp (distinct_byCreation h)
  refine (pairwise_sortBy snap.processes).imp₂ (fun a b hle hne => ?_) hdistinct
  cases horder : creationOrder a b with
  | lt => exact horder
  | eq => exact absurd (pid_eq_of_creationOrder horder) hne
  | gt => exact absurd horder hle

/-- The blocks of the three sections. -/
def pageBlocks (host : PageHost) (hash : PageHash) (x : PageInput) : List Block :=
  [0, 1, 2].flatMap fun gi => sectionBlocks host hash x (sectionCategory gi)

/-- The blocks of the Apps section are a partition of it exactly when cycles come first. -/
theorem appBlocks_perm_iff (hall : Distinct x.all) (hlt : x.all.Pairwise CreatedBefore) :
    ((sectionBlocks host hash x .app).flatMap Block.members).Perm (x.members .app) ↔
      Forest.CyclesFirst (PageLinked x.groups (x.members .app)) CreatedBefore := by
  have hmembers := distinct_members hall .app
  rw [← treeGroups_perm_iff hmembers (fun _ _ _ hk => mem_of_displayParent hk)
    (hlt.filter _) fun _ _ => CreatedBefore.asymm]
  refine List.Perm.congr_left ?_ _
  rw [sectionBlocks, if_pos rfl, List.flatMap_map, sortEntries]
  refine ((sortBy_perm _ _).flatMap_right _).trans ?_
  refine List.Perm.of_eq (List.flatMap_congr fun root hroot => ?_)
  exact members_treeBlock host hash x.subtree x.sortCol x.ascending hmembers
    (mem_of_mem_treeRoots hmembers hroot)

/-- Those of another section are exactly when its families nest. -/
theorem familyBlocks_perm_iff (hall : Distinct x.all) {cat : ProcCategory} (hcat : cat ≠ .app) :
    ((sectionBlocks host hash x cat).flatMap Block.members).Perm (x.members cat) ↔
      Forest.Nested (PageLinked x.groups (x.members cat)) Joins (x.members cat) := by
  have hmembers := distinct_members hall cat
  have hgrouped : Grouped host _ (x.members cat)
      (familyTable host hash (x.members cat) (x.children cat)) := familyTable_spec hmembers hash
  rw [← families_perm_iff hgrouped hmembers]
  refine List.Perm.congr_left ?_ _
  rw [sectionBlocks, if_neg hcat, List.flatMap_map, sortEntries]
  refine ((sortBy_perm _ _).flatMap_right _).trans ?_
  exact List.Perm.of_eq (List.flatMap_congr fun p _ => members_familyBlock hash _ _ p)

/-- The sections are a partition of the processes. -/
theorem sections_perm (hall : x.all.Nodup) :
    ([0, 1, 2].flatMap fun gi => x.members (sectionCategory gi)).Perm x.all := by
  have hcat : ∀ p : ProcessEntry, ∀ cat, p ∈ x.members cat ↔
      p ∈ x.all ∧ (x.groups.category p.pid).getD p.category = cat := by
    intro p cat
    rw [PageInput.members, sectionMembers, List.mem_filter, decide_eq_true_iff]
  refine (List.perm_ext_iff_of_nodup ?_ hall).mpr fun p => ?_
  · refine List.nodup_flatMap.mpr ⟨fun gi _ => hall.filter _, ?_⟩
    have hdisjoint : ∀ cat cat', cat ≠ cat' → List.Disjoint (x.members cat) (x.members cat') :=
      fun cat cat' hne p hp hp' => hne (((hcat p cat).mp hp).2.symm.trans ((hcat p cat').mp hp').2)
    simp [Function.onFun, sectionCategory, hdisjoint]
  · simp only [List.mem_flatMap, hcat]
    constructor
    · rintro ⟨gi, -, hp, -⟩
      exact hp
    · intro hp
      cases hpcat : (x.groups.category p.pid).getD p.category with
      | app => exact ⟨0, by simp, hp, rfl⟩
      | background => exact ⟨1, by simp, hp, rfl⟩
      | system => exact ⟨2, by simp, hp, rfl⟩

/-- The blocks of the page are a partition exactly when those of each section are one of it. -/
theorem pageBlocks_perm_iff (hall : Distinct x.all) :
    ((pageBlocks host hash x).flatMap Block.members).Perm x.all ↔
      ∀ cat, ((sectionBlocks host hash x cat).flatMap Block.members).Perm (x.members cat) := by
  have hnodup : x.all.Nodup := hall.of_map _
  rw [pageBlocks, List.flatMap_assoc]
  constructor
  · intro h cat
    obtain ⟨gi, hgi, rfl⟩ : ∃ gi ∈ [0, 1, 2], sectionCategory gi = cat := by
      cases cat with
      | app => exact ⟨0, by simp, rfl⟩
      | background => exact ⟨1, by simp, rfl⟩
      | system => exact ⟨2, by simp, rfl⟩
    have hpart := (List.nodup_flatMap.mp (h.nodup_iff.mpr hnodup)).1 gi hgi
    refine (List.perm_ext_iff_of_nodup hpart (hnodup.filter _)).mpr fun p => ⟨fun hp => ?_, ?_⟩
    · obtain ⟨b, hb, hp⟩ := List.mem_flatMap.mp hp
      exact members_of_mem_sectionBlocks hall hb p hp
    · intro hp
      obtain ⟨gi', -, hp'⟩ := List.mem_flatMap.mp (h.mem_iff.mpr (List.mem_filter.mp hp).1)
      obtain ⟨b, hb, hpb⟩ := List.mem_flatMap.mp hp'
      -- a process is in one section
      have hother := (List.mem_filter.mp (members_of_mem_sectionBlocks hall hb p hpb)).2
      have hsame := (List.mem_filter.mp hp).2
      rw [decide_eq_true_iff] at hother hsame
      rw [← hsame, hother]
      exact hp'
  · intro h
    exact (List.Perm.flatMap_left _ fun gi _ => h (sectionCategory gi)).trans (sections_perm hnodup)

theorem mem_pageBlocks_iff {b : Block} :
    b ∈ pageBlocks host hash x ↔ ∃ cat, b ∈ sectionBlocks host hash x cat := by
  rw [pageBlocks, List.mem_flatMap]
  constructor
  · rintro ⟨gi, -, hb⟩
    exact ⟨_, hb⟩
  · rintro ⟨cat, hb⟩
    cases cat with
    | app => exact ⟨0, by simp, hb⟩
    | background => exact ⟨1, by simp, hb⟩
    | system => exact ⟨2, by simp, hb⟩

theorem valid_of_mem_pageBlocks (hall : Distinct x.all) {b : Block}
    (hb : b ∈ pageBlocks host hash x) : b.Valid host hash ∧ ∀ p ∈ b.members, p ∈ x.all := by
  obtain ⟨cat, hb⟩ := mem_pageBlocks_iff.mp hb
  exact valid_of_mem_sectionBlocks hall hb

end Sections

/-! ### The rows of the page -/

/-- The process rows among some rows. -/
def processRows (rows : List DisplayRow) : List RowData :=
  rows.filterMap fun r =>
    match r with
    | .groupHeader _ _ => none
    | .process row => some row

/-- A row at depth 0 that stands for processes that are not synthetic. -/
def RowData.heads (row : RowData) : Bool := decide (row.depth = 0) && !row.synthetic

/-- What the rows of the page say of every process. -/
structure ShownOnce (snap : Snapshot) (page : Finset ℕ → List DisplayRow) : Prop where
  /-- Every process that is not synthetic is a target of one row of depth 0. -/
  targets : ∀ expanded,
    (((processRows (page expanded)).filter RowData.heads).flatMap RowData.terminationTargets).Perm
      ((snap.processes.filter fun p => !p.synthetic).map processIdentity)
  /-- Every synthetic process has one row. -/
  synthetic : ∀ expanded,
    (((processRows (page expanded)).filter RowData.synthetic).map identityOf).Perm
      ((snap.processes.filter ProcessEntry.synthetic).map processIdentity)
  /-- Every process has one row of its own where all heads are expanded. -/
  concrete : ∀ expanded, (∀ row ∈ processRows (page expanded), row.aggregate = true →
      row.pid ∈ expanded) →
    (((processRows (page expanded)).filter fun row => !row.aggregate).map identityOf).Perm
      (snap.processes.map processIdentity)
  /-- The additive columns of the rows of depth 0 are those of the machine. -/
  additive : ∀ expanded i, Additive i →
    (((processRows (page expanded)).filter fun row => decide (row.depth = 0)).map
      fun row => row.values i).sum = (snap.processes.map fun p => ownValues p i).sum

/-- The rows of a block, as process rows. -/
def Block.shown (expanded : Finset ℕ) (b : Block) : List RowData :=
  b.head :: if b.head.aggregate = true ∧ b.head.pid ∈ expanded then b.body else []

theorem processRows_block (expanded : Finset ℕ) (b : Block) :
    processRows (b.rows expanded) = b.shown expanded := by
  unfold Block.rows Block.shown processRows
  rw [List.filterMap_cons]
  dsimp only
  split
  · rw [List.filterMap_map]
    exact congrArg _ (List.filterMap_some)
  · rfl

/-- The blocks among some headers and blocks. -/
def blocksOf (items : List Item) : List Block :=
  items.filterMap fun item =>
    match item with
    | .header _ _ => none
    | .block b => some b

theorem blocksOf_map_block (blocks : List Block) : blocksOf (blocks.map Item.block) = blocks := by
  rw [blocksOf, List.filterMap_map]
  exact List.filterMap_some

/-- The process rows of some headers and blocks are those of the blocks. -/
theorem processRows_items (expanded : Finset ℕ) (items : List Item) :
    processRows (items.flatMap (Item.rows expanded)) =
      (blocksOf items).flatMap (Block.shown expanded) := by
  induction items with
  | nil => rfl
  | cons item items ih =>
    rw [List.flatMap_cons, processRows, List.filterMap_append, ← processRows, ← processRows, ih]
    cases item with
    | header gi total => rfl
    | block b =>
      rw [Item.rows, processRows_block]
      rfl

theorem processRows_normalizeHeat (rows : List DisplayRow) :
    processRows (normalizeHeat rows) =
      (processRows rows).map fun row => row.withHeat (columnMax rows) := by
  rw [normalizeHeat, processRows, processRows, List.filterMap_map, List.map_filterMap]
  refine List.filterMap_congr fun r _ => ?_
  cases r <;> rfl

/-- Without a search the page has the blocks of its sections. -/
theorem blocksOf_displayItems (host : PageHost) (hash : PageHash) (snap : Snapshot)
    {rawSearch : Text} (hsearch : (Search.Query.new host rawSearch).isEmpty = true) (sortCol : ℕ)
    (ascending : Bool) :
    (blocksOf (displayItems host hash snap rawSearch sortCol ascending fun _ => false)).Perm
      (pageBlocks host hash (pageInput hash snap sortCol ascending)) := by
  dsimp only [displayItems]
  rw [hsearch, if_neg (by simp)]
  by_cases hcol : FIXED_COLS ≤ sortCol
  · rw [if_pos hcol, blocksOf_map_block]
    exact sortBy_perm _ _
  · rw [if_neg hcol, blocksOf, List.filterMap_flatMap]
    refine List.Perm.of_eq (List.flatMap_congr fun gi _ => ?_)
    rw [if_neg Bool.false_ne_true, List.filterMap_cons]
    exact blocksOf_map_block _

/-- **The process rows of the page without a search are those of the blocks of its sections.** -/
theorem processRows_perm (host : PageHost) (hash : PageHash) {snap : Snapshot}
    (h : Distinct snap.processes) {rawSearch : Text}
    (hsearch : (Search.Query.new host rawSearch).isEmpty = true) (sortCol : ℕ) (ascending : Bool)
    (expanded : Finset ℕ) :
    ∃ maxima, (processRows (buildDisplayRows host hash snap rawSearch sortCol ascending expanded
      fun _ => false)).Perm
        (((pageBlocks host hash (pageInput hash snap sortCol ascending)).flatMap
          (Block.shown expanded)).map fun row => row.withHeat maxima) := by
  rw [buildDisplayRows_eq host hash h, processRows_normalizeHeat, processRows_items]
  exact ⟨_, ((blocksOf_displayItems host hash snap hsearch sortCol ascending).flatMap_right
    _).map _⟩

/-- A process row of the page is one of a block, with some heat. -/
theorem mem_processRows_iff (host : PageHost) (hash : PageHash) {snap : Snapshot}
    (h : Distinct snap.processes) {rawSearch : Text}
    (hsearch : (Search.Query.new host rawSearch).isEmpty = true) (sortCol : ℕ) (ascending : Bool)
    (expanded : Finset ℕ) :
    ∃ maxima, ∀ row, row ∈ processRows (buildDisplayRows host hash snap rawSearch sortCol ascending
      expanded fun _ => false) ↔
        ∃ b ∈ pageBlocks host hash (pageInput hash snap sortCol ascending),
          ∃ raw ∈ b.shown expanded, row = raw.withHeat maxima := by
  obtain ⟨maxima, hperm⟩ := processRows_perm host hash h hsearch sortCol ascending expanded
  refine ⟨maxima, fun row => ?_⟩
  rw [hperm.mem_iff, List.mem_map]
  constructor
  · rintro ⟨raw, hraw, rfl⟩
    obtain ⟨b, hb, hraw⟩ := List.mem_flatMap.mp hraw
    exact ⟨b, hb, raw, hraw, rfl⟩
  · rintro ⟨b, hb, raw, hraw, rfl⟩
    exact ⟨raw, List.mem_flatMap.mpr ⟨b, hb, hraw⟩, rfl⟩

/-! ### What a block says of its processes -/

section Blocks

variable {host : PageHost} {hash : PageHash} {b : Block}

/-- The targets of a block are its processes that are not synthetic. -/
theorem Block.Valid.targets (h : b.Valid host hash) (expanded : Finset ℕ) :
    ((b.shown expanded).filter RowData.heads).flatMap RowData.terminationTargets =
      (b.members.filter fun p => !p.synthetic).map processIdentity := by
  cases h with
  | single p =>
    cases hp : p.synthetic <;>
      simp [Block.shown, makeOwnRow, RowData.heads, hp]
  | @group root members head listing hroot hcount hhead hlisting hdepth =>
    have hbody : (if head.aggregate = true ∧ head.pid ∈ expanded then memberRows host listing
        else []).filter RowData.heads = [] := by
      rw [List.filter_eq_nil_iff]
      intro row hrow
      split at hrow
      · obtain ⟨x, hx, rfl⟩ := List.mem_map.mp hrow
        intro hheads
        have hzero : x.2 = 0 := of_decide_eq_true (Bool.and_eq_true_iff.mp hheads).1
        exact Nat.one_le_iff_ne_zero.mp (hdepth x hx) hzero
      · cases hrow
    have hheads : head.heads = true := by simp [RowData.heads, hhead.depth, hhead.synthetic]
    rw [Block.shown, List.filter_cons_of_pos hheads, hbody, List.flatMap_cons, List.flatMap_nil,
      List.append_nil, hhead.targets, groupTargets]

/-- An additive column of the rows of depth 0 of a block is the sum over its processes. -/
theorem Block.Valid.column (h : b.Valid host hash) (expanded : Finset ℕ) {i : Fin VALUE_COLS}
    (hi : Additive i) :
    (((b.shown expanded).filter fun row => decide (row.depth = 0)).map
      fun row => row.values i).sum = (b.members.map fun p => ownValues p i).sum := by
  have hbody : (if b.head.aggregate = true ∧ b.head.pid ∈ expanded then b.body else []).filter
      (fun row => decide (row.depth = 0)) = [] := by
    rw [List.filter_eq_nil_iff]
    intro row hrow
    split at hrow
    · obtain ⟨-, p, -, depth, hdepth, rfl⟩ := h.mem_body hrow
      exact fun hzero => Nat.one_le_iff_ne_zero.mp hdepth (of_decide_eq_true hzero)
    · cases hrow
  rw [Block.shown, List.filter_cons_of_pos (p := fun row : RowData => decide (row.depth = 0))
    (decide_eq_true h.depth_head), hbody, List.map_singleton, List.sum_singleton, h.additive hi]

/-- An expanded block has a row of its own for each of its processes. -/
theorem Block.Valid.concrete (h : b.Valid host hash) {expanded : Finset ℕ}
    (hexpanded : b.head.aggregate = true → b.head.pid ∈ expanded) :
    (((b.shown expanded).filter fun row => !row.aggregate).map identityOf).Perm
      (b.members.map processIdentity) := by
  cases h with
  | single p => exact List.Perm.refl _
  | @group root members head listing hroot hcount hhead hlisting hdepth =>
    have hbody : (memberRows host listing).filter (fun row => !row.aggregate) =
        memberRows host listing := by
      refine List.filter_eq_self.mpr fun row hrow => ?_
      obtain ⟨x, -, rfl⟩ := List.mem_map.mp hrow
      rfl
    rw [Block.shown, if_pos ⟨hhead.aggregate, hexpanded hhead.aggregate⟩,
      List.filter_cons_of_neg (by simp [hhead.aggregate]), hbody, memberRows, List.map_map]
    refine List.Perm.trans (List.Perm.of_eq ?_) (hlisting.map processIdentity)
    rw [List.map_map]
    rfl

/-- A collapsed block shows a synthetic process only if that is all it stands for. -/
theorem Block.Valid.members_of_synthetic (h : b.Valid host hash) {row : RowData}
    (hrow : row ∈ b.shown ∅) (hsynthetic : row.synthetic = true) :
    ∃ p, b.members = [p] ∧ b.head.aggregate = false ∧ identityOf row = processIdentity p := by
  have hempty : b.shown ∅ = [b.head] := by simp [Block.shown]
  rw [hempty, List.mem_singleton] at hrow
  subst hrow
  cases h with
  | single p => exact ⟨p, rfl, rfl, rfl⟩
  | group hroot hcount hhead =>
    rw [hhead.synthetic] at hsynthetic
    cases hsynthetic

/-- The synthetic rows of a block that does not group synthetic processes. -/
theorem Block.Valid.synthetic (h : b.Valid host hash)
    (hnone : b.head.aggregate = true → ∀ p ∈ b.members, p.synthetic = false)
    (expanded : Finset ℕ) :
    ((b.shown expanded).filter RowData.synthetic).map identityOf =
      (b.members.filter ProcessEntry.synthetic).map processIdentity := by
  cases hagg : b.head.aggregate with
  | false =>
    cases h with
    | single p => cases hp : p.synthetic <;> simp [Block.shown, makeOwnRow, hp, identityOf,
        processIdentity]
    | group hroot hcount hhead =>
      rw [hhead.aggregate] at hagg
      cases hagg
  | true =>
    have hmembers : b.members.filter ProcessEntry.synthetic = [] :=
      List.filter_eq_nil_iff.mpr fun p hp => Bool.eq_false_iff.mp (hnone hagg p hp)
    have hrows : (b.shown expanded).filter RowData.synthetic = [] := by
      refine List.filter_eq_nil_iff.mpr fun row hrow => ?_
      rcases List.mem_cons.mp hrow with rfl | hrow
      · cases h with
        | single p => cases hagg
        | group hroot hcount hhead => exact Bool.eq_false_iff.mp hhead.synthetic
      · split at hrow
        · obtain ⟨-, p, hp, depth, -, rfl⟩ := h.mem_body hrow
          exact Bool.eq_false_iff.mp (hnone hagg p hp)
        · cases hrow
    rw [hmembers, hrows]
    rfl

end Blocks

/-! ### The page as blocks -/

section Page

variable {snap : Snapshot}

/-- A list of processes of the snapshot with the identities of all of them is one of all of
them. -/
theorem perm_of_map_identity (h : Distinct snap.processes) {l : List ProcessEntry}
    (hl : ∀ p ∈ l, p ∈ snap.processes)
    (hperm : (l.map processIdentity).Perm (snap.processes.map processIdentity)) :
    l.Perm snap.processes := by
  have hpids : (l.map ProcessEntry.pid).Perm (snap.processes.map ProcessEntry.pid) := by
    have hmap := hperm.map ProcessIdentity.pid
    rwa [List.map_map, List.map_map] at hmap
  have hnodup : Distinct l := hpids.nodup_iff.mpr h
  refine (List.perm_ext_iff_of_nodup (hnodup.of_map _) (h.of_map _)).mpr fun p => ⟨hl p, ?_⟩
  intro hp
  obtain ⟨q, hq, hpid⟩ := List.mem_map.mp (hpids.mem_iff.mpr (List.mem_map_of_mem hp))
  rwa [← Multimap.eq_of_key h (hl q hq) hp hpid]

/-- The rows of the page that heat does not pick. -/
theorem filter_processRows_perm (host : PageHost) (hash : PageHash) (h : Distinct snap.processes)
    {rawSearch : Text} (hsearch : (Search.Query.new host rawSearch).isEmpty = true) (sortCol : ℕ)
    (ascending : Bool) (expanded : Finset ℕ) (ok : RowData → Bool)
    (hok : ∀ row maxima, ok (row.withHeat maxima) = ok row) :
    ∃ maxima, ((processRows (buildDisplayRows host hash snap rawSearch sortCol ascending expanded
      fun _ => false)).filter ok).Perm
        (((pageBlocks host hash (pageInput hash snap sortCol ascending)).flatMap fun b =>
          (b.shown expanded).filter ok).map fun row => row.withHeat maxima) := by
  obtain ⟨maxima, hperm⟩ := processRows_perm host hash h hsearch sortCol ascending expanded
  refine ⟨maxima, (hperm.filter ok).trans (List.Perm.of_eq ?_)⟩
  rw [List.filter_map, ← List.filter_flatMap]
  exact congrArg _ (List.filter_congr fun row _ => hok row maxima)

/-- What the picked rows of every block say, those of the page say. -/
theorem rows_perm (host : PageHost) (hash : PageHash) (h : Distinct snap.processes)
    {rawSearch : Text} (hsearch : (Search.Query.new host rawSearch).isEmpty = true) (sortCol : ℕ)
    (ascending : Bool) (expanded : Finset ℕ) {α : Type*} (ok : RowData → Bool)
    {g : RowData → List α}
    (hok : ∀ row maxima, ok (row.withHeat maxima) = ok row)
    (hg : ∀ row maxima, g (row.withHeat maxima) = g row) {f : List ProcessEntry → List α}
    (happend : ∀ l l', f (l ++ l') = f l ++ f l') (hnil : f [] = [])
    (hblocks : ∀ b ∈ pageBlocks host hash (pageInput hash snap sortCol ascending),
      (((b.shown expanded).filter ok).flatMap g).Perm (f b.members)) :
    (((processRows (buildDisplayRows host hash snap rawSearch sortCol ascending expanded
      fun _ => false)).filter ok).flatMap g).Perm
        (f ((pageBlocks host hash (pageInput hash snap sortCol ascending)).flatMap
          Block.members)) := by
  obtain ⟨maxima, hperm⟩ :=
    filter_processRows_perm host hash h hsearch sortCol ascending expanded ok hok
  refine (hperm.flatMap_right g).trans ?_
  rw [List.flatMap_map, List.flatMap_assoc]
  simp only [hg]
  refine (List.Perm.flatMap_left _ hblocks).trans (List.Perm.of_eq ?_)
  generalize pageBlocks host hash (pageInput hash snap sortCol ascending) = blocks
  induction blocks with
  | nil => exact hnil.symm
  | cons b blocks ih => rw [List.flatMap_cons, List.flatMap_cons, happend, ih]

/-- The rows of depth 0 of some blocks have the columns of their processes. -/
theorem sum_column {host : PageHost} {hash : PageHash} (expanded : Finset ℕ) {i : Fin VALUE_COLS}
    (hi : Additive i) (blocks : List Block) (hvalid : ∀ b ∈ blocks, b.Valid host hash) :
    ((blocks.flatMap fun b => (b.shown expanded).filter fun row => decide (row.depth = 0)).map
      fun row => row.values i).sum =
        ((blocks.flatMap Block.members).map fun p => ownValues p i).sum := by
  induction blocks with
  | nil => rfl
  | cons b blocks ih =>
    have hrest := ih fun c hc => hvalid c (List.mem_cons_of_mem _ hc)
    rw [List.flatMap_cons, List.flatMap_cons, List.map_append, List.map_append, List.sum_append,
      List.sum_append, (hvalid b List.mem_cons_self).column expanded hi, hrest]

/-- **The page shows every process once exactly when its blocks are a partition and none of them
groups a synthetic process.** -/
theorem shownOnce_iff_blocks (host : PageHost) (hash : PageHash) (h : Distinct snap.processes)
    {rawSearch : Text} (hsearch : (Search.Query.new host rawSearch).isEmpty = true) (sortCol : ℕ)
    (ascending : Bool) :
    ShownOnce snap (fun expanded => buildDisplayRows host hash snap rawSearch sortCol ascending
        expanded fun _ => false) ↔
      ((pageBlocks host hash (pageInput hash snap sortCol ascending)).flatMap Block.members).Perm
          snap.processes ∧
        ∀ b ∈ pageBlocks host hash (pageInput hash snap sortCol ascending),
          b.head.aggregate = true → ∀ p ∈ b.members, p.synthetic = false := by
  have hvalid : ∀ b ∈ pageBlocks host hash (pageInput hash snap sortCol ascending),
      b.Valid host hash ∧ ∀ p ∈ b.members, p ∈ snap.processes := by
    intro b hb
    obtain ⟨hb, hmem⟩ := valid_of_mem_pageBlocks (distinct_byCreation h) hb
    exact ⟨hb, fun p hp => mem_sortBy.mp (hmem p hp)⟩
  constructor
  · intro honce
    -- with every head expanded, each process has one row
    let heads : Finset ℕ := ((pageBlocks host hash (pageInput hash snap sortCol ascending)).map
      fun b => b.head.pid).toFinset
    have hheads : ∀ b ∈ pageBlocks host hash (pageInput hash snap sortCol ascending),
        b.head.pid ∈ heads := fun b hb => List.mem_toFinset.mpr (List.mem_map_of_mem hb)
    have hpartition : ((pageBlocks host hash (pageInput hash snap sortCol ascending)).flatMap
        Block.members).Perm snap.processes := by
      refine perm_of_map_identity h (fun p hp => ?_) ?_
      · obtain ⟨b, hb, hp⟩ := List.mem_flatMap.mp hp
        exact (hvalid b hb).2 p hp
      · have hrows := rows_perm host hash h hsearch sortCol ascending heads
          (fun row => !row.aggregate) (fun _ _ => rfl) (g := fun row => [identityOf row])
          (fun _ _ => rfl)
          (f := fun l => l.map processIdentity) (fun l l' => by simp) rfl fun b hb => by
            rw [← List.map_eq_flatMap]
            exact (hvalid b hb).1.concrete fun _ => hheads b hb
        rw [← List.map_eq_flatMap] at hrows
        refine hrows.symm.trans (honce.concrete heads fun row hrow hagg => ?_)
        obtain ⟨maxima, hmem⟩ := mem_processRows_iff host hash h hsearch sortCol ascending heads
        obtain ⟨b, hb, raw, hraw, rfl⟩ := (hmem row).mp hrow
        rcases List.mem_cons.mp hraw with rfl | hraw
        · exact hheads b hb
        · split at hraw
          · obtain ⟨-, p, -, depth, -, rfl⟩ := (hvalid b hb).1.mem_body hraw
            cases hagg
          · cases hraw
    refine ⟨hpartition, fun b hb hagg p hp => ?_⟩
    by_contra hsynthetic
    -- with no head expanded, a synthetic process is only shown by a block of its own
    have hps : p ∈ snap.processes := (hvalid b hb).2 p hp
    have htarget : processIdentity p ∈
        (snap.processes.filter ProcessEntry.synthetic).map processIdentity :=
      List.mem_map_of_mem (List.mem_filter.mpr ⟨hps, by simpa using hsynthetic⟩)
    obtain ⟨row, hrow, hidentity⟩ :=
      List.mem_map.mp ((honce.synthetic ∅).mem_iff.mpr htarget)
    obtain ⟨hrow, hrowsynthetic⟩ := List.mem_filter.mp hrow
    obtain ⟨maxima, hmem⟩ := mem_processRows_iff host hash h hsearch sortCol ascending ∅
    obtain ⟨c, hc, raw, hraw, rfl⟩ := (hmem row).mp hrow
    obtain ⟨q, hq, hcagg, hqidentity⟩ :=
      (hvalid c hc).1.members_of_synthetic hraw hrowsynthetic
    have hqc : q ∈ c.members := hq ▸ List.mem_singleton_self q
    have hpid : q.pid = p.pid :=
      congrArg ProcessIdentity.pid (hqidentity.symm.trans hidentity)
    obtain rfl : q = p := Multimap.eq_of_key h ((hvalid c hc).2 q hqc) hps hpid
    have hne : b ≠ c := by
      rintro rfl
      rw [hagg] at hcagg
      cases hcagg
    have hdisjoint := (List.nodup_flatMap.mp (hpartition.nodup_iff.mpr (h.of_map _))).2
    have hsymm : Std.Symm (Function.onFun List.Disjoint Block.members) :=
      ⟨fun _ _ hd => List.Disjoint.symm hd⟩
    exact hdisjoint.forall hb hc hne hp hqc
  · rintro ⟨hpartition, hnone⟩
    refine ⟨fun expanded => ?_, fun expanded => ?_, fun expanded hexpanded => ?_,
      fun expanded i hi => ?_⟩
    · refine (rows_perm host hash h hsearch sortCol ascending expanded _ (fun _ _ => rfl)
        (fun _ _ => rfl) (f := fun l => (l.filter fun p => !p.synthetic).map processIdentity)
        (fun l l' => by simp) rfl fun b hb => ?_).trans ((hpartition.filter _).map _)
      exact List.Perm.of_eq ((hvalid b hb).1.targets expanded)
    · rw [List.map_eq_flatMap]
      refine (rows_perm host hash h hsearch sortCol ascending expanded _ (fun _ _ => rfl)
        (fun _ _ => rfl) (f := fun l => (l.filter ProcessEntry.synthetic).map processIdentity)
        (fun l l' => by simp) rfl fun b hb => ?_).trans ((hpartition.filter _).map _)
      rw [← List.map_eq_flatMap, (hvalid b hb).1.synthetic (hnone b hb)]
    · rw [List.map_eq_flatMap]
      refine (rows_perm host hash h hsearch sortCol ascending expanded _ (fun _ _ => rfl)
        (fun _ _ => rfl) (f := fun l => l.map processIdentity)
        (fun l l' => by simp) rfl fun b hb => ?_).trans (hpartition.map _)
      rw [← List.map_eq_flatMap]
      refine (hvalid b hb).1.concrete fun hagg => ?_
      obtain ⟨maxima, hmem⟩ := mem_processRows_iff host hash h hsearch sortCol ascending expanded
      exact hexpanded (b.head.withHeat maxima)
        ((hmem _).mpr ⟨b, hb, b.head, List.mem_cons_self, rfl⟩) hagg
    · obtain ⟨maxima, hperm⟩ := filter_processRows_perm host hash h hsearch sortCol ascending
        expanded (fun row => decide (row.depth = 0)) fun _ _ => rfl
      rw [(hperm.map fun row => row.values i).sum_eq, List.map_map]
      refine (sum_column expanded hi _ fun b hb => (hvalid b hb).1).trans ?_
      exact (hpartition.map _).sum_eq

end Page

/-! ### Who is put under one head -/

/-- A process that heads its family, has nobody else in it, and repeats an image under a parent. -/
structure Lone (host : PageHost) (parent : ProcessEntry → Option ℕ) (l : List ProcessEntry)
    (key : ℕ × Text) (p : ProcessEntry) : Prop where
  topmost : Forest.Topmost (Linked parent l) Joins l p
  self : ∀ x, FamilyOf parent l p x → x = p
  key : siblingRunKey host p = some key

/-- The links of a section. -/
abbrev sectionParent (groups : DisplayGroups) (all : List ProcessEntry) (cat : ProcCategory) :
    ProcessEntry → Option ℕ :=
  displayParent ((sectionMembers groups all cat).map ProcessEntry.pid) groups

/-- Two processes are put under one head: something is linked above both, a head of the first pass
accepts both, or both repeat one image under one parent. -/
inductive Shares (host : PageHost) (groups : DisplayGroups) (all : List ProcessEntry)
    (p q : ProcessEntry) : Prop
  | tree (a : ProcessEntry) (ha : a ∈ sectionMembers groups all .app)
      (hp : Forest.Below (PageLinked groups (sectionMembers groups all .app)) a p)
      (hq : Forest.Below (PageLinked groups (sectionMembers groups all .app)) a q)
  | family (cat : ProcCategory) (hcat : cat ≠ .app) (d : ProcessEntry)
      (hd : Forest.Topmost (PageLinked groups (sectionMembers groups all cat)) Joins
        (sectionMembers groups all cat) d)
      (hp : FamilyOf (sectionParent groups all cat) (sectionMembers groups all cat) d p)
      (hq : FamilyOf (sectionParent groups all cat) (sectionMembers groups all cat) d q)
  | run (cat : ProcCategory) (hcat : cat ≠ .app) (key : ℕ × Text)
      (hp : Lone host (sectionParent groups all cat) (sectionMembers groups all cat) key p)
      (hq : Lone host (sectionParent groups all cat) (sectionMembers groups all cat) key q)

section Runs

variable {host : PageHost} {parent : ProcessEntry → Option ℕ} {l : List ProcessEntry}
  {table : FamilyTable}

/-- Lone processes with one key make a run. -/
theorem Lone.exists_run (hl : Distinct l) {key : ℕ × Text} {p q : ProcessEntry}
    (hp : Lone host parent l key p) (hq : Lone host parent l key q) (hne : q ≠ p) :
    ∃ head rest, Run (sectionRuns host parent l) key head rest ∧ p ∈ head :: rest ∧
      q ∈ head :: rest := by
  have hmem : ∀ {x}, Lone host parent l key x → x ∈ (sectionRuns host parent l).get key := by
    intro x hx
    have hxl : x ∈ l := mem_of_mem_familyLeads hx.topmost.1
    exact mem_sectionRuns.mpr ⟨⟨hxl, (notMem_swallowed_iff hl hxl).mpr hx.topmost,
      (headTable_heads_eq_none_iff hl hx.topmost).mpr hx.self⟩, hx.key⟩
  have hperm := sortBy_perm (fun a b : ProcessEntry => compare a.pid b.pid)
    ((sectionRuns host parent l).get key)
  have hlen : 2 ≤ ((sectionRuns host parent l).get key).length := by
    have hsub : [p, q].Subperm ((sectionRuns host parent l).get key) :=
      List.subperm_of_subset (by simpa using hne.symm) (by simpa using ⟨hmem hp, hmem hq⟩)
    exact hsub.length_le
  cases hsorted : sortBy (fun a b : ProcessEntry => compare a.pid b.pid)
      ((sectionRuns host parent l).get key) with
  | nil =>
    rw [hsorted] at hperm
    rw [← hperm.length_eq] at hlen
    cases hlen
  | cons head rest =>
    have hrun : Run (sectionRuns host parent l) key head rest := ⟨hlen, hsorted⟩
    exact ⟨head, rest, hrun, hrun.mem_iff.mpr (hmem hp), hrun.mem_iff.mpr (hmem hq)⟩

theorem Run.lone (hl : Distinct l) {key : ℕ × Text} {head x : ProcessEntry}
    {rest : List ProcessEntry} (hrun : Run (sectionRuns host parent l) key head rest)
    (hx : x ∈ head :: rest) : Lone host parent l key x := by
  obtain ⟨-, htop, hself, hkey⟩ := alone_of_mem_run hl hrun hx
  exact ⟨htop, hself, hkey⟩

/-- Whom a process with a row of its own stands for: a family, or lone processes with one key. -/
theorem Grouped.members_cases (h : Grouped host parent l table) (hl : Distinct l)
    {d p q : ProcessEntry} (hd : d ∈ table.display l) (hp : p ∈ table.members d)
    (hq : q ∈ table.members d) :
    (FamilyOf parent l d p ∧ FamilyOf parent l d q) ∨
      ∃ key, Lone host parent l key p ∧ Lone host parent l key q := by
  -- the head of a run accepts nobody, and is in the run itself
  by_cases hrun : ∃ key rest, Run (sectionRuns host parent l) key d rest
  · obtain ⟨key, rest, hrun⟩ := hrun
    have hmem : ∀ {x}, x ∈ table.members d → x ∈ d :: rest := by
      intro x hx
      rcases (h.mem_members_iff hl hd).mp hx with hx | ⟨key', rest', hrun', hx⟩
      · rw [(hrun.lone hl List.mem_cons_self).self x hx]
        exact List.mem_cons_self
      · obtain ⟨-, rfl⟩ := hrun.eq hl hrun' List.mem_cons_self List.mem_cons_self
        exact hx
    exact Or.inr ⟨key, hrun.lone hl (hmem hp), hrun.lone hl (hmem hq)⟩
  · have hfamily : ∀ {x}, x ∈ table.members d → FamilyOf parent l d x := fun hx =>
      ((h.mem_members_iff hl hd).mp hx).resolve_right
        fun ⟨key, rest, hr, _⟩ => hrun ⟨key, rest, hr⟩
    exact Or.inl ⟨hfamily hp, hfamily hq⟩

end Runs

section Groups

variable {host : PageHost} {hash : PageHash} {x : PageInput}

/-- The processes of one block share its head. -/
theorem shares_of_mem_members (hall : Distinct x.all) {b : Block}
    (hb : b ∈ pageBlocks host hash x) {p q : ProcessEntry} (hp : p ∈ b.members)
    (hq : q ∈ b.members) : Shares host x.groups x.all p q := by
  obtain ⟨cat, hb⟩ := mem_pageBlocks_iff.mp hb
  have hmembers := distinct_members hall cat
  unfold sectionBlocks at hb
  by_cases hcat : cat = .app
  · subst hcat
    rw [if_pos rfl] at hb
    obtain ⟨root, hroot, rfl⟩ := List.mem_map.mp hb
    rw [sortEntries, mem_sortBy] at hroot
    have hroot' : root ∈ x.members .app := mem_of_mem_treeRoots hmembers hroot
    rw [PageInput.children, displayChildrenMap,
      members_treeBlock host hash x.subtree x.sortCol x.ascending hmembers hroot',
      mem_treeGroupMembers hmembers hroot'] at hp hq
    exact Shares.tree root hroot' hp.2 hq.2
  · rw [if_neg hcat] at hb
    obtain ⟨d, hd, rfl⟩ := List.mem_map.mp hb
    rw [sortEntries, mem_sortBy] at hd
    rw [members_familyBlock] at hp hq
    have hgrouped : Grouped host _ (x.members cat)
        (familyTable host hash (x.members cat) (x.children cat)) := familyTable_spec hmembers hash
    rcases hgrouped.members_cases hmembers hd hp hq with ⟨hp, hq⟩ | ⟨key, hp, hq⟩
    · exact Shares.family cat hcat d (hgrouped.topmost hmembers hd) hp hq
    · exact Shares.run cat hcat key hp hq

/-- A block stands for a process once. -/
theorem nodup_members_of_mem_pageBlocks (hall : Distinct x.all) {b : Block}
    (hb : b ∈ pageBlocks host hash x) : b.members.Nodup := by
  obtain ⟨cat, hb⟩ := mem_pageBlocks_iff.mp hb
  have hmembers := distinct_members hall cat
  unfold sectionBlocks at hb
  by_cases hcat : cat = .app
  · rw [if_pos hcat] at hb
    obtain ⟨root, hroot, rfl⟩ := List.mem_map.mp hb
    rw [sortEntries, mem_sortBy] at hroot
    rw [PageInput.children, displayChildrenMap, members_treeBlock host hash x.subtree x.sortCol
      x.ascending hmembers (mem_of_mem_treeRoots hmembers hroot)]
    exact nodup_treeGroupMembers _ _
  · rw [if_neg hcat] at hb
    obtain ⟨d, hd, rfl⟩ := List.mem_map.mp hb
    rw [sortEntries, mem_sortBy, FamilyTable.display, List.mem_filter, decide_eq_true_iff] at hd
    have hgrouped : Grouped host _ (x.members cat)
        (familyTable host hash (x.members cat) (x.children cat)) := familyTable_spec hmembers hash
    rw [members_familyBlock]
    exact ((hgrouped.stands hmembers hd.1 hd.2).members hmembers hd.1).2.of_map _

theorem exists_familyBlock {cat : ProcCategory} (hcat : cat ≠ .app) {d p q : ProcessEntry}
    (hd : d ∈ (familyTable host hash (x.members cat) (x.children cat)).display (x.members cat))
    (hp : p ∈ (familyTable host hash (x.members cat) (x.children cat)).members d)
    (hq : q ∈ (familyTable host hash (x.members cat) (x.children cat)).members d) :
    ∃ b ∈ pageBlocks host hash x, p ∈ b.members ∧ q ∈ b.members := by
  have hsame : (familyBlock host hash x.sortCol x.ascending
      (familyTable host hash (x.members cat) (x.children cat)) d).members =
        (familyTable host hash (x.members cat) (x.children cat)).members d :=
    members_familyBlock hash x.sortCol x.ascending d
  refine ⟨familyBlock host hash x.sortCol x.ascending
    (familyTable host hash (x.members cat) (x.children cat)) d, mem_pageBlocks_iff.mpr ⟨cat, ?_⟩,
      hsame ▸ hp, hsame ▸ hq⟩
  rw [sectionBlocks, if_neg hcat]
  refine List.mem_map_of_mem ?_
  rw [sortEntries, mem_sortBy]
  exact hd

variable (hash) in
/-- Two processes that share a head are in one block. -/
theorem Shares.exists_block (hall : Distinct x.all) {p q : ProcessEntry}
    (h : Shares host x.groups x.all p q) (hne : q ≠ p) :
    ∃ b ∈ pageBlocks host hash x, p ∈ b.members ∧ q ∈ b.members := by
  cases h with
  | tree a ha hp hq =>
    have hmembers := distinct_members hall .app
    obtain ⟨root, hroot, hbelow⟩ := exists_treeRoot hmembers ha
    have hroot' : root ∈ x.members .app := mem_of_mem_treeRoots hmembers hroot
    have hmem : ∀ {y}, Forest.Below (PageLinked x.groups (x.members .app)) a y → y ∈
        (treeBlock host hash (x.children .app) x.subtree x.sortCol x.ascending root).members := by
      intro y hy
      rw [PageInput.children, displayChildrenMap,
        members_treeBlock host hash x.subtree x.sortCol x.ascending hmembers hroot',
        mem_treeGroupMembers hmembers hroot']
      exact ⟨mem_of_below ha hy, hbelow.trans hy⟩
    refine ⟨_, mem_pageBlocks_iff.mpr ⟨.app, ?_⟩, hmem hp, hmem hq⟩
    rw [sectionBlocks, if_pos rfl]
    refine List.mem_map_of_mem ?_
    rw [sortEntries, mem_sortBy]
    exact hroot
  | family cat hcat d hd hp hq =>
    have hmembers := distinct_members hall cat
    have hgrouped : Grouped host _ (x.members cat)
        (familyTable host hash (x.members cat) (x.children cat)) := familyTable_spec hmembers hash
    have hdisplay : d ∈ (familyTable host hash (x.members cat) (x.children cat)).display
        (x.members cat) := by
      rw [FamilyTable.display, List.mem_filter, decide_eq_true_iff,
        hgrouped.notMem_swallowed_iff hmembers (mem_of_mem_familyLeads hd.1)]
      refine ⟨mem_of_mem_familyLeads hd.1, hd, fun key head rest hrun hmem => hne ?_⟩
      have hself := (hrun.lone hmembers (List.mem_cons_of_mem _ hmem)).self
      rw [hself p hp, hself q hq]
    exact exists_familyBlock hcat hdisplay
      ((hgrouped.mem_members_iff hmembers hdisplay).mpr (Or.inl hp))
      ((hgrouped.mem_members_iff hmembers hdisplay).mpr (Or.inl hq))
  | run cat hcat key hp hq =>
    have hmembers := distinct_members hall cat
    have hgrouped : Grouped host _ (x.members cat)
        (familyTable host hash (x.members cat) (x.children cat)) := familyTable_spec hmembers hash
    obtain ⟨head, rest, hrun, hp, hq⟩ := hp.exists_run hmembers hq hne
    have hdisplay := hgrouped.head_mem_display hmembers hrun
    exact exists_familyBlock hcat hdisplay
      ((hgrouped.mem_members_iff hmembers hdisplay).mpr (Or.inr ⟨key, rest, hrun, hp⟩))
      ((hgrouped.mem_members_iff hmembers hdisplay).mpr (Or.inr ⟨key, rest, hrun, hq⟩))

/-- **No group has a synthetic process exactly when no synthetic process shares a head.** -/
theorem synthetic_iff (hall : Distinct x.all) :
    (∀ b ∈ pageBlocks host hash x, b.head.aggregate = true → ∀ p ∈ b.members,
        p.synthetic = false) ↔
      ∀ p ∈ x.all, p.synthetic = true → ∀ q, Shares host x.groups x.all p q → q = p := by
  constructor
  · intro hnone p hp hsynthetic q hshares
    by_contra hne
    obtain ⟨b, hb, hpb, hqb⟩ := hshares.exists_block hash hall hne
    have hagg : b.head.aggregate = true := by
      cases (valid_of_mem_pageBlocks hall hb).1 with
      | single r =>
        rw [List.mem_singleton] at hpb hqb
        exact absurd (hqb.trans hpb.symm) hne
      | group hroot hcount hhead => exact hhead.aggregate
    rw [hnone b hb hagg p hpb] at hsynthetic
    cases hsynthetic
  · intro halone b hb hagg p hp
    obtain ⟨hvalid, hmem⟩ := valid_of_mem_pageBlocks hall hb
    by_contra hsynthetic
    have hsame : ∀ q ∈ b.members, q = p := fun q hq =>
      halone p (hmem p hp) (by simpa using hsynthetic) q (shares_of_mem_members hall hb hp hq)
    cases hvalid with
    | single r => cases hagg
    | group hroot hcount hhead =>
      have hnodup := nodup_members_of_mem_pageBlocks hall hb
      rw [List.eq_replicate_of_mem hsame, List.nodup_replicate] at hnodup
      exact absurd hcount (Nat.not_lt.mpr hnodup)

end Groups

/-! ### The page -/

/-- The sections of a snapshot can be told apart into groups: in the Apps section cycles of parents
come before what hangs off them, in the others a head that a later head takes brings all it
accepts; and no synthetic process shares a head. -/
structure Separable (host : PageHost) (hash : PageHash) (snap : Snapshot) : Prop where
  apps : Forest.CyclesFirst (PageLinked (deriveDisplayGroups hash (byCreation snap))
    (sectionMembers (deriveDisplayGroups hash (byCreation snap)) (byCreation snap) .app))
      CreatedBefore
  families : ∀ cat, cat ≠ .app → Forest.Nested (PageLinked
    (deriveDisplayGroups hash (byCreation snap))
    (sectionMembers (deriveDisplayGroups hash (byCreation snap)) (byCreation snap) cat)) Joins
      (sectionMembers (deriveDisplayGroups hash (byCreation snap)) (byCreation snap) cat)
  synthetic : ∀ p ∈ snap.processes, p.synthetic = true → ∀ q,
    Shares host (deriveDisplayGroups hash (byCreation snap)) (byCreation snap) p q → q = p

/-- **The page shows every process once exactly when the snapshot is separable.** -/
theorem shownOnce_iff (host : PageHost) (hash : PageHash) (snap : Snapshot)
    (h : Distinct snap.processes) (rawSearch : Text)
    (hsearch : (Search.Query.new host rawSearch).isEmpty = true) (sortCol : ℕ)
    (ascending : Bool) :
    ShownOnce snap (fun expanded => buildDisplayRows host hash snap rawSearch sortCol ascending
        expanded fun _ => false) ↔ Separable host hash snap := by
  have hall : Distinct (pageInput hash snap sortCol ascending).all := distinct_byCreation h
  have hlt : (pageInput hash snap sortCol ascending).all.Pairwise CreatedBefore :=
    pairwise_byCreation h
  have hperm : (pageInput hash snap sortCol ascending).all.Perm snap.processes := sortBy_perm _ _
  rw [shownOnce_iff_blocks host hash h hsearch, synthetic_iff hall, ← hperm.congr_right,
    pageBlocks_perm_iff hall]
  constructor
  · rintro ⟨hsections, hsynthetic⟩
    exact ⟨(appBlocks_perm_iff hall hlt).mp (hsections .app),
      fun cat hcat => (familyBlocks_perm_iff hall hcat).mp (hsections cat),
      fun p hp => hsynthetic p (hperm.mem_iff.mpr hp)⟩
  · rintro ⟨happs, hfamilies, hsynthetic⟩
    refine ⟨fun cat => ?_, fun p hp => hsynthetic p (hperm.mem_iff.mp hp)⟩
    by_cases hcat : cat = .app
    · subst hcat
      exact (appBlocks_perm_iff hall hlt).mpr happs
    · exact (familyBlocks_perm_iff hall hcat).mpr (hfamilies cat hcat)

/-- A cycle of two processes: the page shows both, in one tree. -/
theorem shownOnce_iff_cycle :
    let a : ProcessEntry :=
      { pid := 1, ppid := some 2, startEpochS := some 1, name := "a.exe".toList }
    let b : ProcessEntry := { a with pid := 2, ppid := some 1, startEpochS := some 2 }
    let snap : Snapshot := { processes := [a, b] }
    ShownOnce snap (fun expanded => buildDisplayRows asciiHost insertedHash snap [] 0 true expanded
        fun _ => false) ↔ Separable asciiHost insertedHash snap := by
  intro a b snap
  exact shownOnce_iff asciiHost insertedHash snap (by decide) [] (by decide) 0 true

/-- The parent's pid was used again: the child comes first and heads its helper, and the later
parent takes the child but not the helper, which no row stands for. -/
theorem helper_under_no_head :
    ¬ ∀ (host : PageHost) (hash : PageHash) (snap : Snapshot), Distinct snap.processes →
      ∀ rawSearch : Text, (Search.Query.new host rawSearch).isEmpty = true →
        ∀ (sortCol : ℕ) (ascending : Bool), ShownOnce snap fun expanded =>
          buildDisplayRows host hash snap rawSearch sortCol ascending expanded fun _ => false := by
  intro hlaw
  let a : ProcessEntry :=
    { pid := 10, startEpochS := some 30, name := "a.exe".toList, category := .background }
  let c : ProcessEntry :=
    { a with pid := 11, ppid := some 10, startEpochS := some 10, company := some "X".toList }
  let k : ProcessEntry :=
    { c with pid := 12, ppid := some 11, startEpochS := some 20, name := "helper.exe".toList }
  have htargets := (hlaw asciiHost insertedHash { processes := [a, c, k] } (by decide) []
    (by decide) 0 true).targets ∅
  have hlength := htargets.length_eq
  revert hlength
  decide +kernel

end Processes

end Taskman
