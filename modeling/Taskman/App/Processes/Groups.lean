import Taskman.App.Processes.Page
import Taskman.Collections.Summary
import Mathlib.Data.Fintype.Order

/-!
# What a group's row sums up

A group's row stands for its members: their number is in its label, and its values, its state and
its leaf are sums of theirs.  A family folds over its members; an app tree takes state and leaf from
walks over all processes, which start where the list starts and leave a process in progress alone.

* `Processes.rollupVisit_state` : the walks of the page are those of a `Summary`;
* `Processes.subtree_spec` : **a process that nothing earlier is linked above gets the state of
  everything linked under it**, cycles included;
* `Processes.Summarises` : what a row says of the members of its group;
* `Processes.group_rows_summarise` : **every group's row sums up exactly its members**.
-/

namespace Taskman

namespace Processes

/-! ### The walks of the page -/

/-- The state of a process, by how much it matters in a group. -/
def severity : ProcStatus → ℕ
  | .running => 0
  | .suspended => 1
  | .notResponding => 2

theorem severity_injective : Function.Injective severity := by
  intro a b h
  cases a <;> cases b <;> first | rfl | cases h

/-- The worse state is the larger. -/
instance : LinearOrder ProcStatus := LinearOrder.lift' severity severity_injective

/-- What a process adds to the state of its group. -/
def ownState (p : ProcessEntry) : Bool × ProcStatus := (p.powerThrottled == some true, p.status)

/-- The processes and their links, for their states to be summed up. -/
def stateSummary (all : List ProcessEntry) (children : Multimap ℕ ProcessEntry) :
    Summary ℕ (Bool × ProcStatus) where
  keys := (all.map ProcessEntry.pid).toFinset
  own k := (byPid all k).elim (false, .running) ownState
  kids := kidPids children

/-- The tables of the walk, as one table. -/
def Rollup.state (s : Rollup) : Summary.State ℕ (Bool × ProcStatus) where
  values k := ((s.eco k).getD false, (s.statuses k).getD .running)
  done := s.done
  inProgress := s.inProgress

/-- A frame of the walk, with both values. -/
def Frame.state : Frame → Summary.Frame ℕ (Bool × ProcStatus)
  | .enter pid => .enter pid
  | .combine pid kids throttled status =>
    .combine pid (kids.map ProcessEntry.pid) (throttled, status)

/-- The worse state stays. -/
theorem combineKids_state (s : Rollup) (kids : List ProcessEntry) (throttled : Bool)
    (status : ProcStatus) :
    combineKids s kids throttled status =
      Summary.combined s.state (kids.map ProcessEntry.pid) (throttled, status) := by
  unfold combineKids Summary.combined
  induction kids generalizing throttled status with
  | nil => rfl
  | cons k kids ih =>
    rw [List.map_cons, List.foldl_cons, List.foldl_cons]
    by_cases hk : k.pid ∈ s.done
    · have hk' : k.pid ∈ s.state.done := hk
      rw [if_pos hk, if_pos hk', ih]
      congr 1
      refine Prod.ext rfl ?_
      change _ = status ⊔ (s.statuses k.pid).getD .running
      cases s.statuses k.pid with
      | none => cases status <;> rfl
      | some kid => cases kid <;> cases status <;> rfl
    · have hk' : k.pid ∉ s.state.done := hk
      rw [if_neg hk, if_neg hk', ih]

/-- What is noted under a pid finishes it. -/
theorem finish_state (s : Rollup) (pid : ℕ) (throttled : Bool) (status : ProcStatus) :
    Summary.finish s.state pid (throttled, status) =
      Rollup.state
        { eco := Function.update s.eco pid (some throttled)
          statuses := Function.update s.statuses pid (some status)
          done := insert pid s.done
          inProgress := s.inProgress.erase pid } := by
  unfold Summary.finish Rollup.state
  congr 1
  funext k
  by_cases hk : k = pid
  · subst hk
    simp
  · simp [Function.update_of_ne hk]

section Walks

variable {all : List ProcessEntry} (hall : Distinct all)

include hall

theorem byPid_of_mem {p : ProcessEntry} (hp : p ∈ all) : byPid all p.pid = some p :=
  collect_map hall id hp

theorem isSome_byPid_iff {pid : ℕ} :
    (byPid all pid).isSome = true ↔ pid ∈ (all.map ProcessEntry.pid).toFinset := by
  rw [List.mem_toFinset]
  constructor
  · intro h
    obtain ⟨p, hp⟩ := Option.isSome_iff_exists.mp h
    obtain ⟨hmem, rfl⟩ := mem_of_byPid hp
    exact List.mem_map_of_mem hmem
  · intro h
    obtain ⟨p, hp, rfl⟩ := List.mem_map.mp h
    rw [byPid_of_mem hall hp, Option.isSome_some]

/-- The kids that a walk still has to enter. -/
theorem pending_state (children : Multimap ℕ ProcessEntry) (s : Rollup) (pid : ℕ) :
    ((children.get pid).filter fun k =>
      decide (k.pid ∉ s.done) && decide (k.pid ∉ insert pid s.inProgress) &&
        (byPid all k.pid).isSome).map ProcessEntry.pid =
      Summary.pending (stateSummary all children) (Summary.begin s.state pid) pid := by
  rw [Summary.pending]
  change _ = ((children.get pid).map ProcessEntry.pid).filter _
  rw [List.filter_map]
  congr 1
  refine List.filter_congr fun k _ => ?_
  have hiff : (byPid all k.pid).isSome = true ↔ _ := isSome_byPid_iff hall
  rw [Function.comp]
  congr 1
  rw [Bool.eq_iff_iff, hiff, decide_eq_true_iff]
  rfl

/-- **The walks of the page are those of a summary.** -/
theorem rollupVisit_state (children : Multimap ℕ ProcessEntry) (s : Rollup) (frame : Frame) :
    Summary.visit (stateSummary all children) s.state frame.state =
      ((rollupVisit all children s frame).1.state,
        (rollupVisit all children s frame).2.map Frame.state) := by
  cases frame with
  | combine pid kids throttled status =>
    simp only [Frame.state, Summary.visit, rollupVisit, List.map_nil, ← combineKids_state]
    exact Prod.ext (finish_state s pid _ _) rfl
  | enter pid =>
    by_cases hmet : pid ∈ s.done ∨ pid ∈ s.inProgress
    · have hmet' : pid ∈ s.state.done ∨ pid ∈ s.state.inProgress ∨
          pid ∉ (stateSummary all children).keys := hmet.elim Or.inl fun h => Or.inr (Or.inl h)
      simp only [Frame.state, Summary.visit, rollupVisit, if_pos hmet, if_pos hmet', List.map_nil]
    · cases hp : byPid all pid with
      | none =>
        have hmet' : pid ∈ s.state.done ∨ pid ∈ s.state.inProgress ∨
            pid ∉ (stateSummary all children).keys := by
          refine Or.inr (Or.inr fun hkeys => ?_)
          have hsome := (isSome_byPid_iff hall).mpr hkeys
          rw [hp] at hsome
          cases hsome
        simp only [Frame.state, Summary.visit, rollupVisit, if_neg hmet, if_pos hmet', hp,
          List.map_nil]
      | some p =>
        have hmet' : ¬ (pid ∈ s.state.done ∨ pid ∈ s.state.inProgress ∨
            pid ∉ (stateSummary all children).keys) := by
          have hkeys := (isSome_byPid_iff hall).mp (by rw [hp, Option.isSome_some])
          rintro (h | h | h)
          · exact hmet (Or.inl h)
          · exact hmet (Or.inr h)
          · exact h hkeys
        have hown : (stateSummary all children).own pid = ownState p := by
          change (byPid all pid).elim (false, .running) ownState = ownState p
          rw [hp, Option.elim_some]
        by_cases hkids : (children.get pid).isEmpty
        · have hkids' : ((stateSummary all children).kids pid).isEmpty := by
            simpa [stateSummary, kidPids, Multimap.next] using hkids
          simp only [Frame.state, Summary.visit, rollupVisit, if_neg hmet, if_neg hmet', hp,
            if_pos hkids, if_pos hkids', List.map_nil, hown]
          exact Prod.ext (finish_state { s with inProgress := insert pid s.inProgress } pid _ _) rfl
        · have hkids' : ¬ ((stateSummary all children).kids pid).isEmpty := by
            simpa [stateSummary, kidPids, Multimap.next] using hkids
          simp only [Frame.state, Summary.visit, rollupVisit, if_neg hmet, if_neg hmet', hp,
            if_neg hkids, if_neg hkids', List.map_cons, List.map_map, hown,
            ← pending_state hall]
          rfl

theorem run_state (children : Multimap ℕ ProcessEntry) (fuel : ℕ) (s : Rollup)
    (stack : List Frame) :
    While.run (Worklist.pop (Summary.visit (stateSummary all children))) fuel
        (s.state, stack.map Frame.state) =
      Prod.map Rollup.state (List.map Frame.state)
        (While.run (Worklist.pop (rollupVisit all children)) fuel (s, stack)) :=
  Worklist.run_pop_map _ _ _ _ (rollupVisit_state hall children) fuel s stack

theorem summary_ends (children : Multimap ℕ ProcessEntry)
    (s : Summary.State ℕ (Bool × ProcStatus)) (pid : ℕ) :
    (While.run (Worklist.pop (Summary.visit (stateSummary all children)))
      (rollupFuel all children) (s, [.enter pid])).2 = [] := by
  -- every state of the summary is that of some tables
  let tables : Rollup :=
    { eco := fun k => some (s.values k).1
      statuses := fun k => some (s.values k).2
      done := s.done
      inProgress := s.inProgress }
  have hrun := run_state hall children (rollupFuel all children) tables [.enter pid]
  have hends := rollup_ends all children tables pid
  change (While.run _ _ (tables.state, [Frame.enter pid].map Frame.state)).2 = []
  rw [hrun, Prod.map_snd, hends, List.map_nil]

/-- The walks from the processes of a list. -/
theorem foldl_state (children : Multimap ℕ ProcessEntry) (l : List ProcessEntry) :
    ∀ s : Rollup, (l.foldl (fun s root =>
        if root.pid ∈ s.done then s
        else Worklist.drain (rollupVisit all children) (rollupFuel all children) s
          [.enter root.pid]) s).state =
      Summary.rollup (stateSummary all children) (rollupFuel all children) s.state
        (l.map ProcessEntry.pid) := by
  induction l with
  | nil =>
    intro s
    rfl
  | cons root l ih =>
    intro s
    rw [List.foldl_cons, ih, List.map_cons, Summary.rollup, Summary.rollup, List.foldl_cons]
    congr 1
    by_cases hroot : root.pid ∈ s.done
    · have hroot' : root.pid ∈ s.state.done := hroot
      rw [if_pos hroot, if_pos hroot']
    · have hroot' : root.pid ∉ s.state.done := hroot
      have hrun := run_state hall children (rollupFuel all children) s [.enter root.pid]
      rw [if_neg hroot, if_neg hroot', Worklist.drain, Worklist.drain]
      exact (congrArg Prod.fst hrun).symm

end Walks

/-! ### What is noted at the end -/

/-- What is finished is noted in both tables. -/
def Rollup.Noted (s : Rollup) : Prop :=
  ∀ k ∈ s.done, (s.eco k).isSome = true ∧ (s.statuses k).isSome = true

theorem Rollup.Noted.finish {s : Rollup} (h : s.Noted) (pid : ℕ) (throttled : Bool)
    (status : ProcStatus) (inProgress : Finset ℕ) :
    Rollup.Noted
      { eco := Function.update s.eco pid (some throttled)
        statuses := Function.update s.statuses pid (some status)
        done := insert pid s.done
        inProgress := inProgress } := by
  intro k hk
  by_cases hkp : k = pid
  · subst hkp
    simp
  · simpa [Function.update_of_ne hkp] using h k ((Finset.mem_insert.mp hk).resolve_left hkp)

theorem Rollup.Noted.visit {all : List ProcessEntry} {children : Multimap ℕ ProcessEntry}
    {s : Rollup} (h : s.Noted) (frame : Frame) : (rollupVisit all children s frame).1.Noted := by
  cases frame with
  | combine pid kids throttled status => exact h.finish pid _ _ _
  | enter pid =>
    dsimp only [rollupVisit]
    split
    · exact h
    · split
      · exact h
      · split
        · exact h.finish pid _ _ _
        · exact h

theorem Rollup.Noted.foldl {all : List ProcessEntry} {children : Multimap ℕ ProcessEntry}
    {fuel : ℕ} (l : List ProcessEntry) : ∀ {s : Rollup}, s.Noted →
      (l.foldl (fun s root =>
        if root.pid ∈ s.done then s
        else Worklist.drain (rollupVisit all children) fuel s [.enter root.pid]) s).Noted := by
  induction l with
  | nil =>
    intro s h
    exact h
  | cons root l ih =>
    intro s h
    rw [List.foldl_cons]
    refine ih ?_
    split
    · exact h
    · exact Worklist.drain_keeps (fun _ frame hs => hs.visit frame) _ h

/-- `entry(pid).or_insert(..)` leaves what is there. -/
theorem foldl_orInsert {α : Type*} (f : ProcessEntry → α) (l : List ProcessEntry) {k : ℕ} :
    ∀ table : ℕ → Option α, (table k).isSome = true →
      l.foldl (fun table p =>
        if (table p.pid).isSome then table else Function.update table p.pid (some (f p))) table k =
        table k := by
  induction l with
  | nil =>
    intro table _
    rfl
  | cons p l ih =>
    intro table hk
    rw [List.foldl_cons]
    by_cases hp : (table p.pid).isSome = true
    · rw [if_pos hp]
      exact ih table hk
    · have hne : k ≠ p.pid := fun heq => hp (heq ▸ hk)
      have hsame : Function.update table p.pid (some (f p)) k = table k :=
        Function.update_of_ne hne _ _
      rw [if_neg hp, ih _ (by rwa [hsame]), hsame]

/-! ### Links of the page and of a section -/

theorem displayParent_eq_some_iff {pids : List ℕ} {groups : DisplayGroups} {p : ProcessEntry}
    {k : ℕ} :
    displayParent pids groups p = some k ↔
      ¬ ((groups.category p.pid).getD p.category = .app ∧ p.pid ∈ groups.appRoots) ∧
        p.ppid = some k ∧ k ≠ p.pid ∧ k ∈ pids ∧
          groups.category k = some ((groups.category p.pid).getD p.category) := by
  dsimp only [displayParent]
  by_cases hroot : (groups.category p.pid).getD p.category = .app ∧ p.pid ∈ groups.appRoots
  · simp [hroot]
  · rw [if_neg hroot, Option.filter_eq_some_iff]
    simp [hroot, and_assoc]

section Links

variable {all : List ProcessEntry} {groups : DisplayGroups} {cat : ProcCategory}

/-- The links among all processes. -/
abbrev PageLinked (groups : DisplayGroups) (all : List ProcessEntry) :
    ProcessEntry → ProcessEntry → Prop :=
  Linked (displayParent (all.map ProcessEntry.pid) groups) all

theorem mem_section_iff_of_linked {a b : ProcessEntry} (h : PageLinked groups all a b) :
    a ∈ sectionMembers groups all cat ↔ b ∈ sectionMembers groups all cat := by
  obtain ⟨ha, hb, hparent⟩ := h
  obtain ⟨-, -, -, -, hcat⟩ := displayParent_eq_some_iff.mp hparent
  rw [sectionMembers, List.mem_filter, List.mem_filter, hcat, Option.getD_some]
  simp [ha, hb]

/-- The links of a section are those of the page. -/
theorem linked_section_iff {a b : ProcessEntry} :
    PageLinked groups (sectionMembers groups all cat) a b ↔
      PageLinked groups all a b ∧ a ∈ sectionMembers groups all cat := by
  constructor
  · rintro ⟨ha, hb, hparent⟩
    obtain ⟨hroot, hppid, hne, -, hcat⟩ := displayParent_eq_some_iff.mp hparent
    have ha' : a ∈ all := (List.mem_filter.mp ha).1
    have hb' : b ∈ all := (List.mem_filter.mp hb).1
    exact ⟨⟨ha', hb', displayParent_eq_some_iff.mpr
      ⟨hroot, hppid, hne, List.mem_map_of_mem ha', hcat⟩⟩, ha⟩
  · rintro ⟨hlink, ha⟩
    have hb := (mem_section_iff_of_linked hlink).mp ha
    obtain ⟨hroot, hppid, hne, -, hcat⟩ := displayParent_eq_some_iff.mp hlink.2.2
    exact ⟨ha, hb, displayParent_eq_some_iff.mpr
      ⟨hroot, hppid, hne, List.mem_map_of_mem ha, hcat⟩⟩

/-- What is linked under a process of a section is so within the section. -/
theorem below_section_iff {a b : ProcessEntry} (h : b ∈ sectionMembers groups all cat) :
    Forest.Below (PageLinked groups (sectionMembers groups all cat)) a b ↔
      Forest.Below (PageLinked groups all) a b := by
  constructor
  · intro hab
    exact Relation.ReflTransGen.mono (fun x y hxy => (linked_section_iff.mp hxy).1) a b hab
  · intro hab
    suffices hboth : Forest.Below (PageLinked groups (sectionMembers groups all cat)) a b ∧
        a ∈ sectionMembers groups all cat from hboth.1
    induction hab using Relation.ReflTransGen.head_induction_on with
    | refl => exact ⟨Relation.ReflTransGen.refl, h⟩
    | @head x y hxy _ ih =>
      have hx := (mem_section_iff_of_linked hxy).mpr ih.2
      exact ⟨Relation.ReflTransGen.head (linked_section_iff.mpr ⟨hxy, hx⟩) ih.1, hx⟩

theorem mem_section_of_below {a b : ProcessEntry} (h : a ∈ sectionMembers groups all cat)
    (hab : Forest.Below (PageLinked groups all) a b) : b ∈ sectionMembers groups all cat := by
  induction hab with
  | refl => exact h
  | tail _ hlink ih => exact (mem_section_iff_of_linked hlink).mp ih

theorem mem_of_below {a b : ProcessEntry} (ha : a ∈ all)
    (hab : Forest.Below (PageLinked groups all) a b) : b ∈ all := by
  rcases Relation.ReflTransGen.cases_tail hab with heq | ⟨y, -, hlink⟩
  · rwa [heq]
  · exact hlink.2.1

variable (hall : Distinct all)

include hall

theorem stateSummary_below_iff {a b : ProcessEntry} (ha : a ∈ all) (hb : b ∈ all) :
    (stateSummary all (displayChildrenMap all groups)).Below a.pid b.pid ↔
      Forest.Below (PageLinked groups all) a b := by
  refine Iff.trans ?_ (Multimap.reach_next_iff hall ha hb)
  have hsame : (stateSummary all (displayChildrenMap all groups)).Link =
      fun k j => j ∈ kidPids (displayChildrenMap all groups) k := by
    funext k j
    refine propext ⟨And.left, fun hj => ⟨hj, ?_⟩⟩
    obtain ⟨p, hp, rfl⟩ := List.mem_map.mp hj
    have hmem : p ∈ all := (Multimap.mem_get_ofLinks.mp hp).1
    exact List.mem_toFinset.mpr (List.mem_map_of_mem hmem)
  rw [Summary.Below, hsame]
  rfl

theorem leftUnique_stateSummary :
    Relator.LeftUnique (stateSummary all (displayChildrenMap all groups)).Link := by
  intro a b c hac hbc
  obtain ⟨p, hp, rfl⟩ := List.mem_map.mp hac.1
  obtain ⟨q, hq, hpid⟩ := List.mem_map.mp hbc.1
  obtain ⟨hpmem, hpa⟩ := Multimap.mem_get_ofLinks.mp hp
  obtain ⟨hqmem, hqb⟩ := Multimap.mem_get_ofLinks.mp hq
  obtain rfl := Multimap.eq_of_key hall hqmem hpmem hpid
  exact Option.some.inj (hpa.symm.trans hqb)

/-- The states below a pid are those of the processes linked under it. -/
theorem stateSummary_own_image {root : ProcessEntry} (hroot : root ∈ all) :
    (stateSummary all (displayChildrenMap all groups)).own ''
        {k | (stateSummary all (displayChildrenMap all groups)).Below root.pid k} =
      ownState '' {p | Forest.Below (PageLinked groups all) root p} := by
  have hown : ∀ p ∈ all,
      (stateSummary all (displayChildrenMap all groups)).own p.pid = ownState p := by
    intro p hp
    change (byPid all p.pid).elim (false, .running) ownState = ownState p
    rw [byPid_of_mem hall hp, Option.elim_some]
  ext w
  constructor
  · rintro ⟨k, hk, rfl⟩
    obtain ⟨p, hp, rfl⟩ : ∃ p ∈ all, p.pid = k := by
      rcases Relation.ReflTransGen.cases_tail hk with heq | ⟨j, -, hlink⟩
      · exact ⟨root, hroot, heq.symm⟩
      · exact List.mem_map.mp (List.mem_toFinset.mp hlink.2)
    exact ⟨p, (stateSummary_below_iff hall hroot hp).mp hk, (hown p hp).symm⟩
  · rintro ⟨p, hp, rfl⟩
    have hmem := mem_of_below hroot hp
    exact ⟨p.pid, (stateSummary_below_iff hall hroot hmem).mpr hp, hown p hmem⟩

/-- **A process that nothing earlier is linked above gets the state of everything linked under
it.** -/
theorem subtree_spec {t u : List ProcessEntry} {root : ProcessEntry}
    (hsplit : all = t ++ root :: u)
    (hfirst : ∀ a ∈ t, ¬ Forest.Below (PageLinked groups all) a root) :
    IsLUB (ownState '' {p | Forest.Below (PageLinked groups all) root p})
      ((subtreeRollups all (displayChildrenMap all groups)).efficiencyOf root.pid,
        (subtreeRollups all (displayChildrenMap all groups)).statusOf root.pid) := by
  have hmem : ∀ p ∈ t ++ root :: u, p ∈ all := fun p hp => hsplit ▸ hp
  have hroot : root ∈ all := hmem root (List.mem_append_right _ List.mem_cons_self)
  have hpids : all.map ProcessEntry.pid =
      t.map ProcessEntry.pid ++ root.pid :: u.map ProcessEntry.pid := by
    rw [hsplit, List.map_append, List.map_cons]
  have hkeys : ∀ k ∈ t.map ProcessEntry.pid ++ root.pid :: u.map ProcessEntry.pid,
      k ∈ (stateSummary all (displayChildrenMap all groups)).keys := by
    intro k hk
    rw [← hpids] at hk
    exact List.mem_toFinset.mpr hk
  have hfirst' : ∀ k ∈ t.map ProcessEntry.pid,
      ¬ (stateSummary all (displayChildrenMap all groups)).Below k root.pid := by
    intro k hk hbelow
    obtain ⟨a, ha, rfl⟩ := List.mem_map.mp hk
    have hal : a ∈ all := hmem a (List.mem_append_left _ ha)
    exact hfirst a ha ((stateSummary_below_iff hall hal hroot).mp hbelow)
  obtain ⟨hdone, hsums⟩ := Summary.rollup_spec (leftUnique_stateSummary hall)
    (summary_ends hall (displayChildrenMap all groups)) (Rollup.state {}).values hkeys hfirst'
  have hstate := foldl_state hall (displayChildrenMap all groups) all {}
  rw [hpids] at hstate
  change Rollup.state _ = Summary.rollup _ _ { values := (Rollup.state {}).values } _ at hstate
  rw [← hstate, Summary.Sums, stateSummary_own_image hall hroot] at hsums
  rw [← hstate] at hdone
  -- the walks note the state of the root, and nothing is inserted over it
  have hnoted : Rollup.Noted {} := fun k hk => absurd hk (Finset.notMem_empty k)
  obtain ⟨heco, hstatus⟩ := hnoted.foldl all root.pid hdone
  rw [Subtree.efficiencyOf, Subtree.statusOf, subtreeRollups]
  dsimp only
  rw [foldl_orInsert _ all _ heco, foldl_orInsert _ all _ hstatus]
  exact hsums

end Links

/-! ### What a group's row says -/

/-- The status of a group: not responding before suspended, and otherwise its head's own. -/
def groupStatus (head : ProcessEntry) (members : List ProcessEntry) : ProcStatus :=
  if ∃ p ∈ members, p.status = .notResponding then .notResponding
  else if ∃ p ∈ members, p.status = .suspended then .suspended
  else head.status

/-- A row under the identity of `head` that sums up `members`. -/
structure Summarises (hash : PageHash) (head : ProcessEntry) (members : List ProcessEntry)
    (row : RowData) : Prop where
  identity : identityOf row = processIdentity head
  count : ∃ label, row.name = countLabel label members
  targets : row.terminationTargets = groupTargets members
  additive : ∀ i, Additive i → row.values i = (members.map fun p => ownValues p i).sum
  disk : row.values DISK_ACT_VALUE = ((DiskGroupLoad members).pct (hash.disks members)).getD 0
  gpu : row.values GPU_VALUE = ((GpuGroupLoad members).pct (hash.gpus members)).getD 0
  netAvailable : row.netAvailable = true ↔ ∃ p ∈ members, netKnown p = true
  diskAvailable : row.diskAvailable = true ↔ ∃ p ∈ members, diskKnown p = true
  gpuAvailable : row.gpuAvailable = true ↔ ∃ p ∈ members, gpuKnown p = true
  status : row.status = groupStatus head members
  throttled : row.powerThrottled = true ↔ ∃ p ∈ members, p.powerThrottled = some true

theorem Summarises.withHeat {hash : PageHash} {head : ProcessEntry} {members : List ProcessEntry}
    {row : RowData} (h : Summarises hash head members row) (maxima : Values) :
    Summarises hash head members (row.withHeat maxima) :=
  ⟨h.identity, h.count, h.targets, h.additive, h.disk, h.gpu, h.netAvailable, h.diskAvailable,
    h.gpuAvailable, h.status, h.throttled⟩

/-- The head of a valid group sums up its members, once its label, status and leaf do. -/
theorem GroupHead.summarises {hash : PageHash} {head : ProcessEntry} {members : List ProcessEntry}
    {row : RowData} (h : GroupHead hash head members row)
    (hcount : ∃ label, row.name = countLabel label members)
    (hstatus : row.status = groupStatus head members)
    (hthrottled : row.powerThrottled = true ↔ ∃ p ∈ members, p.powerThrottled = some true) :
    Summarises hash head members row where
  identity := by rw [identityOf, processIdentity, h.pid, h.start]
  count := hcount
  targets := h.targets
  additive i hi := by rw [h.values, familyValues_additive hash members hi]
  disk := by rw [h.values, familyValues_diskAct]
  gpu := by rw [h.values, familyValues_gpu]
  netAvailable := by rw [h.net, List.any_eq_true]
  diskAvailable := by rw [h.disk, List.any_eq_true]
  gpuAvailable := by rw [h.gpu, List.any_eq_true]
  status := hstatus
  throttled := hthrottled

/-- The join of the members' states is the group's state. -/
theorem state_of_isLUB {head : ProcessEntry} {members : List ProcessEntry} (hhead : head ∈ members)
    {v : Bool × ProcStatus} (h : IsLUB (ownState '' {p | p ∈ members}) v) :
    v.2 = groupStatus head members ∧
      (v.1 = true ↔ ∃ p ∈ members, p.powerThrottled = some true) := by
  obtain ⟨hleaf, hstatus⟩ := isLUB_prod.mp h
  simp only [Set.image_image, ownState] at hleaf hstatus
  have hle : ∀ p ∈ members, p.status ≤ v.2 := fun p hp => hstatus.1 ⟨p, hp, rfl⟩
  -- the status of the bound is the worst one among the members
  have hworst : ∀ s, (∀ p ∈ members, p.status ≤ s) → v.2 ≤ s := by
    intro s hs
    refine hstatus.2 ?_
    rintro _ ⟨p, hp, rfl⟩
    exact hs p hp
  constructor
  · unfold groupStatus
    split
    · rename_i hhung
      obtain ⟨p, hp, hps⟩ := hhung
      have hge := hle p hp
      rw [hps] at hge
      generalize v.2 = s at hge
      revert hge
      cases s <;> decide
    · rename_i hhung
      have hnot : ∀ p ∈ members, p.status ≠ .notResponding := fun p hp heq => hhung ⟨p, hp, heq⟩
      split
      · rename_i hsuspended
        obtain ⟨p, hp, hps⟩ := hsuspended
        refine le_antisymm (hworst _ fun q hq => ?_) (hps ▸ hle p hp)
        have hq' := hnot q hq
        generalize q.status = s at hq'
        revert hq'
        cases s <;> decide
      · rename_i hsuspended
        refine le_antisymm (hworst _ fun q hq => ?_) (hle head hhead)
        have hrunning : ∀ p ∈ members, p.status = .running := by
          intro p hp
          have hp' := hnot p hp
          have hp'' : p.status ≠ .suspended := fun heq => hsuspended ⟨p, hp, heq⟩
          generalize p.status = s at hp' hp''
          revert hp' hp''
          cases s <;> decide
        rw [hrunning q hq, hrunning head hhead]
  · have hlt := lt_isLUB_iff hleaf (b := false)
    have htrue : ∀ b : Bool, false < b ↔ b = true := by decide
    rw [htrue] at hlt
    rw [hlt]
    simp [htrue]

/-- Whom a group's row stands for: in the Apps section everything linked under its root, elsewhere
the family, or the run, of its head. -/
inductive StandsFor (host : PageHost) (hash : PageHash) (x : PageInput) (head : ProcessEntry)
    (members : List ProcessEntry) : Prop
  | tree (hroot : head ∈ x.roots .app) (hnodup : members.Nodup)
      (hmem : ∀ p, p ∈ members ↔ p ∈ x.members .app ∧
        Forest.Below (PageLinked x.groups (x.members .app)) head p)
  | family (cat : ProcCategory) (hcat : cat ≠ .app)
      (hhead : head ∈ (familyTable host hash (x.members cat) (x.children cat)).display
        (x.members cat))
      (hheads : (familyTable host hash (x.members cat) (x.children cat)).heads head.pid =
        some members)

section Sections

variable {host : PageHost} {hash : PageHash} {x : PageInput}

/-- A group's head is one of the processes it stands for, and they are in the list. -/
theorem StandsFor.mem (hall : Distinct x.all) {head : ProcessEntry} {members : List ProcessEntry}
    (h : StandsFor host hash x head members) : head ∈ members ∧ ∀ p ∈ members, p ∈ x.all := by
  cases h with
  | tree hroot _ hmem =>
    have hhead : head ∈ x.members .app := mem_of_mem_treeRoots (distinct_members hall _) hroot
    exact ⟨(hmem head).mpr ⟨hhead, Relation.ReflTransGen.refl⟩,
      fun p hp => (List.mem_filter.mp ((hmem p).mp hp).1).1⟩
  | family cat _ hhead hheads =>
    rw [FamilyTable.display, List.mem_filter, decide_eq_true_iff] at hhead
    have hmembers := distinct_members hall cat
    have hgrouped : Grouped host _ (x.members cat)
        (familyTable host hash (x.members cat) (x.children cat)) := familyTable_spec hmembers hash
    have hstands := hgrouped.stands hmembers hhead.1 hhead.2
    have hsame : (familyTable host hash (x.members cat) (x.children cat)).members head =
        members := by
      rw [FamilyTable.members, hheads, Option.getD_some]
    rw [← hsame]
    exact ⟨(hstands.members hmembers hhead.1).1, fun p hp =>
      (List.mem_filter.mp (hstands.mem_of_mem_members hmembers hhead.1 hp)).1⟩

/-- A root of the Apps section is linked under nothing that comes before it. -/
theorem not_below_of_mem_roots (hall : Distinct x.all) {root : ProcessEntry}
    (hroot : root ∈ x.roots .app) {t u : List ProcessEntry} (hsplit : x.all = t ++ root :: u) :
    ∀ a ∈ t, ¬ Forest.Below (PageLinked x.groups x.all) a root := by
  have hmembers := distinct_members hall .app
  have hrootmem : root ∈ x.members .app := mem_of_mem_treeRoots hmembers hroot
  have hroot' := hroot
  rw [PageInput.roots, PageInput.children, displayChildrenMap, treeRoots_eq hmembers] at hroot'
  have hsection : x.members .app = sectionMembers x.groups t .app ++
      root :: sectionMembers x.groups u .app := by
    rw [PageInput.members, hsplit, sectionMembers, List.filter_append, List.filter_cons_of_pos]
    · rfl
    · exact (List.mem_filter.mp hrootmem).2
  intro a ha hbelow
  have habove : Forest.Below (PageLinked x.groups (x.members .app)) a root :=
    (below_section_iff hrootmem).mpr hbelow
  have hasection : a ∈ x.members .app := by
    rcases Relation.ReflTransGen.cases_head habove with heq | ⟨b, hlink, -⟩
    · rwa [heq]
    · exact hlink.1
  refine Forest.not_below_of_mem_roots ?_ hroot' hmembers.of_map hsection ?_ habove
  · intro p hp
    exact ((mem_unlinked_iff hmembers fun _ _ _ hk => mem_of_displayParent hk).mp hp).2
  · exact List.mem_filter.mpr ⟨ha, (List.mem_filter.mp hasection).2⟩

/-- **The row of an app tree sums up everything linked under its root.** -/
theorem treeBlock_summarises (hall : Distinct x.all)
    (hsubtree : x.subtree = subtreeRollups x.all (displayChildrenMap x.all x.groups))
    {root : ProcessEntry} (hroot : root ∈ x.roots .app)
    (hagg : (treeBlock host hash (x.children .app) x.subtree x.sortCol x.ascending
      root).head.aggregate = true) :
    ∃ members, StandsFor host hash x root members ∧
      Summarises hash root members (treeBlock host hash (x.children .app) x.subtree x.sortCol
        x.ascending root).head := by
  have hmembers := distinct_members hall .app
  have hrootmem : root ∈ x.members .app := mem_of_mem_treeRoots hmembers hroot
  have hmem : ∀ p, p ∈ treeGroupMembers root (x.children .app) ↔ p ∈ x.members .app ∧
      Forest.Below (PageLinked x.groups (x.members .app)) root p :=
    fun p => mem_treeGroupMembers hmembers hrootmem
  refine ⟨treeGroupMembers root (x.children .app),
    .tree hroot (nodup_treeGroupMembers root _) hmem, ?_⟩
  have hbelow : {p | p ∈ treeGroupMembers root (x.children .app)} =
      {p | Forest.Below (PageLinked x.groups x.all) root p} := by
    ext p
    refine (hmem p).trans ⟨fun hp => (below_section_iff hp.1).mp hp.2, fun hp => ?_⟩
    have hpsection := mem_section_of_below hrootmem hp
    exact ⟨hpsection, (below_section_iff hpsection).mpr hp⟩
  obtain ⟨t, u, hsplit⟩ := List.append_of_mem (List.mem_filter.mp hrootmem).1
  have hlub := subtree_spec hall hsplit (not_below_of_mem_roots hall hroot hsplit)
  rw [← hbelow, ← hsubtree] at hlub
  obtain ⟨hstatus, hleaf⟩ := state_of_isLUB (root_mem_treeGroupMembers _ hmembers hrootmem) hlub
  unfold treeBlock at hagg ⊢
  by_cases hlen : (treeGroupMembers root (x.children .app)).length ≤ 1
  · simp [hlen, makeOwnRow] at hagg
  · simp only [hlen, if_false]
    have hhead : GroupHead hash root (treeGroupMembers root (x.children .app))
        (treeHead host x.subtree root (treeGroupMembers root (x.children .app))
          (familyValues hash (treeGroupMembers root (x.children .app)))) :=
      ⟨rfl, rfl, rfl, rfl, rfl, rfl, rfl, rfl, rfl, rfl⟩
    exact hhead.summarises ⟨_, rfl⟩ hstatus hleaf

/-- **The row of a family or a run sums up its members.** -/
theorem familyBlock_summarises {cat : ProcCategory} (hcat : cat ≠ .app) {head : ProcessEntry}
    (hhead : head ∈ (familyTable host hash (x.members cat) (x.children cat)).display
      (x.members cat))
    (hagg : (familyBlock host hash x.sortCol x.ascending
      (familyTable host hash (x.members cat) (x.children cat)) head).head.aggregate = true) :
    ∃ members, StandsFor host hash x head members ∧
      Summarises hash head members (familyBlock host hash x.sortCol x.ascending
        (familyTable host hash (x.members cat) (x.children cat)) head).head := by
  unfold familyBlock at hagg ⊢
  cases hheads : (familyTable host hash (x.members cat) (x.children cat)).heads head.pid with
  | none => simp [hheads, makeOwnRow] at hagg
  | some fam =>
    have hgroup : GroupHead hash head fam (familyHead host head fam (familyValues hash fam)) :=
      ⟨rfl, rfl, rfl, rfl, rfl, rfl, rfl, rfl, rfl, rfl⟩
    refine ⟨fam, .family cat hcat hhead hheads, hgroup.summarises ⟨_, rfl⟩ ?_ ?_⟩
    · simp [familyHead, groupStatus]
    · simp [familyHead]

end Sections

/-- The blocks of the page that stand for groups are those of its sections. -/
theorem mem_sectionBlocks_of_aggregate {host : PageHost} {hash : PageHash} {snap : Snapshot}
    {rawSearch : Text} {sortCol : ℕ} {ascending : Bool} {groupCollapsed : ℕ → Bool} {b : Block}
    (hb : Item.block b ∈ displayItems host hash snap rawSearch sortCol ascending groupCollapsed)
    (hagg : b.head.aggregate = true) :
    ∃ cat, b ∈ sectionBlocks host hash (pageInput hash snap sortCol ascending) cat := by
  dsimp only [displayItems] at hb
  split at hb
  · obtain ⟨p, -, heq⟩ := List.mem_map.mp hb
    obtain rfl := Item.block.inj heq
    cases hagg
  · split at hb
    · obtain ⟨b', hb', heq⟩ := List.mem_map.mp hb
      obtain rfl := Item.block.inj heq
      rw [mem_sortBy] at hb'
      obtain ⟨gi, -, hb'⟩ := List.mem_flatMap.mp hb'
      exact ⟨_, hb'⟩
    · obtain ⟨gi, -, hb⟩ := List.mem_flatMap.mp hb
      rcases List.mem_cons.mp hb with heq | hb
      · cases heq
      · split at hb
        · cases hb
        · obtain ⟨b', hb', heq⟩ := List.mem_map.mp hb
          obtain rfl := Item.block.inj heq
          exact ⟨_, hb'⟩

/-- A block that stands for a group sums up its members. -/
theorem block_summarises {host : PageHost} {hash : PageHash} {x : PageInput}
    (hall : Distinct x.all)
    (hsubtree : x.subtree = subtreeRollups x.all (displayChildrenMap x.all x.groups))
    {cat : ProcCategory} {b : Block} (hb : b ∈ sectionBlocks host hash x cat)
    (hagg : b.head.aggregate = true) :
    ∃ head members, StandsFor host hash x head members ∧
      Summarises hash head members b.head := by
  unfold sectionBlocks at hb
  by_cases hcat : cat = .app
  · rw [if_pos hcat] at hb
    obtain ⟨root, hroot, rfl⟩ := List.mem_map.mp hb
    rw [sortEntries, mem_sortBy] at hroot
    subst hcat
    exact ⟨root, treeBlock_summarises hall hsubtree hroot hagg⟩
  · rw [if_neg hcat] at hb
    obtain ⟨head, hhead, rfl⟩ := List.mem_map.mp hb
    rw [sortEntries, mem_sortBy] at hhead
    exact ⟨head, familyBlock_summarises hcat hhead hagg⟩

/-- **Every group's row sums up exactly its members**, in both kinds of sections and whatever the
links between the processes are. -/
theorem group_rows_summarise (host : PageHost) (hash : PageHash) {snap : Snapshot}
    (h : Distinct snap.processes) (rawSearch : Text) (sortCol : ℕ) (ascending : Bool)
    (expanded : Finset ℕ) (groupCollapsed : ℕ → Bool) {row : RowData}
    (hrow : DisplayRow.process row ∈ buildDisplayRows host hash snap rawSearch sortCol ascending
      expanded groupCollapsed)
    (hagg : row.aggregate = true) :
    ∃ head members, StandsFor host hash (pageInput hash snap sortCol ascending) head members ∧
      head ∈ members ∧ (∀ p ∈ members, p ∈ snap.processes) ∧
      Summarises hash head members row := by
  obtain ⟨maxima, hrows⟩ := mem_buildDisplayRows_iff host hash h rawSearch sortCol ascending
    groupCollapsed expanded
  obtain ⟨b, hb, raw, hraw, rfl⟩ := (hrows row).mp hrow
  have hall : Distinct (pageInput hash snap sortCol ascending).all := distinct_byCreation h
  have hagg' : raw.aggregate = true := hagg
  rcases hraw with rfl | ⟨-, hbody⟩
  · obtain ⟨cat, hsection⟩ := mem_sectionBlocks_of_aggregate hb hagg'
    obtain ⟨head, members, hstands, hsummary⟩ := block_summarises hall rfl hsection hagg'
    obtain ⟨hhead, hmembers⟩ := hstands.mem hall
    exact ⟨head, members, hstands, hhead, fun p hp => mem_sortBy.mp (hmembers p hp),
      hsummary.withHeat maxima⟩
  · -- the rows under a head are those of single processes
    obtain ⟨-, p, -, depth, -, hrow'⟩ := (valid_of_mem_displayItems h hb).1.mem_body hbody
    rw [hrow'] at hagg'
    cases hagg'

/-- The identities and states of the groups' rows, as they are shown. -/
def shownGroups (rows : List DisplayRow) : List (ProcessIdentity × Bool × ProcStatus) :=
  rows.filterMap fun r =>
    match r with
    | .groupHeader _ _ => none
    | .process row =>
      if row.aggregate then some (identityOf row, row.powerThrottled, row.status) else none

theorem exists_of_mem_shownGroups {rows : List DisplayRow} {identity : ProcessIdentity}
    {state : Bool × ProcStatus} (h : (identity, state) ∈ shownGroups rows) :
    ∃ row, DisplayRow.process row ∈ rows ∧ row.aggregate = true ∧ identityOf row = identity ∧
      (row.powerThrottled, row.status) = state := by
  obtain ⟨r, hr, hshown⟩ := List.mem_filterMap.mp h
  cases r with
  | groupHeader gi total => cases hshown
  | process row =>
    by_cases hagg : row.aggregate = true
    · simp only [hagg, if_true, Option.some.injEq, Prod.mk.injEq] at hshown
      exact ⟨row, hr, hagg, hshown.1, hshown.2⟩
    · simp [hagg] at hshown

/-- Two processes recorded as each other's parent: one row, suspended and with a leaf, stands for
both. -/
theorem group_rows_summarise_cycle :
    let a : ProcessEntry :=
      { pid := 1, ppid := some 2, startEpochS := some 1, name := "a.exe".toList }
    let b : ProcessEntry :=
      { a with pid := 2, ppid := some 1, startEpochS := some 2,
               status := .suspended, powerThrottled := some true }
    let snap : Snapshot := { processes := [a, b] }
    ∃ row, (row.powerThrottled, row.status) = (true, .suspended) ∧
      ∃ head members, StandsFor asciiHost insertedHash (pageInput insertedHash snap 0 true) head
          members ∧
        head ∈ members ∧ (∀ p ∈ members, p ∈ snap.processes) ∧
        Summarises insertedHash head members row := by
  intro a b snap
  have hshown : (⟨1, some 1⟩, true, .suspended) ∈ shownGroups (buildDisplayRows asciiHost
      insertedHash snap [] 0 true ∅ fun _ => false) := by decide +kernel
  obtain ⟨row, hrow, hagg, -, hstate⟩ := exists_of_mem_shownGroups hshown
  exact ⟨row, hstate, group_rows_summarise asciiHost insertedHash (by decide) [] 0 true ∅
    (fun _ => false) hrow hagg⟩

/-- Two processes under one pid: the row has the identity of the first, which hangs, and the status
of the second, so that it sums up no members whatever. -/
theorem duplicate_pid_group_status :
    let a : ProcessEntry :=
      { pid := 1, startEpochS := some 1, name := "a.exe".toList, status := .notResponding }
    let b : ProcessEntry := { a with startEpochS := some 2, status := .running }
    let kid : ProcessEntry := { b with pid := 2, ppid := some 1, startEpochS := some 3 }
    let snap : Snapshot := { processes := [a, b, kid] }
    ∃ row, DisplayRow.process row ∈ buildDisplayRows asciiHost insertedHash snap [] 0 true ∅
        (fun _ => false) ∧
      row.aggregate = true ∧
      ∀ head ∈ snap.processes, ∀ members, ¬ Summarises insertedHash head members row := by
  intro a b kid snap
  have hshown : (⟨1, some 1⟩, false, .running) ∈ shownGroups (buildDisplayRows asciiHost
      insertedHash snap [] 0 true ∅ fun _ => false) := by decide +kernel
  obtain ⟨row, hrow, hagg, hidentity, hstate⟩ := exists_of_mem_shownGroups hshown
  refine ⟨row, hrow, hagg, fun head hhead members h => ?_⟩
  have hstart : head.startEpochS = some 1 :=
    congrArg ProcessIdentity.startEpochS (h.identity.symm.trans hidentity)
  have hfirst : ∀ p ∈ snap.processes, p.startEpochS = some 1 → p.status = .notResponding := by
    decide
  have hrunning : row.status = .running := congrArg Prod.snd hstate
  rw [h.status, groupStatus, hfirst head hhead hstart] at hrunning
  split at hrunning
  · cases hrunning
  · split at hrunning <;> cases hrunning

end Processes

end Taskman
