import Taskman.App.Processes.Tree

/-!
# Families of the Background and Windows sections

These sections are flat lists in which the processes of one application collapse into one row.  Two
things group: a connected family under one head, found in creation order, and a repeat run of one
image under one parent, among the processes no family took.

* `Processes.joinsFamily`, `Processes.applicationFamily` : who belongs to a head;
* `Processes.emitFlatWithFamilyGroups` : the rows of a section;
* `Processes.mem_applicationFamily` : **a head stands for what it accepts along the links**;
* `Processes.familyTable_spec` : **what the two passes leave, in whatever order the runs come**;
* `Processes.emitFlat_eq` : **the section is one valid block for each process nothing swallowed**.
-/

namespace Taskman

namespace Processes

/-! ### Who belongs together -/

/-- Whether `kid` belongs to `root`'s application rather than being something it launched. -/
def joinsFamily (root kid : ProcessEntry) : Bool :=
  if eqIgnoreAsciiCase kid.name root.name then true
  else
    samePublisher root kid && looksLikeHelperProcess kid.name && !kid.hasWindow &&
      decide (kid.cpuPct < PROMOTE_CPU_PCT) && !isSystemBoundary root.name &&
      !isSystemBoundary kid.name && !isLaunchBoundary root.name

/-- The connected family `p` heads: a descendant that does not join is not descended into. -/
def applicationFamily (p : ProcessEntry) (children : Multimap ℕ ProcessEntry) :
    List ProcessEntry :=
  Worklist.gather ProcessEntry.pid (fun cur => children.get cur.pid) (joinsFamily p)
    (children.entries.length + 1) p

/-- Repeat runs of one image under one parent; of the core images only service hosts. -/
def siblingRunKey (host : PageHost) (p : ProcessEntry) : Option (ℕ × Text) :=
  let groupableServiceHost := eqIgnoreAsciiCase p.name "svchost.exe".toList
  if (isSystemBoundary p.name && !groupableServiceHost) || p.hasWindow then none
  else (p.ppid.filter fun ppid => decide (ppid ≠ p.pid)).map fun ppid =>
    (ppid, host.toLowercase p.name)

/-- The members of each head's group, and the pids that are shown under a head. -/
structure FamilyTable where
  heads : ℕ → Option (List ProcessEntry) := fun _ => none
  swallowed : Finset ℕ := ∅

/-- One process's turn to head a connected family. -/
def headStep (children : Multimap ℕ ProcessEntry) (s : FamilyTable) (p : ProcessEntry) :
    FamilyTable :=
  if p.pid ∈ s.swallowed then s
  else
    let fam := applicationFamily p children
    if 1 < fam.length then
      { heads := Function.update s.heads p.pid (some fam)
        swallowed := s.swallowed ∪ ((fam.drop 1).map ProcessEntry.pid).toFinset }
    else s

/-- The processes that no family took, by parent and image. -/
def runsOf (host : PageHost) (members : List ProcessEntry) (s : FamilyTable) :
    Multimap (ℕ × Text) ProcessEntry :=
  Multimap.ofLinks (siblingRunKey host)
    (members.filter fun p => decide (p.pid ∉ s.swallowed) && (s.heads p.pid).isNone)

/-- One repeat run: the process with the least pid heads it. -/
def runStep (runs : Multimap (ℕ × Text) ProcessEntry) (s : FamilyTable) (key : ℕ × Text) :
    FamilyTable :=
  let run := runs.get key
  if run.length < 2 then s
  else
    match sortBy (fun a b => compare a.pid b.pid) run with
    | [] => s
    | head :: rest =>
      { heads := Function.update s.heads head.pid (some (head :: rest))
        swallowed := s.swallowed ∪ (rest.map ProcessEntry.pid).toFinset }

/-- The groups of a section. -/
def familyTable (host : PageHost) (hash : PageHash) (members : List ProcessEntry)
    (children : Multimap ℕ ProcessEntry) : FamilyTable :=
  let s := members.foldl (headStep children) {}
  let runs := runsOf host members s
  (hash.runs.order (runs.entries.map Prod.fst).dedup).foldl (runStep runs) s

/-! ### Rows of the section -/

/-- The summary row of a family. -/
def familyHead (host : PageHost) (p : ProcessEntry) (fam : List ProcessEntry) (values : Values) :
    RowData where
  pid := p.pid
  startEpochS := p.startEpochS
  depth := 0
  name := countLabel (familyLabel host p fam) fam
  iconPath := p.exePath
  children := true
  aggregate := true
  terminationTargets := groupTargets fam
  values := values
  heat _ := 0
  netAvailable := fam.any netKnown
  diskAvailable := fam.any diskKnown
  gpuAvailable := fam.any gpuKnown
  status :=
    if fam.any fun member => decide (member.status = .notResponding) then .notResponding
    else if fam.any fun member => decide (member.status = .suspended) then .suspended
    else p.status
  powerThrottled := fam.any fun member => member.powerThrottled == some true
  synthetic := false
  commandLine := none
  tooltip := familyTooltip fam

/-- The members of an expanded family: the head first, then the others sorted. -/
def expandedFamilyListing (host : PageHost) (p : ProcessEntry) (fam : List ProcessEntry)
    (sortCol : ℕ) (ascending : Bool) : List (ProcessEntry × ℕ) :=
  let rest := fam.filter fun member => decide (member.pid ≠ p.pid)
  (p, 1) :: (sortEntries host rest sortCol ascending (ownTable rest)).map fun member => (member, 1)

/-- What the row of a process shows, if it has one of its own. -/
def represented (hash : PageHash) (table : FamilyTable) (p : ProcessEntry) : Option Values :=
  match table.heads p.pid with
  | some fam => some (familyValues hash fam)
  | none => if p.pid ∈ table.swallowed then none else some (ownValues p)

/-- The values the rows of a section show. -/
def representedValues (hash : PageHash) (members : List ProcessEntry) (table : FamilyTable) :
    ℕ → Option Values :=
  collect (members.filterMap fun p => (represented hash table p).map fun values => (p.pid, values))

/-- The rows of one process that nothing swallowed. -/
def emitFamilyGroup (host : PageHost) (sortCol : ℕ) (ascending : Bool) (expanded : Finset ℕ)
    (table : FamilyTable) (values : ℕ → Option Values) (p : ProcessEntry) : List DisplayRow :=
  match table.heads p.pid with
  | none => [.process (makeOwnRow host p 0)]
  | some fam =>
    .process (familyHead host p fam ((values p.pid).getD fun _ => 0)) ::
      if p.pid ∈ expanded then
        (memberRows host (expandedFamilyListing host p fam sortCol ascending)).map .process
      else []

/-- `emit_flat_with_family_groups`. -/
def emitFlatWithFamilyGroups (host : PageHost) (hash : PageHash) (members : List ProcessEntry)
    (children : Multimap ℕ ProcessEntry) (sortCol : ℕ) (ascending : Bool) (expanded : Finset ℕ) :
    List DisplayRow :=
  let table := familyTable host hash members children
  let values := representedValues hash members table
  let display := members.filter fun p => decide (p.pid ∉ table.swallowed)
  (sortEntries host display sortCol ascending values).flatMap
    (emitFamilyGroup host sortCol ascending expanded table values)

/-! ### Connected families -/

section Links

variable {parent : ProcessEntry → Option ℕ} {l : List ProcessEntry}

/-- Who joins a head's family. -/
abbrev Joins (root kid : ProcessEntry) : Prop := joinsFamily root kid = true

/-- The connected family of a head. -/
abbrev FamilyOf (parent : ProcessEntry → Option ℕ) (l : List ProcessEntry) :
    ProcessEntry → ProcessEntry → Prop := Forest.Family (Linked parent l) Joins

theorem FamilyOf.mem {p x : ProcessEntry} (hp : p ∈ l) (h : FamilyOf parent l p x) : x ∈ l := by
  rcases Relation.ReflTransGen.cases_tail h with heq | ⟨y, -, hy⟩
  · exact heq ▸ hp
  · exact hy.1.2.1

theorem joinsFamily_self (p : ProcessEntry) : joinsFamily p p = true := by
  simp [joinsFamily, eqIgnoreAsciiCase]

variable (parent) in
/-- **A head stands for what it accepts along the links, once, itself first.** -/
theorem applicationFamily_spec (hl : Distinct l) {p : ProcessEntry} (hp : p ∈ l) :
    (∃ rest, applicationFamily p (Multimap.ofLinks parent l) = p :: rest) ∧
    Distinct (applicationFamily p (Multimap.ofLinks parent l)) ∧
    ∀ x, x ∈ applicationFamily p (Multimap.ofLinks parent l) ↔ FamilyOf parent l p x := by
  have hpay : ∀ a ∈ l, ∀ b ∈ (Multimap.ofLinks parent l).get a.pid, ∀ seen : Finset ℕ,
      b.pid ∉ seen →
        unmet (Multimap.ofLinks parent l).values (insert b.pid seen) <
          unmet (Multimap.ofLinks parent l).values seen := by
    intro a _ b hb seen hseen
    obtain ⟨hbl, hlink⟩ := Multimap.mem_get_ofLinks.mp hb
    exact unmet_insert_lt (Multimap.mem_values_ofLinks.mpr ⟨hbl, by rw [hlink, Option.isSome_some]⟩)
      hseen
  have hfuel : unmet (Multimap.ofLinks parent l).values {p.pid} + 1 ≤
      (Multimap.ofLinks parent l).entries.length + 1 := by
    have hle := unmet_le (Multimap.ofLinks parent l).values {p.pid}
    rw [Multimap.values, List.length_map] at hle
    exact Nat.add_le_add_right hle 1
  obtain ⟨hhead, hnodup, hmem⟩ := Worklist.gather_spec ProcessEntry.pid
    (fun cur => (Multimap.ofLinks parent l).get cur.pid)
    (unmet (Multimap.ofLinks parent l).values) (joinsFamily p) (fun q => q ∈ l)
    (fun _ _ ha hb h => Multimap.eq_of_key hl ha hb h)
    (fun _ _ b hb => (Multimap.mem_get_ofLinks.mp hb).1) hpay hp hfuel
  refine ⟨hhead, hnodup, fun x => ?_⟩
  rw [applicationFamily, hmem]
  constructor
  · intro h
    have hboth : FamilyOf parent l p x ∧ x ∈ l := by
      induction h with
      | refl => exact ⟨Forest.Family.refl p, hp⟩
      | @tail y z _ hstep ih =>
        obtain ⟨hzl, hlink⟩ := Multimap.mem_get_ofLinks.mp hstep.1
        exact ⟨ih.1.tail ⟨⟨ih.2, hzl, hlink⟩, hstep.2⟩, hzl⟩
    exact hboth.1
  · intro h
    refine Relation.ReflTransGen.mono (fun a b hab => ?_) p x h
    exact ⟨Multimap.mem_get_ofLinks.mpr ⟨hab.1.2.1, hab.1.2.2⟩, hab.2⟩

theorem mem_applicationFamily (hl : Distinct l) {p x : ProcessEntry} (hp : p ∈ l) :
    x ∈ applicationFamily p (Multimap.ofLinks parent l) ↔ FamilyOf parent l p x :=
  (applicationFamily_spec parent hl hp).2.2 x

/-- What stands after the head of a family is the rest of it. -/
theorem mem_drop_applicationFamily (hl : Distinct l) {p x : ProcessEntry} (hp : p ∈ l) :
    x ∈ (applicationFamily p (Multimap.ofLinks parent l)).drop 1 ↔
      FamilyOf parent l p x ∧ x ≠ p := by
  obtain ⟨⟨rest, hrest⟩, hnodup, hmem⟩ := applicationFamily_spec parent hl hp
  have hnot : p ∉ rest := by
    have hn := hnodup.of_map
    rw [hrest] at hn
    exact (List.nodup_cons.mp hn).1
  rw [← hmem, hrest, List.drop_one, List.tail_cons, List.mem_cons]
  constructor
  · intro hx
    exact ⟨Or.inr hx, fun heq => hnot (heq ▸ hx)⟩
  · rintro ⟨hx, hne⟩
    exact hx.resolve_left hne

/-- The heads picked by the first pass. -/
noncomputable abbrev familyLeads (parent : ProcessEntry → Option ℕ) (l : List ProcessEntry) :
    List ProcessEntry := Forest.leads (Linked parent l) Joins l

/-- What the first pass leaves after some picks. -/
structure Headed (parent : ProcessEntry → Option ℕ) (l picked : List ProcessEntry)
    (s : FamilyTable) : Prop where
  swallowed : ∀ k, k ∈ s.swallowed ↔
    ∃ q ∈ picked, ∃ x, FamilyOf parent l q x ∧ x ≠ q ∧ x.pid = k
  heads : ∀ q ∈ picked, 1 < (applicationFamily q (Multimap.ofLinks parent l)).length →
    s.heads q.pid = some (applicationFamily q (Multimap.ofLinks parent l))
  others : ∀ k, (∀ q ∈ picked, q.pid = k →
    ¬ 1 < (applicationFamily q (Multimap.ofLinks parent l)).length) → s.heads k = none

/-- A process that accepts somebody heads its family. -/
theorem Headed.family (hl : Distinct l) {picked : List ProcessEntry} {s : FamilyTable}
    (hs : Headed parent l picked s) {p : ProcessEntry} (hp : p ∈ l)
    (hne : ∀ q ∈ picked, q.pid ≠ p.pid)
    (hlen : 1 < (applicationFamily p (Multimap.ofLinks parent l)).length) :
    Headed parent l (picked ++ [p])
      { heads := Function.update s.heads p.pid
          (some (applicationFamily p (Multimap.ofLinks parent l)))
        swallowed := s.swallowed ∪ (((applicationFamily p (Multimap.ofLinks parent l)).drop 1).map
          ProcessEntry.pid).toFinset } where
  swallowed k := by
    simp only [Finset.mem_union, List.mem_toFinset, hs.swallowed]
    constructor
    · rintro (⟨q, hq, h⟩ | h)
      · exact ⟨q, List.mem_append_left _ hq, h⟩
      · obtain ⟨x, hx, rfl⟩ := List.mem_map.mp h
        obtain ⟨hfam, hxp⟩ := (mem_drop_applicationFamily hl hp).mp hx
        exact ⟨p, List.mem_append_right _ (List.mem_singleton_self p), x, hfam, hxp, rfl⟩
    · rintro ⟨q, hq, x, hfam, hxq, rfl⟩
      rcases List.mem_append.mp hq with hq | hq
      · exact Or.inl ⟨q, hq, x, hfam, hxq, rfl⟩
      · obtain rfl := List.mem_singleton.mp hq
        exact Or.inr (List.mem_map_of_mem ((mem_drop_applicationFamily hl hp).mpr ⟨hfam, hxq⟩))
  heads q hq hqlen := by
    rcases List.mem_append.mp hq with hq | hq
    · exact (Function.update_of_ne (hne q hq) _ _).trans (hs.heads q hq hqlen)
    · rw [List.mem_singleton.mp hq]
      exact Function.update_self _ _ _
  others k hk := by
    have hkp : k ≠ p.pid := fun heq =>
      hk p (List.mem_append_right _ (List.mem_singleton_self p)) heq.symm hlen
    exact (Function.update_of_ne hkp _ _).trans
      (hs.others k fun q hq => hk q (List.mem_append_left _ hq))

variable (parent) in
theorem eq_of_familyOf (hl : Distinct l) {p x : ProcessEntry} (hp : p ∈ l)
    (hlen : ¬ 1 < (applicationFamily p (Multimap.ofLinks parent l)).length)
    (hx : FamilyOf parent l p x) : x = p := by
  by_contra hne
  have hpos := List.length_pos_of_mem ((mem_drop_applicationFamily hl hp).mpr ⟨hx, hne⟩)
  rw [List.length_drop] at hpos
  omega

/-- A process that accepts nobody leaves the table as it is. -/
theorem Headed.alone (hl : Distinct l) {picked : List ProcessEntry} {s : FamilyTable}
    (hs : Headed parent l picked s) {p : ProcessEntry} (hp : p ∈ l)
    (hlen : ¬ 1 < (applicationFamily p (Multimap.ofLinks parent l)).length) :
    Headed parent l (picked ++ [p]) s where
  swallowed k := by
    rw [hs.swallowed]
    constructor
    · rintro ⟨q, hq, h⟩
      exact ⟨q, List.mem_append_left _ hq, h⟩
    · rintro ⟨q, hq, x, hfam, hxq, hpid⟩
      rcases List.mem_append.mp hq with hq | hq
      · exact ⟨q, hq, x, hfam, hxq, hpid⟩
      · obtain rfl := List.mem_singleton.mp hq
        exact absurd (eq_of_familyOf parent hl hp hlen hfam) hxq
  heads q hq hqlen := by
    rcases List.mem_append.mp hq with hq | hq
    · exact hs.heads q hq hqlen
    · rw [List.mem_singleton.mp hq] at hqlen
      exact absurd hqlen hlen
  others k hk := hs.others k fun q hq => hk q (List.mem_append_left _ hq)

/-- The first pass heads, in order, what no family took. -/
theorem foldl_headStep (hl : Distinct l) (rest : List ProcessEntry) :
    ∀ (picked : List ProcessEntry) (s : FamilyTable), (∀ p ∈ rest, p ∈ l) → Distinct rest →
      (∀ q ∈ picked, q ∈ l ∧ q ∉ rest) → Headed parent l picked s →
      Headed parent l (Forest.picks (FamilyOf parent l) picked rest)
        (rest.foldl (headStep (Multimap.ofLinks parent l)) s) := by
  induction rest with
  | nil =>
    intro picked s _ _ _ hs
    exact hs
  | cons p rest ih =>
    intro picked s hrest hdistinct hpicked hs
    have hp : p ∈ l := hrest p List.mem_cons_self
    have hrest' : ∀ q ∈ rest, q ∈ l := fun q hq => hrest q (List.mem_cons_of_mem _ hq)
    have hpnot : p ∉ rest := (List.nodup_cons.mp hdistinct.of_map).1
    have hdistinct' : Distinct rest := (List.nodup_cons.mp hdistinct).2
    have hpicked' : ∀ q ∈ picked, q ∈ l ∧ q ∉ rest :=
      fun q hq => ⟨(hpicked q hq).1, fun h => (hpicked q hq).2 (List.mem_cons_of_mem _ h)⟩
    have hne : ∀ q ∈ picked, q.pid ≠ p.pid := by
      intro q hq hpid
      obtain rfl := Multimap.eq_of_key hl (hpicked q hq).1 hp hpid
      exact (hpicked q hq).2 List.mem_cons_self
    have hiff : p.pid ∈ s.swallowed ↔ ∃ q ∈ picked, FamilyOf parent l q p := by
      rw [hs.swallowed]
      constructor
      · rintro ⟨q, hq, x, hx, -, hpid⟩
        obtain rfl : x = p := Multimap.eq_of_key hl (FamilyOf.mem (hpicked q hq).1 hx) hp hpid
        exact ⟨q, hq, hx⟩
      · rintro ⟨q, hq, hqp⟩
        refine ⟨q, hq, p, hqp, ?_, rfl⟩
        rintro rfl
        exact hne p hq rfl
    rw [List.foldl_cons]
    by_cases hmem : p.pid ∈ s.swallowed
    · rw [Forest.picks_cons_of_covered (hiff.mp hmem), headStep, if_pos hmem]
      exact ih picked s hrest' hdistinct' hpicked' hs
    · rw [Forest.picks_cons_of_not fun h => hmem (hiff.mpr h), headStep, if_neg hmem]
      have hpicked'' : ∀ q ∈ picked ++ [p], q ∈ l ∧ q ∉ rest := by
        intro q hq
        rcases List.mem_append.mp hq with hq | hq
        · exact hpicked' q hq
        · obtain rfl := List.mem_singleton.mp hq
          exact ⟨hp, hpnot⟩
      by_cases hlen : 1 < (applicationFamily p (Multimap.ofLinks parent l)).length
      · simp only [hlen, if_true]
        exact ih (picked ++ [p]) _ hrest' hdistinct' hpicked'' (hs.family hl hp hne hlen)
      · simp only [hlen, if_false]
        exact ih (picked ++ [p]) _ hrest' hdistinct' hpicked'' (hs.alone hl hp hlen)

/-- The table after the first pass. -/
def headTable (parent : ProcessEntry → Option ℕ) (l : List ProcessEntry) : FamilyTable :=
  l.foldl (headStep (Multimap.ofLinks parent l)) {}

variable (parent) in
theorem headed_headTable (hl : Distinct l) :
    Headed parent l (familyLeads parent l) (headTable parent l) := by
  refine foldl_headStep hl l [] {} (fun _ h => h) hl (by simp)
    ⟨fun k => ?_, by simp, fun _ _ => rfl⟩
  simp

/-- **After the first pass, what is not swallowed is topmost.** -/
theorem notMem_swallowed_iff (hl : Distinct l) {p : ProcessEntry} (hp : p ∈ l) :
    p.pid ∉ (headTable parent l).swallowed ↔ Forest.Topmost (Linked parent l) Joins l p := by
  have hs := headed_headTable parent hl
  have hmem : ∀ q ∈ familyLeads parent l, q ∈ l := fun q hq =>
    (Forest.mem_or_mem_of_mem_picks hq).resolve_left List.not_mem_nil
  rw [hs.swallowed]
  constructor
  · intro hnot
    have htop : ∀ q ∈ familyLeads parent l, FamilyOf parent l q p → q = p := by
      intro q hq hqp
      by_contra hne
      exact hnot ⟨q, hq, p, hqp, Ne.symm hne, rfl⟩
    obtain ⟨q, hq, hqp⟩ := Forest.exists_mem_picks (FamilyOf parent l)
      (fun p => Forest.Family.refl p) [] hp
    exact ⟨htop q hq hqp ▸ hq, htop⟩
  · rintro ⟨-, htop⟩ ⟨q, hq, x, hx, hxq, hpid⟩
    obtain rfl : x = p := Multimap.eq_of_key hl (FamilyOf.mem (hmem q hq) hx) hp hpid
    exact hxq (htop q hq hx).symm

theorem mem_of_mem_familyLeads {q : ProcessEntry} (hq : q ∈ familyLeads parent l) : q ∈ l :=
  (Forest.mem_or_mem_of_mem_picks hq).resolve_left List.not_mem_nil

end Links

/-! ### Repeat runs -/

section Runs

/-- A repeat run, by pid. -/
def Run (runs : Multimap (ℕ × Text) ProcessEntry) (key : ℕ × Text) (head : ProcessEntry)
    (rest : List ProcessEntry) : Prop :=
  2 ≤ (runs.get key).length ∧ sortBy (fun a b => compare a.pid b.pid) (runs.get key) = head :: rest

variable {runs : Multimap (ℕ × Text) ProcessEntry} {key : ℕ × Text} {head : ProcessEntry}
  {rest : List ProcessEntry}

theorem Run.perm (h : Run runs key head rest) : (head :: rest).Perm (runs.get key) := by
  rw [← h.2]
  exact sortBy_perm _ _

theorem Run.mem_iff (h : Run runs key head rest) {x : ProcessEntry} :
    x ∈ head :: rest ↔ x ∈ runs.get key := h.perm.mem_iff

theorem Run.unique (h : Run runs key head rest) {head' : ProcessEntry} {rest' : List ProcessEntry}
    (h' : Run runs key head' rest') : head = head' ∧ rest = rest' :=
  List.cons.inj (h.2.symm.trans h'.2)

/-- What going through some keys does to the table. -/
structure RunTable (runs : Multimap (ℕ × Text) ProcessEntry) (keys : List (ℕ × Text))
    (s₀ s : FamilyTable) : Prop where
  swallowed : ∀ k, k ∈ s.swallowed ↔
    k ∈ s₀.swallowed ∨ ∃ key ∈ keys, ∃ head rest, Run runs key head rest ∧ ∃ x ∈ rest, x.pid = k
  heads : ∀ key ∈ keys, ∀ head rest, Run runs key head rest → s.heads head.pid = some (head :: rest)
  others : ∀ k, (∀ key ∈ keys, ∀ head rest, Run runs key head rest → head.pid ≠ k) →
    s.heads k = s₀.heads k

/-- Under different keys there are different pids. -/
def Apart (runs : Multimap (ℕ × Text) ProcessEntry) : Prop :=
  ∀ key key' x y, x ∈ runs.get key → y ∈ runs.get key' → x.pid = y.pid → key = key'

theorem runStep_of_run (s : FamilyTable) (h : Run runs key head rest) :
    runStep runs s key =
      { heads := Function.update s.heads head.pid (some (head :: rest))
        swallowed := s.swallowed ∪ (rest.map ProcessEntry.pid).toFinset } := by
  dsimp only [runStep]
  rw [if_neg (Nat.not_lt.mpr h.1), h.2]

theorem runStep_of_not (s : FamilyTable) (h : ∀ head rest, ¬ Run runs key head rest) :
    runStep runs s key = s := by
  dsimp only [runStep]
  by_cases hlen : (runs.get key).length < 2
  · rw [if_pos hlen]
  · rw [if_neg hlen]
    cases hsorted : sortBy (fun a b => compare a.pid b.pid) (runs.get key) with
    | nil => rfl
    | cons head rest => exact absurd ⟨Nat.not_lt.mp hlen, hsorted⟩ (h head rest)

/-- **What the runs do to the table does not depend on the order of their keys.** -/
theorem foldl_runStep (hapart : Apart runs) (keys : List (ℕ × Text)) :
    keys.Nodup → ∀ s₀ : FamilyTable, RunTable runs keys s₀ (keys.foldl (runStep runs) s₀) := by
  induction keys with
  | nil =>
    intro _ s₀
    exact ⟨by simp, by simp, fun _ _ => rfl⟩
  | cons key keys ih =>
    intro hnodup s₀
    obtain ⟨hkey, hkeys⟩ := List.nodup_cons.mp hnodup
    have hs := ih hkeys (runStep runs s₀ key)
    rw [List.foldl_cons]
    by_cases hrun : ∃ head rest, Run runs key head rest
    · obtain ⟨head, rest, hrun⟩ := hrun
      have hstep := runStep_of_run s₀ hrun
      -- the heads of the other runs have other pids
      have hother : ∀ key' ∈ keys, ∀ head' rest', Run runs key' head' rest' →
          head'.pid ≠ head.pid := by
        intro key' hkey' head' rest' hrun' hpid
        have heq := hapart key' key head' head (hrun'.mem_iff.mp List.mem_cons_self)
          (hrun.mem_iff.mp List.mem_cons_self) hpid
        exact hkey (heq ▸ hkey')
      refine ⟨fun k => ?_, ?_, ?_⟩
      · rw [hs.swallowed, hstep]
        simp only [Finset.mem_union, List.mem_toFinset, List.mem_map]
        constructor
        · rintro ((hk | hk) | ⟨key', hkey', h⟩)
          · exact Or.inl hk
          · exact Or.inr ⟨key, List.mem_cons_self, head, rest, hrun, hk⟩
          · exact Or.inr ⟨key', List.mem_cons_of_mem _ hkey', h⟩
        · rintro (hk | ⟨key', hkey', head', rest', hrun', h⟩)
          · exact Or.inl (Or.inl hk)
          · rcases List.mem_cons.mp hkey' with rfl | hkey'
            · obtain ⟨-, rfl⟩ := hrun.unique hrun'
              exact Or.inl (Or.inr h)
            · exact Or.inr ⟨key', hkey', head', rest', hrun', h⟩
      · intro key' hkey' head' rest' hrun'
        rcases List.mem_cons.mp hkey' with rfl | hkey'
        · obtain ⟨rfl, rfl⟩ := hrun.unique hrun'
          rw [hs.others _ hother, hstep]
          exact Function.update_self _ _ _
        · exact hs.heads key' hkey' head' rest' hrun'
      · intro k hk
        rw [hs.others k fun key' hkey' => hk key' (List.mem_cons_of_mem _ hkey'), hstep]
        exact Function.update_of_ne (Ne.symm (hk key List.mem_cons_self head rest hrun)) _ _
    · have hnone : ∀ head rest, ¬ Run runs key head rest :=
        fun head rest h => hrun ⟨head, rest, h⟩
      have hstep := runStep_of_not s₀ hnone
      rw [hstep] at hs ⊢
      refine ⟨fun k => ?_, ?_, fun k hk => hs.others k fun key' hkey' =>
        hk key' (List.mem_cons_of_mem _ hkey')⟩
      · rw [hs.swallowed]
        refine or_congr_right ⟨?_, ?_⟩
        · rintro ⟨key', hkey', h⟩
          exact ⟨key', List.mem_cons_of_mem _ hkey', h⟩
        · rintro ⟨key', hkey', head', rest', hrun', h⟩
          rcases List.mem_cons.mp hkey' with rfl | hkey'
          · exact absurd hrun' (hnone head' rest')
          · exact ⟨key', hkey', head', rest', hrun', h⟩
      · intro key' hkey' head' rest' hrun'
        rcases List.mem_cons.mp hkey' with rfl | hkey'
        · exact absurd hrun' (hnone head' rest')
        · exact hs.heads key' hkey' head' rest' hrun'

end Runs

/-! ### The groups of a section -/

section Groups

variable {parent : ProcessEntry → Option ℕ} {l : List ProcessEntry} {host : PageHost}

/-- The runs among the processes that no family took. -/
abbrev sectionRuns (host : PageHost) (parent : ProcessEntry → Option ℕ) (l : List ProcessEntry) :
    Multimap (ℕ × Text) ProcessEntry := runsOf host l (headTable parent l)

theorem mem_sectionRuns {key : ℕ × Text} {x : ProcessEntry} :
    x ∈ (sectionRuns host parent l).get key ↔
      (x ∈ l ∧ x.pid ∉ (headTable parent l).swallowed ∧ (headTable parent l).heads x.pid = none) ∧
        siblingRunKey host x = some key := by
  rw [sectionRuns, runsOf, Multimap.mem_get_ofLinks, List.mem_filter, Bool.and_eq_true,
    decide_eq_true_iff, Option.isNone_iff_eq_none]

variable (parent host) in
theorem apart_sectionRuns (hl : Distinct l) : Apart (sectionRuns host parent l) := by
  intro key key' x y hx hy hpid
  obtain ⟨⟨hxl, -⟩, hkey⟩ := mem_sectionRuns.mp hx
  obtain ⟨⟨hyl, -⟩, hkey'⟩ := mem_sectionRuns.mp hy
  rw [Multimap.eq_of_key hl hxl hyl hpid, hkey'] at hkey
  exact (Option.some.inj hkey).symm

/-- What the two passes leave: the runs on top of the families. -/
structure Grouped (host : PageHost) (parent : ProcessEntry → Option ℕ) (l : List ProcessEntry)
    (table : FamilyTable) : Prop where
  swallowed : ∀ k, k ∈ table.swallowed ↔ k ∈ (headTable parent l).swallowed ∨
    ∃ key head rest, Run (sectionRuns host parent l) key head rest ∧ ∃ x ∈ rest, x.pid = k
  heads : ∀ key head rest, Run (sectionRuns host parent l) key head rest →
    table.heads head.pid = some (head :: rest)
  others : ∀ k, (∀ key head rest, Run (sectionRuns host parent l) key head rest →
    head.pid ≠ k) → table.heads k = (headTable parent l).heads k

/-- **What the two passes leave, in whatever order the runs come.** -/
theorem familyTable_spec (hl : Distinct l) (hash : PageHash) :
    Grouped host parent l (familyTable host hash l (Multimap.ofLinks parent l)) := by
  have hkey : ∀ {key head rest}, Run (sectionRuns host parent l) key head rest →
      key ∈ hash.runs.order ((sectionRuns host parent l).entries.map Prod.fst).dedup := by
    intro key head rest hrun
    rw [hash.runs.mem_order, List.mem_dedup]
    have hmem := hrun.mem_iff.mp List.mem_cons_self
    obtain ⟨e, he, -⟩ := List.mem_map.mp hmem
    obtain ⟨hentry, hfst⟩ := List.mem_filter.mp he
    rw [← of_decide_eq_true hfst]
    exact List.mem_map_of_mem hentry
  have hs := foldl_runStep (apart_sectionRuns parent host hl)
    (hash.runs.order ((sectionRuns host parent l).entries.map Prod.fst).dedup)
    ((hash.runs.perm _).nodup_iff.mpr (List.nodup_dedup _)) (headTable parent l)
  refine ⟨fun k => ?_, fun key head rest hrun => hs.heads key (hkey hrun) head rest hrun,
    fun k hk => hs.others k fun key _ => hk key⟩
  refine (hs.swallowed k).trans (or_congr_right ⟨?_, ?_⟩)
  · rintro ⟨key, -, head, rest, h⟩
    exact ⟨key, head, rest, h⟩
  · rintro ⟨key, head, rest, hrun, h⟩
    exact ⟨key, hkey hrun, head, rest, hrun, h⟩

theorem Grouped.eq {table table' : FamilyTable} (h : Grouped host parent l table)
    (h' : Grouped host parent l table') : table = table' := by
  have hswallowed : table.swallowed = table'.swallowed :=
    Finset.ext fun k => (h.swallowed k).trans (h'.swallowed k).symm
  have hheads : table.heads = table'.heads := by
    funext k
    by_cases hrun : ∃ key head rest, Run (sectionRuns host parent l) key head rest ∧ head.pid = k
    · obtain ⟨key, head, rest, hrun, rfl⟩ := hrun
      rw [h.heads key head rest hrun, h'.heads key head rest hrun]
    · have hnone : ∀ key head rest, Run (sectionRuns host parent l) key head rest →
          head.pid ≠ k := fun key head rest hr heq => hrun ⟨key, head, rest, hr, heq⟩
      rw [h.others k hnone, h'.others k hnone]
  obtain ⟨heads, swallowed⟩ := table
  obtain ⟨heads', swallowed'⟩ := table'
  obtain rfl : heads = heads' := hheads
  obtain rfl : swallowed = swallowed' := hswallowed
  rfl

theorem familyTable_congr (hl : Distinct l) (hash hash' : PageHash) :
    familyTable host hash l (Multimap.ofLinks parent l) =
      familyTable host hash' l (Multimap.ofLinks parent l) :=
  (familyTable_spec hl hash).eq (familyTable_spec hl hash')

/-- The processes a process that nothing swallowed stands for. -/
def FamilyTable.members (table : FamilyTable) (p : ProcessEntry) : List ProcessEntry :=
  (table.heads p.pid).getD [p]

/-- The processes of a section that have a row of their own. -/
def FamilyTable.display (table : FamilyTable) (l : List ProcessEntry) : List ProcessEntry :=
  l.filter fun p => decide (p.pid ∉ table.swallowed)

/-- A process with a row of its own heads a connected family or a run, or is alone. -/
inductive Stands (host : PageHost) (parent : ProcessEntry → Option ℕ) (l : List ProcessEntry)
    (table : FamilyTable) (p : ProcessEntry) : Prop
  | family (hcount : 1 < (applicationFamily p (Multimap.ofLinks parent l)).length)
      (hheads : table.heads p.pid = some (applicationFamily p (Multimap.ofLinks parent l)))
  | run (key : ℕ × Text) (rest : List ProcessEntry)
      (hrun : Run (sectionRuns host parent l) key p rest)
      (hheads : table.heads p.pid = some (p :: rest))
  | alone (hself : ∀ x, FamilyOf parent l p x → x = p) (hheads : table.heads p.pid = none)
      (hrun : ∀ key head rest, Run (sectionRuns host parent l) key head rest → p ∉ head :: rest)

theorem headTable_heads_eq_none_iff (hl : Distinct l) {p : ProcessEntry}
    (hp : Forest.Topmost (Linked parent l) Joins l p) :
    (headTable parent l).heads p.pid = none ↔ ∀ x, FamilyOf parent l p x → x = p := by
  have hs := headed_headTable parent hl
  have hpl : p ∈ l := mem_of_mem_familyLeads hp.1
  by_cases hlen : 1 < (applicationFamily p (Multimap.ofLinks parent l)).length
  · rw [hs.heads p hp.1 hlen]
    constructor
    · intro h
      cases h
    · intro hself
      obtain ⟨⟨rest, hrest⟩, hnodup, hmem⟩ := applicationFamily_spec parent hl hpl
      cases rest with
      | nil =>
        rw [hrest] at hlen
        exact absurd hlen (Nat.lt_irrefl 1)
      | cons x rest =>
        have hx : x = p := hself x ((hmem x).mp (hrest ▸ by simp))
        have hn := hnodup.of_map
        rw [hrest, hx] at hn
        simp at hn
  · refine iff_of_true (hs.others _ fun q hq hpid => ?_)
      fun x hx => eq_of_familyOf parent hl hpl hlen hx
    rwa [Multimap.eq_of_key hl (mem_of_mem_familyLeads hq) hpl hpid]

/-- The members of a run are topmost and alone in their families. -/
theorem alone_of_mem_run (hl : Distinct l) {key : ℕ × Text} {head : ProcessEntry}
    {rest : List ProcessEntry} (hrun : Run (sectionRuns host parent l) key head rest)
    {x : ProcessEntry} (hx : x ∈ head :: rest) :
    x ∈ l ∧ Forest.Topmost (Linked parent l) Joins l x ∧ (∀ y, FamilyOf parent l x y → y = x) ∧
      siblingRunKey host x = some key := by
  obtain ⟨⟨hxl, hswallowed, hheads⟩, hkey⟩ := mem_sectionRuns.mp (hrun.mem_iff.mp hx)
  have htop := (notMem_swallowed_iff hl hxl).mp hswallowed
  exact ⟨hxl, htop, (headTable_heads_eq_none_iff hl htop).mp hheads, hkey⟩

theorem Run.distinct (hl : Distinct l) {key : ℕ × Text} {head : ProcessEntry}
    {rest : List ProcessEntry} (hrun : Run (sectionRuns host parent l) key head rest) :
    Distinct (head :: rest) := by
  refine (hrun.perm.map ProcessEntry.pid).nodup_iff.mpr ?_
  rw [sectionRuns, runsOf, Multimap.get_ofLinks]
  exact hl.sublist ((List.filter_sublist.trans List.filter_sublist).map _)

variable {table : FamilyTable}

/-- What has a row of its own is topmost, and not behind the head of a run. -/
theorem Grouped.notMem_swallowed_iff (h : Grouped host parent l table) (hl : Distinct l)
    {p : ProcessEntry} (hp : p ∈ l) :
    p.pid ∉ table.swallowed ↔ Forest.Topmost (Linked parent l) Joins l p ∧
      ∀ key head rest, Run (sectionRuns host parent l) key head rest → p ∉ rest := by
  rw [h.swallowed, not_or, Processes.notMem_swallowed_iff hl hp]
  refine and_congr_right fun _ => ⟨?_, ?_⟩
  · intro hnone key head rest hrun hmem
    exact hnone ⟨key, head, rest, hrun, p, hmem, rfl⟩
  · rintro hnot ⟨key, head, rest, hrun, x, hx, hpid⟩
    obtain ⟨hxl, -⟩ := alone_of_mem_run hl hrun (List.mem_cons_of_mem _ hx)
    rw [Multimap.eq_of_key hl hxl hp hpid] at hx
    exact hnot key head rest hrun hx

/-- **What has a row of its own heads a family or a run, or is alone.** -/
theorem Grouped.stands (h : Grouped host parent l table) (hl : Distinct l) {p : ProcessEntry}
    (hp : p ∈ l) (hdisplay : p.pid ∉ table.swallowed) : Stands host parent l table p := by
  obtain ⟨htop, hnot⟩ := (h.notMem_swallowed_iff hl hp).mp hdisplay
  by_cases hrun : ∃ key head rest, Run (sectionRuns host parent l) key head rest ∧ head.pid = p.pid
  · obtain ⟨key, head, rest, hrun, hpid⟩ := hrun
    obtain ⟨hheadl, -⟩ := alone_of_mem_run hl hrun List.mem_cons_self
    obtain rfl := Multimap.eq_of_key hl hheadl hp hpid
    exact Stands.run key rest hrun (h.heads key head rest hrun)
  · have hother := h.others p.pid fun key head rest hr hpid => hrun ⟨key, head, rest, hr, hpid⟩
    by_cases hlen : 1 < (applicationFamily p (Multimap.ofLinks parent l)).length
    · refine Stands.family hlen (hother.trans ?_)
      exact (headed_headTable parent hl).heads p htop.1 hlen
    · have hself := fun x => eq_of_familyOf parent (x := x) hl hp hlen
      refine Stands.alone hself (hother.trans ((headTable_heads_eq_none_iff hl htop).mpr hself)) ?_
      intro key head rest hr hmem
      rcases List.mem_cons.mp hmem with rfl | hmem
      · exact hrun ⟨key, p, rest, hr, rfl⟩
      · exact hnot key head rest hr hmem

/-- What a process with a row of its own stands for: itself among processes of the section. -/
theorem Stands.members (h : Stands host parent l table p) (hl : Distinct l) (hp : p ∈ l) :
    p ∈ table.members p ∧ Distinct (table.members p) := by
  unfold FamilyTable.members
  cases h with
  | family hcount hheads =>
    obtain ⟨⟨rest, hrest⟩, hnodup, -⟩ := applicationFamily_spec parent hl hp
    rw [hheads, Option.getD_some]
    exact ⟨hrest ▸ List.mem_cons_self, hnodup⟩
  | run key rest hrun hheads =>
    rw [hheads, Option.getD_some]
    exact ⟨List.mem_cons_self, hrun.distinct hl⟩
  | alone hself hheads =>
    rw [hheads, Option.getD_none]
    exact ⟨List.mem_singleton_self p, List.nodup_singleton _⟩

/-- A process with a row of its own stands for processes of the section only. -/
theorem Stands.mem_of_mem_members (h : Stands host parent l table p) (hl : Distinct l) (hp : p ∈ l)
    {x : ProcessEntry} (hx : x ∈ table.members p) : x ∈ l := by
  unfold FamilyTable.members at hx
  cases h with
  | family hcount hheads =>
    rw [hheads, Option.getD_some] at hx
    exact FamilyOf.mem hp ((mem_applicationFamily hl hp).mp hx)
  | run key rest hrun hheads =>
    rw [hheads, Option.getD_some] at hx
    exact (alone_of_mem_run hl hrun hx).1
  | alone hself hheads =>
    rw [hheads, Option.getD_none] at hx
    exact List.mem_singleton.mp hx ▸ hp

/-! ### The section as blocks -/

/-- The block of one process that nothing swallowed. -/
def familyBlock (host : PageHost) (hash : PageHash) (sortCol : ℕ) (ascending : Bool)
    (table : FamilyTable) (p : ProcessEntry) : Block :=
  match table.heads p.pid with
  | none => ⟨p, [p], makeOwnRow host p 0, []⟩
  | some fam =>
    ⟨p, fam, familyHead host p fam (familyValues hash fam),
      memberRows host (expandedFamilyListing host p fam sortCol ascending)⟩

theorem members_familyBlock (hash : PageHash) (sortCol : ℕ) (ascending : Bool)
    (p : ProcessEntry) :
    (familyBlock host hash sortCol ascending table p).members = table.members p := by
  unfold familyBlock FamilyTable.members
  cases table.heads p.pid with
  | none => rfl
  | some fam => rfl

theorem expandedFamilyListing_perm (sortCol : ℕ) (ascending : Bool) {p : ProcessEntry}
    {fam : List ProcessEntry} (hp : p ∈ fam) (hfam : Distinct fam) :
    ((expandedFamilyListing host p fam sortCol ascending).map Prod.fst).Perm fam := by
  have hrest : fam.filter (fun member => decide (member.pid ≠ p.pid)) = fam.erase p := by
    rw [hfam.of_map.erase_eq_filter]
    refine List.filter_congr fun x hx => ?_
    by_cases hxp : x = p
    · simp [hxp]
    · have hpid : x.pid ≠ p.pid := fun heq => hxp (Multimap.eq_of_key hfam hx hp heq)
      simp [hxp, hpid]
  have hfst : ∀ v : List ProcessEntry, (v.map fun member => (member, 1)).map Prod.fst = v := by
    intro v
    rw [List.map_map]
    exact List.map_id v
  rw [expandedFamilyListing, hrest, List.map_cons, hfst]
  exact ((sortBy_perm _ _).cons p).trans (List.perm_cons_erase hp).symm

/-- **The block of a process that nothing swallowed is valid.** -/
theorem familyBlock_valid (hl : Distinct l) (h : Grouped host parent l table) (hash : PageHash)
    (sortCol : ℕ) (ascending : Bool) {p : ProcessEntry} (hp : p ∈ l)
    (hdisplay : p.pid ∉ table.swallowed) :
    (familyBlock host hash sortCol ascending table p).Valid host hash := by
  have hstands := h.stands hl hp hdisplay
  obtain ⟨hmem, hdistinct⟩ := hstands.members hl hp
  unfold FamilyTable.members at hmem hdistinct
  unfold familyBlock
  cases hheads : table.heads p.pid with
  | none => exact Block.Valid.single p
  | some fam =>
    rw [hheads, Option.getD_some] at hmem hdistinct
    have hcount : 1 < fam.length := by
      cases hstands with
      | family hcount hheads' =>
        rw [hheads] at hheads'
        rwa [Option.some.inj hheads']
      | run key rest hrun hheads' =>
        rw [hheads] at hheads'
        rw [Option.some.inj hheads', hrun.perm.length_eq]
        exact hrun.1
      | alone _ hheads' =>
        rw [hheads] at hheads'
        cases hheads'
    refine Block.Valid.group hmem hcount ⟨rfl, rfl, rfl, rfl, rfl, rfl, rfl, rfl, rfl, rfl⟩
      (expandedFamilyListing_perm sortCol ascending hmem hdistinct) ?_
    intro x hx
    rcases List.mem_cons.mp hx with rfl | hx
    · exact le_refl 1
    · obtain ⟨member, -, rfl⟩ := List.mem_map.mp hx
      exact le_refl 1

/-- **The rows of the section are those of one block for each process nothing swallowed.** -/
theorem emitFlat_eq (host : PageHost) (hash : PageHash) (hl : Distinct l)
    (children : Multimap ℕ ProcessEntry) (sortCol : ℕ) (ascending : Bool) (expanded : Finset ℕ) :
    emitFlatWithFamilyGroups host hash l children sortCol ascending expanded =
      (sortEntries host ((familyTable host hash l children).display l) sortCol ascending
        (representedValues hash l (familyTable host hash l children))).flatMap fun p =>
          (familyBlock host hash sortCol ascending (familyTable host hash l children) p).rows
            expanded := by
  dsimp only [emitFlatWithFamilyGroups]
  generalize familyTable host hash l children = table
  refine List.flatMap_congr fun p hp => ?_
  rw [sortEntries, mem_sortBy, List.mem_filter] at hp
  unfold emitFamilyGroup familyBlock
  cases hheads : table.heads p.pid with
  | none => simp [Block.rows, makeOwnRow]
  | some fam =>
    have hvalues : representedValues hash l table p.pid = some (familyValues hash fam) := by
      rw [representedValues, collect_filterMap hl (represented hash table) hp.1, represented,
        hheads]
    simp only [hvalues, Option.getD_some, Block.rows, familyHead, true_and]

end Groups

end Processes

end Taskman
