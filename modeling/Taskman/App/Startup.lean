import Taskman.LTS.Machine
import Mathlib.Data.List.Basic
import Mathlib.Data.List.Nodup
import Mathlib.Logic.Function.Basic

/-!
# The startup table and the machine

The table shows a cached list.  A toggle flips the cached row at once and leaves the write to a job;
a write that fails flips the row back.  A refresh is a job too: it reads the system and publishes
what it read.  Jobs run on the two lanes of the executor, in order within a lane.

* `StartupPage.step` : what the UI thread or a job does next;
* `StartupPage.Agrees` : with no job outstanding, every row shows what the system has, and a row
  whose last toggle failed what it showed before;
* `StartupPage.Apart` : a toggle does not meet a refresh or a toggle of its item on its way;
* `StartupPage.agrees_of_apart` : **the table agrees with the machine as long as no toggle meets
  another job**.
-/

namespace Taskman

namespace StartupPage

variable (ι : Type*)

/-- An entry of the list; no two entries of a list have one id. -/
structure Row where
  id : ι
  enabled : Bool
  deriving DecidableEq

/-- A job of the page. -/
inductive Task where
  /-- Reads the system. -/
  | refresh
  /-- Has read the system. -/
  | publish (rows : List (Row ι))
  /-- Has published the list, and not given its flag back. -/
  | finish
  /-- Writes to the system; the row showed `before` when it was toggled. -/
  | write (id : ι) (enabled before : Bool)
  /-- The write failed. -/
  | rollBack (id : ι) (enabled : Bool)
  deriving DecidableEq

/-- A job in the lane that took it. -/
structure Job where
  lane : Fin 2
  task : Task ι
  deriving DecidableEq

end StartupPage

/-- What the page, its jobs and the system hold. -/
structure StartupPage (ι : Type*) where
  /-- What the system really has. -/
  system : ι → Bool
  cache : Option (List (StartupPage.Row ι)) := none
  fetchBusy : Bool := false
  /-- The jobs of both lanes, oldest first. -/
  jobs : List (StartupPage.Job ι) := []
  /-- For an item whose last toggle failed: what its row showed before. -/
  failedFrom : ι → Option Bool := fun _ => none

namespace StartupPage

variable {ι : Type*}

section Model

variable [DecidableEq ι]

/-- What can happen next: a step of the page, or of a job. -/
inductive Action (ι : Type*) where
  /-- A refresh, if the list is missing or too old; the job may be refused. -/
  | refresh (aged : Bool) (lane : Option (Fin 2))
  /-- "Refresh now" clears the cache. -/
  | clear
  /-- A row is toggled; the job may be refused. -/
  | toggle (id : ι) (enable : Bool) (lane : Option (Fin 2))
  /-- A job that is the first of its lane goes on: a refresh finds these items, a write succeeds or
  fails. -/
  | job (index : ℕ) (ids : List ι) (ok : Bool)

/-- The first row of an id. -/
def find? (rows : List (Row ι)) (id : ι) : Option (Row ι) := rows.find? (·.id = id)

/-- The first row of an id shows another state. -/
def setEnabled (id : ι) (enabled : Bool) : List (Row ι) → List (Row ι)
  | [] => []
  | row :: rows =>
    if row.id = id then { row with enabled } :: rows else row :: setEnabled id enabled rows

/-- What a job does; the job that is left, if it is not done. -/
def Task.run (s : StartupPage ι) (ids : List ι) (ok : Bool) :
    Task ι → Option (Task ι) × StartupPage ι
  | .refresh => (some (.publish (ids.map fun id => ⟨id, s.system id⟩)), s)
  | .publish rows => (some .finish, { s with cache := some rows })
  | .finish => (none, { s with fetchBusy := false })
  | .write id enabled before =>
    if ok then (none, { s with system := Function.update s.system id enabled })
    else
      (some (.rollBack id enabled),
        { s with failedFrom := Function.update s.failedFrom id (some before) })
  | .rollBack id enabled => (none, { s with cache := s.cache.map (setEnabled id !enabled) })

/-- One step, where it is enabled. -/
def step (s : StartupPage ι) : Action ι → Option (StartupPage ι)
  | .refresh aged lane =>
    some (if (s.cache.isNone || aged) && !s.fetchBusy then
      match lane with
      | none => s
      | some lane => { s with fetchBusy := true, jobs := s.jobs ++ [⟨lane, .refresh⟩] }
      else s)
  | .clear => some { s with cache := none }
  | .toggle id enable lane =>
    some (match lane, s.cache.bind (find? · id) with
      | some lane, some row =>
        { s with
          cache := s.cache.map (setEnabled id enable)
          jobs := s.jobs ++ [⟨lane, .write id enable row.enabled⟩]
          failedFrom := Function.update s.failedFrom id none }
      | _, _ => s)
  | .job index ids ok =>
    match s.jobs.drop index with
    | [] => none
    | job :: post =>
      let pre := s.jobs.take index
      if (∀ other ∈ pre, other.lane ≠ job.lane) ∧ ids.Nodup then
        let (left, s) := job.task.run s ids ok
        some { s with jobs := pre ++ (left.map (Job.mk job.lane)).toList ++ post }
      else none

end Model

/-- With no job outstanding, every row shows what the system has; a row whose last toggle failed
shows what it showed before. -/
def Agrees (s : StartupPage ι) : Prop :=
  s.jobs = [] → ∀ rows ∈ s.cache, ∀ row ∈ rows,
    row.enabled = s.system row.id ∧ ∀ before ∈ s.failedFrom row.id, row.enabled = before

/-! ### Jobs that meet -/

/-- A refresh whose list is still to be published. -/
def Task.unpublished : Task ι → Bool
  | .refresh | .publish _ => true
  | .finish | .write .. | .rollBack .. => false

/-- A toggle whose write is still to come. -/
def Task.unwritten : Task ι → Bool
  | .write .. => true
  | .refresh | .publish _ | .finish | .rollBack .. => false

/-- The item a toggle is about. -/
def Task.item : Task ι → Option ι
  | .write id _ _ | .rollBack id _ => some id
  | .refresh | .publish _ | .finish => none

/-- A toggle is dispatched with no list still to be published and no toggle of its item outstanding,
to the state its row does not show; a refresh goes to the lane of every write still to come. -/
def Apart [DecidableEq ι] (s : StartupPage ι) : Action ι → Prop
  | .refresh aged lane =>
    ((s.cache.isNone || aged) && !s.fetchBusy) = true → ∀ l ∈ lane,
      ∀ job ∈ s.jobs, job.task.unwritten = true → job.lane = l
  | .toggle id enable lane =>
    ∀ row ∈ s.cache.bind (find? · id), lane.isSome = true →
      row.enabled ≠ enable ∧
        ∀ job ∈ s.jobs, job.task.unpublished = false ∧ job.task.item ≠ some id
  | .clear | .job .. => True

instance [DecidableEq ι] (s : StartupPage ι) : ∀ a, Decidable (s.Apart a)
  | .refresh aged lane =>
    inferInstanceAs (Decidable (((s.cache.isNone || aged) && !s.fetchBusy) = true → ∀ l ∈ lane,
      ∀ job ∈ s.jobs, job.task.unwritten = true → job.lane = l))
  | .toggle id enable lane =>
    inferInstanceAs (Decidable (∀ row ∈ s.cache.bind (find? · id), lane.isSome = true →
      row.enabled ≠ enable ∧
        ∀ job ∈ s.jobs, job.task.unpublished = false ∧ job.task.item ≠ some id))
  | .clear | .job .. => inferInstanceAs (Decidable True)

/-! ### The row of an item -/

section SetEnabled

variable [DecidableEq ι] {rows : List (Row ι)} {row : Row ι} {id : ι} {enabled : Bool}

@[simp] theorem map_id_setEnabled (id : ι) (enabled : Bool) (rows : List (Row ι)) :
    (setEnabled id enabled rows).map Row.id = rows.map Row.id := by
  induction rows with
  | nil => rfl
  | cons r rows ih =>
    unfold setEnabled
    split
    · rfl
    · rw [List.map_cons, List.map_cons, ih]

/-- A row of another item is left alone. -/
theorem mem_of_mem_setEnabled (h : row ∈ setEnabled id enabled rows) (hid : row.id ≠ id) :
    row ∈ rows := by
  induction rows with
  | nil => cases h
  | cons r rows ih =>
    unfold setEnabled at h
    split at h
    · rename_i hr
      rcases List.mem_cons.mp h with rfl | hmem
      · exact absurd hr hid
      · exact List.mem_cons_of_mem r hmem
    · rcases List.mem_cons.mp h with rfl | hmem
      · exact List.mem_cons_self
      · exact List.mem_cons_of_mem r (ih hmem)

/-- The row of the item shows what was set. -/
theorem enabled_of_mem_setEnabled (hnodup : (rows.map Row.id).Nodup)
    (h : row ∈ setEnabled id enabled rows) (hid : row.id = id) : row.enabled = enabled := by
  induction rows with
  | nil => cases h
  | cons r rows ih =>
    rw [List.map_cons, List.nodup_cons] at hnodup
    unfold setEnabled at h
    split at h
    · rename_i hr
      rcases List.mem_cons.mp h with rfl | hmem
      · rfl
      · -- no other row has the id
        have hmem' : row.id ∈ rows.map Row.id := List.mem_map_of_mem hmem
        rw [hid, ← hr] at hmem'
        exact absurd hmem' hnodup.1
    · rename_i hr
      rcases List.mem_cons.mp h with rfl | hmem
      · exact absurd hid hr
      · exact ih hnodup.2 hmem

end SetEnabled

/-! ### What holds while no toggle meets another job -/

/-- What holds between a job and a later one. -/
structure Job.Keeps (earlier later : Job ι) : Prop where
  /-- No write was dispatched with a list still to be published. -/
  published : later.task.unwritten = true → earlier.task.unpublished = false
  /-- A write before a refresh is in its lane. -/
  ahead : later.task.unpublished = true → earlier.task.unwritten = true → earlier.lane = later.lane
  /-- A refresh that has read is the first of its lane. -/
  first : ∀ rows, later.task = .publish rows → earlier.lane ≠ later.lane
  /-- An item has one toggle at a time. -/
  single : ∀ id, earlier.task.item = some id → later.task.item ≠ some id

/-- What holds between any two steps. -/
structure Inv (s : StartupPage ι) : Prop where
  jobs : s.jobs.Pairwise Job.Keeps
  distinct : ∀ rows ∈ s.cache, (rows.map Row.id).Nodup
  /-- A list that was read is still right. -/
  publish : ∀ job ∈ s.jobs, ∀ rows, job.task = .publish rows →
    (rows.map Row.id).Nodup ∧ ∀ row ∈ rows, row.enabled = s.system row.id
  /-- A row whose write is still to come shows what will be written. -/
  write : ∀ job ∈ s.jobs, ∀ id enabled before, job.task = .write id enabled before →
    s.system id = before ∧ before = !enabled ∧ s.failedFrom id = none ∧
      ∀ rows ∈ s.cache, ∀ row ∈ rows, row.id = id → row.enabled = enabled
  rollBack : ∀ job ∈ s.jobs, ∀ id enabled, job.task = .rollBack id enabled →
    s.system id = !enabled
  failed : ∀ id, ∀ before ∈ s.failedFrom id, s.system id = before
  /-- A row without a toggle shows what the system has. -/
  settled : ∀ rows ∈ s.cache, ∀ row ∈ rows,
    (∀ job ∈ s.jobs, job.task.item ≠ some row.id) → row.enabled = s.system row.id

theorem Inv.start (system : ι → Bool) : Inv ({ system } : StartupPage ι) := by
  constructor <;> simp

theorem Inv.agrees {s : StartupPage ι} (h : s.Inv) : s.Agrees := by
  intro hjobs rows hrows row hrow
  have henabled : row.enabled = s.system row.id := h.settled rows hrows row hrow (by simp [hjobs])
  exact ⟨henabled, fun before hbefore => henabled.trans (h.failed row.id before hbefore)⟩

section Step

variable {s s' : StartupPage ι}

/-- A refresh is dispatched. -/
theorem Inv.dispatchRefresh (h : s.Inv) (lane : Fin 2)
    (hlane : ∀ job ∈ s.jobs, job.task.unwritten = true → job.lane = lane) :
    Inv { s with fetchBusy := true, jobs := s.jobs ++ [⟨lane, .refresh⟩] } := by
  have hjob : ∀ {P : Job ι → Prop}, (∀ job ∈ s.jobs, P job) → P ⟨lane, .refresh⟩ →
      ∀ job ∈ s.jobs ++ [⟨lane, .refresh⟩], P job := by
    intro P hold hnew job hmem
    rcases List.mem_append.mp hmem with hmem | hmem
    · exact hold job hmem
    · rwa [List.mem_singleton.mp hmem]
  refine ⟨?_, h.distinct, hjob h.publish nofun, hjob h.write nofun, hjob h.rollBack nofun, h.failed,
    fun rows hrows row hrow hfree => ?_⟩
  · refine List.pairwise_append.mpr ⟨h.jobs, List.pairwise_singleton _ _, ?_⟩
    intro earlier he later hl
    obtain rfl := List.mem_singleton.mp hl
    exact ⟨nofun, fun _ hunwritten => hlane earlier he hunwritten, nofun, nofun⟩
  · exact h.settled rows hrows row hrow fun job hmem => hfree job (List.mem_append_left _ hmem)

/-- A toggle is dispatched, and its row flipped. -/
theorem Inv.dispatchToggle [DecidableEq ι] (h : s.Inv) {rows : List (Row ι)} {row : Row ι} {id : ι}
    {enable : Bool} {lane : Fin 2} (hcache : s.cache = some rows) (hrow : find? rows id = some row)
    (henable : row.enabled ≠ enable)
    (hjobs : ∀ job ∈ s.jobs, job.task.unpublished = false ∧ job.task.item ≠ some id) :
    Inv { s with
      cache := some (setEnabled id enable rows)
      jobs := s.jobs ++ [⟨lane, .write id enable row.enabled⟩]
      failedFrom := Function.update s.failedFrom id none } := by
  have hid : row.id = id := by simpa using List.find?_some hrow
  have hmem : row ∈ rows := List.mem_of_find?_eq_some hrow
  have hdistinct := h.distinct rows hcache
  -- no job touches the item, so the row shows the state of the system
  have hsystem : s.system id = row.enabled := by
    rw [← hid]
    exact (h.settled rows hcache row hmem fun job hj => hid ▸ (hjobs job hj).2).symm
  have hother : ∀ job ∈ s.jobs, ∀ id', job.task.item = some id' → id' ≠ id := by
    rintro job hj id' hitem rfl
    exact (hjobs job hj).2 hitem
  constructor
  · refine List.pairwise_append.mpr ⟨h.jobs, List.pairwise_singleton _ _, ?_⟩
    intro earlier he later hl
    obtain rfl := List.mem_singleton.mp hl
    refine ⟨fun _ => (hjobs earlier he).1, nofun, nofun, fun id' hitem => ?_⟩
    exact fun heq => hother earlier he id' hitem (Option.some.inj heq).symm
  · intro rows' hrows'
    cases hrows'
    rwa [map_id_setEnabled]
  · intro job hj rows' htask
    rcases List.mem_append.mp hj with hj | hj
    · exact h.publish job hj rows' htask
    · rw [List.mem_singleton.mp hj] at htask
      cases htask
  · intro job hj id' enabled before htask
    rcases List.mem_append.mp hj with hj | hj
    · have hne : id' ≠ id := hother job hj id' (by simp [htask, Task.item])
      obtain ⟨hsys, hbefore, hfailed, hrows⟩ := h.write job hj id' enabled before htask
      refine ⟨hsys, hbefore, (Function.update_of_ne hne _ _).trans hfailed, ?_⟩
      intro rows' hrows' row' hrow' hid'
      cases hrows'
      exact hrows rows hcache row' (mem_of_mem_setEnabled hrow' (hid' ▸ hne)) hid'
    · rw [List.mem_singleton.mp hj] at htask
      cases htask
      refine ⟨hsystem, Bool.eq_not.mpr henable, Function.update_self .., ?_⟩
      intro rows' hrows' row' hrow' hid'
      cases hrows'
      exact enabled_of_mem_setEnabled hdistinct hrow' hid'
  · intro job hj id' enabled htask
    rcases List.mem_append.mp hj with hj | hj
    · exact h.rollBack job hj id' enabled htask
    · rw [List.mem_singleton.mp hj] at htask
      cases htask
  · intro id' before hbefore
    -- the toggle forgets an earlier failure of this item
    by_cases hid' : id' = id
    · subst hid'
      simp at hbefore
    · simp only [Option.mem_def, Function.update_of_ne hid'] at hbefore
      exact h.failed id' before hbefore
  · intro rows' hrows' row' hrow' hfree
    cases hrows'
    have hne : row'.id ≠ id := fun hid' =>
      hfree ⟨lane, .write id enable row.enabled⟩ (by simp) (by rw [hid']; rfl)
    exact h.settled rows hcache row' (mem_of_mem_setEnabled hrow' hne) fun job hj =>
      hfree job (List.mem_append_left _ hj)

/-- The job at a place is another one. -/
theorem pairwise_replace {α : Type*} {R : α → α → Prop} {pre post : List α} {job new : α}
    (h : (pre ++ job :: post).Pairwise R) (hpre : ∀ other ∈ pre, R other job → R other new)
    (hpost : ∀ other ∈ post, R job other → R new other) : (pre ++ new :: post).Pairwise R := by
  rw [List.pairwise_append, List.pairwise_cons] at h ⊢
  obtain ⟨hbefore, ⟨hjob, hafter⟩, hacross⟩ := h
  refine ⟨hbefore, ⟨fun other ho => hpost other ho (hjob other ho), hafter⟩, ?_⟩
  intro earlier he later hl
  rcases List.mem_cons.mp hl with rfl | hl
  · exact hpre earlier he (hacross earlier he job List.mem_cons_self)
  · exact hacross earlier he later (List.mem_cons_of_mem job hl)

theorem keeps_of_pairwise {pre post : List (Job ι)} {job : Job ι}
    (h : (pre ++ job :: post).Pairwise Job.Keeps) {other : Job ι} (hmem : other ∈ pre ++ post) :
    (other ∈ pre ∧ other.Keeps job) ∨ job.Keeps other := by
  rw [List.pairwise_append, List.pairwise_cons] at h
  rcases List.mem_append.mp hmem with hmem | hmem
  · exact Or.inl ⟨hmem, h.2.2 other hmem job List.mem_cons_self⟩
  · exact Or.inr (h.2.1.1 other hmem)

theorem item_ne_of_pairwise {pre post : List (Job ι)} {job : Job ι}
    (h : (pre ++ job :: post).Pairwise Job.Keeps) {id : ι} (hitem : job.task.item = some id)
    {other : Job ι} (hmem : other ∈ pre ++ post) : other.task.item ≠ some id := by
  rcases keeps_of_pairwise h hmem with ⟨-, hkeeps⟩ | hkeeps
  · exact fun hother => hkeeps.single id hother hitem
  · exact hkeeps.single id hitem

/-- A list that was read does not meet a write still to come. -/
theorem not_unwritten_of_publish {pre post : List (Job ι)} {job : Job ι}
    (h : (pre ++ job :: post).Pairwise Job.Keeps) {rows : List (Row ι)}
    (hjob : job.task = .publish rows) {other : Job ι} (hmem : other ∈ pre ++ post) :
    other.task.unwritten = false := by
  have hunpublished : job.task.unpublished = true := by rw [hjob]; rfl
  rw [← Bool.not_eq_true]
  intro hunwritten
  rcases keeps_of_pairwise h hmem with ⟨-, hkeeps⟩ | hkeeps
  · exact hkeeps.first rows hjob (hkeeps.ahead hunpublished hunwritten)
  · rw [hkeeps.published hunwritten] at hunpublished
    cases hunpublished

theorem ne_publish_of_write {pre post : List (Job ι)} {job : Job ι}
    (h : (pre ++ job :: post).Pairwise Job.Keeps) (hjob : job.task.unwritten = true)
    {other : Job ι} (hmem : other ∈ pre ++ post) {rows : List (Row ι)} :
    other.task ≠ .publish rows := by
  intro hother
  have hunpublished : other.task.unpublished = true := by rw [hother]; rfl
  rcases keeps_of_pairwise h hmem with ⟨-, hkeeps⟩ | hkeeps
  · rw [hkeeps.published hjob] at hunpublished
    cases hunpublished
  · exact hkeeps.first rows hother (hkeeps.ahead hunpublished hjob)

section Jobs

variable {pre post : List (Job ι)} {lane : Fin 2}

theorem mem_of_mem_others {job other : Job ι} (h : other ∈ pre ++ post) :
    other ∈ pre ++ job :: post := by
  rcases List.mem_append.mp h with h | h
  · exact List.mem_append_left _ h
  · exact List.mem_append_right _ (List.mem_cons_of_mem job h)

theorem mem_replace {new other : Job ι} (h : other ∈ pre ++ new :: post) :
    other = new ∨ other ∈ pre ++ post := by
  rcases List.mem_append.mp h with h | h
  · exact Or.inr (List.mem_append_left _ h)
  · exact (List.mem_cons.mp h).imp_right (List.mem_append_right _)

theorem pairwise_remove {job : Job ι} (h : (pre ++ job :: post).Pairwise Job.Keeps) :
    (pre ++ post).Pairwise Job.Keeps :=
  h.sublist ((List.sublist_cons_self job post).append_left pre)

/-- A refresh reads the system. -/
theorem Inv.runRefresh (h : s.Inv) (hjobs : s.jobs = pre ++ ⟨lane, .refresh⟩ :: post)
    (hfirst : ∀ other ∈ pre, other.lane ≠ lane) {ids : List ι} (hids : ids.Nodup) :
    Inv { s with
      jobs := pre ++ ⟨lane, .publish (ids.map fun id => ⟨id, s.system id⟩)⟩ :: post } := by
  have hpairwise := h.jobs
  have hold : ∀ {other}, other ∈ pre ++ post → other ∈ s.jobs := fun hmem =>
    hjobs ▸ mem_of_mem_others hmem
  rw [hjobs] at hpairwise
  constructor
  · refine pairwise_replace hpairwise (fun other hother hkeeps => ?_) fun other _ hkeeps => ?_
    · exact ⟨nofun, hkeeps.ahead, fun _ _ => hfirst other hother, fun _ _ => nofun⟩
    · exact ⟨hkeeps.published, fun _ => nofun, hkeeps.first, nofun⟩
  · exact h.distinct
  · intro job hj rows htask
    rcases mem_replace hj with rfl | hj
    · cases htask
      refine ⟨by simpa [Function.comp_def] using hids, fun row hrow => ?_⟩
      obtain ⟨id, -, rfl⟩ := List.mem_map.mp hrow
      rfl
    · exact h.publish job (hold hj) rows htask
  · intro job hj id enabled before htask
    rcases mem_replace hj with rfl | hj
    · cases htask
    · exact h.write job (hold hj) id enabled before htask
  · intro job hj id enabled htask
    rcases mem_replace hj with rfl | hj
    · cases htask
    · exact h.rollBack job (hold hj) id enabled htask
  · exact h.failed
  · intro rows hrows row hrow hfree
    refine h.settled rows hrows row hrow fun job hj => ?_
    rw [hjobs] at hj
    rcases mem_replace hj with rfl | hj
    · nofun
    · exact hfree job (mem_of_mem_others hj)

/-- A refresh publishes what it read. -/
theorem Inv.runPublish (h : s.Inv) {rows : List (Row ι)}
    (hjobs : s.jobs = pre ++ ⟨lane, .publish rows⟩ :: post) :
    Inv { s with cache := some rows, jobs := pre ++ ⟨lane, .finish⟩ :: post } := by
  have hpairwise := h.jobs
  have hold : ∀ {other}, other ∈ pre ++ post → other ∈ s.jobs := fun hmem =>
    hjobs ▸ mem_of_mem_others hmem
  rw [hjobs] at hpairwise
  obtain ⟨hnodup, hright⟩ := h.publish ⟨lane, .publish rows⟩ (by simp [hjobs]) rows rfl
  constructor
  · refine pairwise_replace hpairwise (fun other _ hkeeps => ?_) fun other _ hkeeps => ?_
    · exact ⟨nofun, nofun, nofun, fun _ _ => nofun⟩
    · exact ⟨fun _ => rfl, fun _ => nofun, hkeeps.first, nofun⟩
  · intro rows' hrows'
    cases hrows'
    exact hnodup
  · intro job hj rows' htask
    rcases mem_replace hj with rfl | hj
    · cases htask
    · exact h.publish job (hold hj) rows' htask
  · intro job hj id enabled before htask
    rcases mem_replace hj with rfl | hj
    · cases htask
    · have hunwritten := not_unwritten_of_publish hpairwise rfl hj
      rw [htask] at hunwritten
      cases hunwritten
  · intro job hj id enabled htask
    rcases mem_replace hj with rfl | hj
    · cases htask
    · exact h.rollBack job (hold hj) id enabled htask
  · exact h.failed
  · intro rows' hrows' row hrow _
    cases hrows'
    exact hright row hrow

/-- A refresh is done. -/
theorem Inv.runFinish (h : s.Inv) (hjobs : s.jobs = pre ++ ⟨lane, .finish⟩ :: post) :
    Inv { s with fetchBusy := false, jobs := pre ++ post } := by
  have hpairwise := h.jobs
  have hold : ∀ {other}, other ∈ pre ++ post → other ∈ s.jobs := fun hmem =>
    hjobs ▸ mem_of_mem_others hmem
  rw [hjobs] at hpairwise
  refine ⟨pairwise_remove hpairwise, h.distinct, fun job hj => h.publish job (hold hj),
    fun job hj => h.write job (hold hj), fun job hj => h.rollBack job (hold hj), h.failed, ?_⟩
  intro rows hrows row hrow hfree
  refine h.settled rows hrows row hrow fun job hj => ?_
  rw [hjobs] at hj
  rcases mem_replace hj with rfl | hj
  · nofun
  · exact hfree job hj

section Toggle

variable [DecidableEq ι] {id : ι} {enabled before : Bool}

/-- A write succeeds. -/
theorem Inv.runWrite (h : s.Inv)
    (hjobs : s.jobs = pre ++ ⟨lane, .write id enabled before⟩ :: post) :
    Inv { s with system := Function.update s.system id enabled, jobs := pre ++ post } := by
  have hpairwise := h.jobs
  have hold : ∀ {other}, other ∈ pre ++ post → other ∈ s.jobs := fun hmem =>
    hjobs ▸ mem_of_mem_others hmem
  rw [hjobs] at hpairwise
  have hother : ∀ job ∈ pre ++ post, ∀ id', job.task.item = some id' → id' ≠ id := by
    rintro job hj id' hitem rfl
    exact item_ne_of_pairwise hpairwise rfl hj hitem
  obtain ⟨-, -, hfailed, hshown⟩ :=
    h.write ⟨lane, .write id enabled before⟩ (by simp [hjobs]) id enabled before rfl
  constructor
  · exact pairwise_remove hpairwise
  · exact h.distinct
  · intro job hj rows htask
    exact absurd htask (ne_publish_of_write hpairwise rfl hj)
  · intro job hj id' enabled' before' htask
    have hne := hother job hj id' (by simp [htask, Task.item])
    simp only [Function.update_of_ne hne]
    exact h.write job (hold hj) id' enabled' before' htask
  · intro job hj id' enabled' htask
    have hne := hother job hj id' (by simp [htask, Task.item])
    simp only [Function.update_of_ne hne]
    exact h.rollBack job (hold hj) id' enabled' htask
  · intro id' before' hbefore
    have hne : id' ≠ id := by
      rintro rfl
      rw [hfailed] at hbefore
      cases hbefore
    simp only [Function.update_of_ne hne]
    exact h.failed id' before' hbefore
  · intro rows hrows row hrow hfree
    by_cases hid : row.id = id
    · simp only [hid, Function.update_self]
      exact hshown rows hrows row hrow hid
    · simp only [Function.update_of_ne hid]
      refine h.settled rows hrows row hrow fun job hj => ?_
      rw [hjobs] at hj
      rcases mem_replace hj with rfl | hj
      · exact fun hitem => hid (Option.some.inj hitem).symm
      · exact hfree job hj

/-- A write fails. -/
theorem Inv.runFail (h : s.Inv) (hjobs : s.jobs = pre ++ ⟨lane, .write id enabled before⟩ :: post) :
    Inv { s with
      failedFrom := Function.update s.failedFrom id (some before)
      jobs := pre ++ ⟨lane, .rollBack id enabled⟩ :: post } := by
  have hpairwise := h.jobs
  have hold : ∀ {other}, other ∈ pre ++ post → other ∈ s.jobs := fun hmem =>
    hjobs ▸ mem_of_mem_others hmem
  rw [hjobs] at hpairwise
  have hother : ∀ job ∈ pre ++ post, ∀ id', job.task.item = some id' → id' ≠ id := by
    rintro job hj id' hitem rfl
    exact item_ne_of_pairwise hpairwise rfl hj hitem
  obtain ⟨hsystem, hbefore, -, -⟩ :=
    h.write ⟨lane, .write id enabled before⟩ (by simp [hjobs]) id enabled before rfl
  constructor
  · refine pairwise_replace hpairwise (fun other _ hkeeps => ?_) fun other _ hkeeps => ?_
    · exact ⟨nofun, nofun, nofun, hkeeps.single⟩
    · exact ⟨fun _ => rfl, fun _ => nofun, hkeeps.first, hkeeps.single⟩
  · exact h.distinct
  · intro job hj rows htask
    rcases mem_replace hj with rfl | hj
    · cases htask
    · exact h.publish job (hold hj) rows htask
  · intro job hj id' enabled' before' htask
    rcases mem_replace hj with rfl | hj
    · cases htask
    · have hne := hother job hj id' (by simp [htask, Task.item])
      simp only [Function.update_of_ne hne]
      exact h.write job (hold hj) id' enabled' before' htask
  · intro job hj id' enabled' htask
    rcases mem_replace hj with rfl | hj
    · cases htask
      exact hsystem.trans hbefore
    · exact h.rollBack job (hold hj) id' enabled' htask
  · intro id' before' hfrom
    by_cases hid : id' = id
    · subst hid
      simp only [Function.update_self, Option.mem_def, Option.some.injEq] at hfrom
      exact hsystem.trans hfrom
    · simp only [Function.update_of_ne hid] at hfrom
      exact h.failed id' before' hfrom
  · intro rows hrows row hrow hfree
    refine h.settled rows hrows row hrow fun job hj => ?_
    rw [hjobs] at hj
    rcases mem_replace hj with rfl | hj
    · exact hfree ⟨lane, .rollBack id enabled⟩ (by simp)
    · exact hfree job (mem_of_mem_others hj)

/-- A write that failed is rolled back. -/
theorem Inv.runRollBack (h : s.Inv)
    (hjobs : s.jobs = pre ++ ⟨lane, .rollBack id enabled⟩ :: post) :
    Inv { s with cache := s.cache.map (setEnabled id !enabled), jobs := pre ++ post } := by
  have hpairwise := h.jobs
  have hold : ∀ {other}, other ∈ pre ++ post → other ∈ s.jobs := fun hmem =>
    hjobs ▸ mem_of_mem_others hmem
  rw [hjobs] at hpairwise
  have hother : ∀ job ∈ pre ++ post, ∀ id', job.task.item = some id' → id' ≠ id := by
    rintro job hj id' hitem rfl
    exact item_ne_of_pairwise hpairwise rfl hj hitem
  have hsystem := h.rollBack ⟨lane, .rollBack id enabled⟩ (by simp [hjobs]) id enabled rfl
  constructor
  · exact pairwise_remove hpairwise
  · intro rows' hrows'
    obtain ⟨rows, hrows, rfl⟩ := Option.map_eq_some_iff.mp hrows'
    rw [map_id_setEnabled]
    exact h.distinct rows hrows
  · exact fun job hj => h.publish job (hold hj)
  · intro job hj id' enabled' before' htask
    have hne := hother job hj id' (by simp [htask, Task.item])
    obtain ⟨hsys, hbefore, hfailed, hrows⟩ := h.write job (hold hj) id' enabled' before' htask
    refine ⟨hsys, hbefore, hfailed, fun rows' hrows' row hrow hid => ?_⟩
    obtain ⟨rows, hcache, rfl⟩ := Option.map_eq_some_iff.mp hrows'
    exact hrows rows hcache row (mem_of_mem_setEnabled hrow (hid ▸ hne)) hid
  · exact fun job hj => h.rollBack job (hold hj)
  · exact h.failed
  · intro rows' hrows' row hrow hfree
    obtain ⟨rows, hcache, rfl⟩ := Option.map_eq_some_iff.mp hrows'
    by_cases hid : row.id = id
    · rw [enabled_of_mem_setEnabled (h.distinct rows hcache) hrow hid, hid, hsystem]
    · refine h.settled rows hcache row (mem_of_mem_setEnabled hrow hid) fun job hj => ?_
      rw [hjobs] at hj
      rcases mem_replace hj with rfl | hj
      · exact fun hitem => hid (Option.some.inj hitem).symm
      · exact hfree job hj

end Toggle

end Jobs

/-- **A step that lets no toggle meet another job keeps the invariant.** -/
theorem Inv.step [DecidableEq ι] (h : s.Inv) {a : Action ι} (hapart : s.Apart a)
    (hstep : StartupPage.step s a = some s') : s'.Inv := by
  cases a with
  | refresh aged lane =>
    cases Option.some.inj hstep
    split
    · rename_i hstale
      cases lane with
      | none => exact h
      | some lane => exact h.dispatchRefresh lane (hapart hstale lane rfl)
    · exact h
  | clear =>
    cases Option.some.inj hstep
    refine ⟨h.jobs, nofun, h.publish, fun job hj id enabled before htask => ?_, h.rollBack,
      h.failed, nofun⟩
    obtain ⟨hsys, hbefore, hfailed, -⟩ := h.write job hj id enabled before htask
    exact ⟨hsys, hbefore, hfailed, nofun⟩
  | toggle id enable lane =>
    cases Option.some.inj hstep
    split
    · rename_i lane row hrow
      obtain ⟨rows, hcache, hrow'⟩ := Option.bind_eq_some_iff.mp hrow
      obtain ⟨henable, hjobs⟩ := hapart row hrow rfl
      rw [hcache]
      exact h.dispatchToggle hcache hrow' henable hjobs
    · exact h
  | job index ids ok =>
    have hsplit : s.jobs.take index ++ s.jobs.drop index = s.jobs := List.take_append_drop ..
    simp only [StartupPage.step] at hstep
    cases hdrop : s.jobs.drop index with
    | nil => simp [hdrop] at hstep
    | cons job post =>
      obtain ⟨lane, task⟩ := job
      simp only [hdrop, Option.ite_none_right_eq_some, Option.some.injEq] at hstep
      obtain ⟨⟨hfirst, hids⟩, rfl⟩ := hstep
      have hjobs : s.jobs = s.jobs.take index ++ ⟨lane, task⟩ :: post := by rw [← hdrop, hsplit]
      cases task with
      | refresh => simpa [Task.run] using h.runRefresh hjobs hfirst hids
      | publish rows => simpa [Task.run] using h.runPublish hjobs
      | finish => simpa [Task.run] using h.runFinish hjobs
      | write id enabled before =>
        cases ok with
        | true => simpa [Task.run] using h.runWrite hjobs
        | false => simpa [Task.run] using h.runFail hjobs
      | rollBack id enabled => simpa [Task.run] using h.runRollBack hjobs

end Step

/-- **As long as no toggle meets another job, the table agrees with the machine whenever no job is
outstanding.** -/
theorem agrees_of_apart [DecidableEq ι] {system : ι → Bool} {as : List (Action ι)}
    {s : StartupPage ι} (hrun : Machine.exec step { system } as = some s)
    (hapart : Machine.Along step Apart { system } as) : s.Agrees :=
  have hinv : s.Inv := Machine.invariant_of_along (fun _ _ _ h ha hstep => h.step ha hstep)
    (Inv.start system) hapart hrun
  hinv.agrees

/-! ### Two toggles on two lanes -/

/-- The list is read; its item is disabled and enabled again, one toggle after the other. -/
def toggledInTurn : List (Action ℕ) :=
  [.refresh false (some 0), .job 0 [1] true, .job 0 [] true, .job 0 [] true,
    .toggle 1 false (some 1), .job 0 [] true, .toggle 1 true (some 0), .job 0 [] false,
    .job 0 [] true]

theorem agrees_of_apart_inTurn :
    ∃ s, Machine.exec step { system := fun _ => true } toggledInTurn = some s ∧
      s.jobs = [] ∧ s.cache = some [⟨1, false⟩] ∧ s.failedFrom 1 = some false ∧ s.Agrees := by
  let s : StartupPage ℕ :=
    { system := Function.update (fun _ => true) 1 false
      cache := some [⟨1, false⟩]
      failedFrom := Function.update
        (Function.update (Function.update (fun _ => none) 1 none) 1 none) 1 (some false) }
  have hrun : Machine.exec step { system := fun _ => true } toggledInTurn = some s := rfl
  exact ⟨s, hrun, rfl, rfl, rfl, agrees_of_apart hrun (by decide +kernel)⟩

/-- Both toggles are dispatched at once; the second write comes first. -/
def toggledAtOnce : List (Action ℕ) :=
  [.refresh false (some 0), .job 0 [1] true, .job 0 [] true, .job 0 [] true,
    .toggle 1 false (some 0), .toggle 1 true (some 1), .job 1 [] true, .job 0 [] true]

/-- The item is then disabled and shown as enabled. -/
theorem not_agrees_atOnce :
    ∃ s, Machine.exec step { system := fun _ => true } toggledAtOnce = some s ∧ ¬ s.Agrees := by
  refine ⟨_, rfl, fun h => ?_⟩
  have hrow := (h rfl [⟨1, true⟩] rfl ⟨1, true⟩ (by decide)).1
  exact absurd hrow (by decide +kernel)

end StartupPage

end Taskman
