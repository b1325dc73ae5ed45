import Taskman.Core.AppHistory
import Taskman.LTS.Machine

/-!
# The deferred load as a system

The database, the loader thread and the file saved by an earlier run, under any interleaving of
the operations of the application with the steps of the loader.  Next to the state of the code the
system remembers what has become of the saved history (`SavedHistory`) and every save handed to the
writer, so that the safety property is a property of one state.

* `LoadSystem.step` : one operation, or one step of the loader;
* `LoadSystem.Safe` : **the invariant**: a history that only the file holds is still expected by a
  database that does not save;
* `history_not_lost` : no save is handed to the writer while the file is unread, in every run in
  which the loader does not fail silently; and what was there before a `clear` never returns.
-/

namespace Taskman

/-- What has become of the history that was on disk at the start. -/
inductive SavedHistory where
  /-- There was none. -/
  | absent
  /-- Nowhere but in the file. -/
  | unread
  | merged
  /-- Wiped by `clear`. -/
  | discarded
  /-- Kept under another name. -/
  | aside
  deriving DecidableEq

/-- The loader thread and its channel. -/
inductive Loader where
  | reading
  | sent (text : Option Text)
  /-- Nothing will arrive any more. -/
  | gone
  deriving DecidableEq

/-- A save handed to the writer. -/
structure HandedSave where
  generation : ℕ
  snapshot : DbFile
  /-- What had become of the saved history by then. -/
  saved : SavedHistory

/-- The history, the thread that loads it and what is on disk. -/
structure LoadSystem where
  db : AppHistoryDb
  loader : Loader
  saved : SavedHistory
  handed : List HandedSave := []

/-- What can happen next; `renameOk` says whether setting the file aside would succeed. -/
inductive LoadAction where
  | observe (snap : Snapshot) (interval : ℚ)
  | pollLoad (timedOut renameOk : Bool)
  | saveAsync
  | save
  | clear (now : ℤ)
  | loaderArrives (renameOk : Bool)
  | loaderDies

/-- The saves among the effects of an operation. -/
def savesOf (saved : SavedHistory) (effects : List HistoryEffect) : List HandedSave :=
  effects.filterMap fun
    | .save generation snapshot => some ⟨generation, snapshot, saved⟩
    | _ => none

namespace LoadSystem

/-- After the deferred open. -/
def start (path : Text) (now : ℤ) (writerSpawned loaderSpawned : Bool) (file : StoredFile) :
    LoadSystem where
  db := AppHistoryDb.openDeferred path now writerSpawned loaderSpawned
  loader := if loaderSpawned then .reading else .gone
  saved := match file with
    | .missing => .absent
    | _ => .unread

/-- The file was set aside, if the rename works and there is something to keep. -/
def setAside (s : LoadSystem) (renameOk : Bool) : SavedHistory :=
  if renameOk && s.saved = .unread then .aside else s.saved

/-- What `try_recv` finds. -/
def poll (s : LoadSystem) : LoadPoll :=
  match s.loader with
  | .reading => .empty
  | .sent text => .received text
  | .gone => .disconnected

/-- What has become of the saved history after the database took a message from the loader. -/
def savedAfterPoll (host : HistoryHost) (s : LoadSystem) (renameOk : Bool) : SavedHistory :=
  match s.db.path, s.loader with
  | some _, .sent (some text) =>
    match host.parseDb text with
    | some _ => .merged
    | none => s.setAside renameOk
  | _, _ => s.saved

/-- One operation of the application, or one step of the loader thread. -/
def step (host : HistoryHost) (file : StoredFile) (s : LoadSystem) :
    LoadAction → Option LoadSystem
  | .observe snap interval => some { s with db := s.db.observe host snap interval }
  | .pollLoad timedOut renameOk =>
    let (db, effects, _) := s.db.pollLoad host timedOut s.poll
    let polled := s.db.loading && s.db.loadRx
    let saved := if polled then s.savedAfterPoll host renameOk else s.saved
    let loader := if polled && s.loader ≠ .reading then .gone else s.loader
    some ⟨db, loader, saved, savesOf saved effects ++ s.handed⟩
  | .saveAsync =>
    let (db, effects) := s.db.saveAsync
    some { s with db := db, handed := savesOf s.saved effects ++ s.handed }
  | .save =>
    let (db, effects) := s.db.save
    some { s with db := db, handed := savesOf s.saved effects ++ s.handed }
  | .clear now =>
    let (db, effects) := s.db.clear now
    some { s with
      db := db
      saved := .discarded
      handed := savesOf .discarded effects ++ s.handed }
  | .loaderArrives renameOk =>
    if s.loader = .reading then
      let (text, effects) := readDbText file
      some { s with
        loader := .sent text
        saved := if effects.isEmpty then s.saved else s.setAside renameOk }
    else none
  | .loaderDies => if s.loader = .reading then some { s with loader := .gone } else none

/-- The loader does not die, and a file it cannot use is kept aside, while the file is the only
place of the saved history. -/
def LoaderKeeps (s : LoadSystem) : LoadAction → Prop
  | .loaderDies => s.saved ≠ .unread
  | .loaderArrives renameOk => renameOk = true ∨ s.saved ≠ .unread
  | .pollLoad _ renameOk => renameOk = true ∨ s.saved ≠ .unread
  | _ => True

/-! ### The invariant -/

/-- A history that only the file holds is expected by a database that is still loading. -/
structure Safe (file : StoredFile) (s : LoadSystem) : Prop where
  handed : ∀ save ∈ s.handed, save.saved ≠ .unread
  waiting : s.saved = .unread → s.db.loading = true ∧ s.db.loadRx = true ∧ s.db.path.isSome = true
  coming : s.saved = .unread → s.loader = .reading ∨ ∃ text, s.loader = .sent (some text)
  present : s.saved = .unread → file ≠ .missing

variable {host : HistoryHost} {file : StoredFile}

theorem safe_start {path : Text} {now : ℤ} {writerSpawned loaderSpawned : Bool}
    (h : loaderSpawned = true ∨ file = .missing) :
    Safe file (start path now writerSpawned loaderSpawned file) := by
  rcases h with rfl | rfl
  · refine ⟨by simp [start], fun _ => ⟨rfl, rfl, rfl⟩, fun _ => Or.inl rfl, ?_⟩
    rintro h rfl
    cases h
  · constructor <;> simp [start]

theorem enqueueSave_of_loading {db : AppHistoryDb} (h : db.loading = true) :
    db.enqueueSave = ({ db with saveAfterLoad := true }, []) := by
  simp [AppHistoryDb.enqueueSave, h]

theorem save_of_loading {db : AppHistoryDb} (h : db.loading = true) :
    db.save = ({ db with saveAfterLoad := true }, []) := by
  simp [AppHistoryDb.save, enqueueSave_of_loading h, h]

theorem savesOf_saved {saved : SavedHistory} {effects : List HistoryEffect} {save : HandedSave}
    (h : save ∈ savesOf saved effects) : save.saved = saved := by
  simp only [savesOf, List.mem_filterMap] at h
  obtain ⟨e, -, he⟩ := h
  cases e <;> simp at he
  rw [← he]

theorem Safe.of_saved_ne {s : LoadSystem} (h : ∀ save ∈ s.handed, save.saved ≠ .unread)
    (hs : s.saved ≠ .unread) : Safe file s :=
  ⟨h, fun hu => absurd hu hs, fun hu => absurd hu hs, fun hu => absurd hu hs⟩

theorem handed_append {saved : SavedHistory} {effects : List HistoryEffect}
    {handed : List HandedSave} (hs : saved ≠ .unread)
    (h : ∀ save ∈ handed, save.saved ≠ .unread) :
    ∀ save ∈ savesOf saved effects ++ handed, save.saved ≠ .unread := by
  intro save hsave
  rcases List.mem_append.mp hsave with hnew | hold
  · rw [savesOf_saved hnew]
    exact hs
  · exact h save hold

theorem setAside_ne_unread {s : LoadSystem} {renameOk : Bool}
    (h : renameOk = true ∨ s.saved ≠ .unread) : s.setAside renameOk ≠ .unread := by
  unfold setAside
  split_ifs with hc
  · simp
  · simp only [Bool.and_eq_true, decide_eq_true_eq, not_and] at hc
    rcases h with h | h
    · exact hc h
    · exact h

/-- A file that is there is read, or found unusable and set aside. -/
theorem readDbText_of_ne_missing (h : file ≠ .missing) :
    (∃ text, readDbText file = (some text, [])) ∨
      readDbText file = (none, [.setAside]) := by
  unfold readDbText
  cases file with
  | missing => exact absurd rfl h
  | unopenable => exact Or.inr rfl
  | unreadable => exact Or.inr rfl
  | bytes content =>
    simp only
    split_ifs
    · exact Or.inr rfl
    · cases String.fromUTF8? content with
      | none => exact Or.inr rfl
      | some text => exact Or.inl ⟨text.toList, rfl⟩

/-- Polling keeps the invariant: a message that was waited for is adopted or set aside before
anything is saved. -/
theorem safe_pollLoad {s s' : LoadSystem} {timedOut renameOk : Bool} (h : Safe file s)
    (hk : renameOk = true ∨ s.saved ≠ .unread)
    (hstep : step host file s (.pollLoad timedOut renameOk) = some s') : Safe file s' := by
  simp only [step, Option.some.injEq] at hstep
  by_cases hu : s.saved = .unread
  · obtain ⟨hl, hrx, hpath⟩ := h.waiting hu
    obtain ⟨path, hpath⟩ := Option.isSome_iff_exists.mp hpath
    rcases h.coming hu with hload | ⟨text, hload⟩
    · -- nothing has arrived: the database goes on waiting
      have hpoll : s.db.pollLoad host timedOut s.poll =
          if timedOut then ({ s.db with observing := true }, [], !s.db.observing)
          else (s.db, [], false) := by
        simp [AppHistoryDb.pollLoad, hl, hrx, poll, hload]
      rw [hpoll] at hstep
      subst hstep
      have hsaved : s.savedAfterPoll host renameOk = .unread := by
        simp [savedAfterPoll, hpath, hload, hu]
      have hkeep : ∀ db : AppHistoryDb, db.loading = true → db.loadRx = true →
          db.path = some path → Safe file ⟨db, s.loader, .unread, s.handed⟩ :=
        fun db h1 h2 h3 => ⟨h.handed, fun _ => ⟨h1, h2, by simp [h3]⟩,
          fun _ => Or.inl hload, fun _ => h.present hu⟩
      cases timedOut with
      | false => simpa [hl, hrx, hsaved, hload, savesOf] using hkeep s.db hl hrx hpath
      | true =>
        simpa [hl, hrx, hsaved, hload, savesOf] using
          hkeep { s.db with observing := true } hl hrx hpath
    · have hsaved : s.savedAfterPoll host renameOk ≠ .unread := by
        simp only [savedAfterPoll, hpath, hload]
        cases host.parseDb text with
        | none => exact setAside_ne_unread hk
        | some f => simp
      subst hstep
      simp only [hl, hrx, Bool.and_self, if_true]
      exact .of_saved_ne (handed_append hsaved h.handed) hsaved
  · have hsaved : (if s.db.loading && s.db.loadRx then s.savedAfterPoll host renameOk
        else s.saved) ≠ .unread := by
      split_ifs
      · unfold savedAfterPoll
        split
        · split
          · simp
          · exact setAside_ne_unread (Or.inr hu)
        · exact hu
      · exact hu
    subst hstep
    exact .of_saved_ne (handed_append hsaved h.handed) hsaved

/-- **One step keeps the invariant.** -/
theorem safe_step {s s' : LoadSystem} {a : LoadAction} (h : Safe file s) (hk : LoaderKeeps s a)
    (hstep : step host file s a = some s') : Safe file s' := by
  cases a with
  | observe snap interval =>
    obtain ⟨e, n, i, q, hframe⟩ := AppHistoryDb.observe_frame host s.db snap interval
    simp only [step, Option.some.injEq] at hstep
    subst hstep
    refine ⟨h.handed, ?_, h.coming, h.present⟩
    simp only [hframe]
    exact h.waiting
  | pollLoad timedOut renameOk => exact safe_pollLoad h hk hstep
  | saveAsync =>
    simp only [step, AppHistoryDb.saveAsync, Option.some.injEq] at hstep
    subst hstep
    by_cases hu : s.saved = .unread
    · obtain ⟨hl, hrx, hpath⟩ := h.waiting hu
      rw [enqueueSave_of_loading hl]
      exact ⟨h.handed, fun _ => ⟨hl, hrx, hpath⟩, h.coming, h.present⟩
    · exact .of_saved_ne (handed_append hu h.handed) hu
  | save =>
    simp only [step, Option.some.injEq] at hstep
    subst hstep
    by_cases hu : s.saved = .unread
    · obtain ⟨hl, hrx, hpath⟩ := h.waiting hu
      rw [save_of_loading hl]
      exact ⟨h.handed, fun _ => ⟨hl, hrx, hpath⟩, h.coming, h.present⟩
    · exact .of_saved_ne (handed_append hu h.handed) hu
  | clear now =>
    simp only [step, Option.some.injEq] at hstep
    subst hstep
    exact .of_saved_ne (handed_append (by simp) h.handed) (by simp)
  | loaderArrives renameOk =>
    simp only [step, Option.ite_none_right_eq_some, Option.some.injEq] at hstep
    obtain ⟨hload, rfl⟩ := hstep
    by_cases hu : s.saved = .unread
    · rcases readDbText_of_ne_missing (h.present hu) with ⟨text, hread⟩ | hread
      · rw [hread]
        exact ⟨h.handed, h.waiting, fun _ => Or.inr ⟨text, rfl⟩, h.present⟩
      · rw [hread]
        exact .of_saved_ne h.handed (setAside_ne_unread hk)
    · refine .of_saved_ne h.handed ?_
      simp only
      split_ifs
      · exact hu
      · exact setAside_ne_unread hk
  | loaderDies =>
    simp only [step, Option.ite_none_right_eq_some, Option.some.injEq] at hstep
    obtain ⟨-, rfl⟩ := hstep
    exact .of_saved_ne h.handed hk

/-! ### After a clear -/

/-- Everything the database has accumulated. -/
def view (db : AppHistoryDb) : DbFile × OrdMap ℕ PrevTick := (db.snapshotFile, db.prev)

/-- What an action does to a database that was never loaded. -/
def freshStep (host : HistoryHost) (db : AppHistoryDb) : LoadAction → AppHistoryDb
  | .observe snap interval => db.observe host snap interval
  | .clear now => (db.clear now).1
  | _ => db

/-- A new in-memory database that only sees the observations and clears among the actions. -/
def freshRun (host : HistoryHost) (now : ℤ) (as : List LoadAction) : AppHistoryDb :=
  as.foldl (freshStep host) (AppHistoryDb.inMemory now)

theorem observe_view {db db' : AppHistoryDb} (hl : db.loading = false) (hl' : db'.loading = false)
    (hv : view db = view db') (snap : Snapshot) (interval : ℚ) :
    view (db.observe host snap interval) = view (db'.observe host snap interval) := by
  simp only [view, AppHistoryDb.snapshotFile, Prod.mk.injEq, DbFile.mk.injEq] at hv
  obtain ⟨⟨h1, h2, h3, h4⟩, h5⟩ := hv
  simp [view, AppHistoryDb.snapshotFile, AppHistoryDb.observe, hl, hl', h1, h2, h3, h4, h5]

theorem clear_view (db : AppHistoryDb) (now : ℤ) :
    (db.clear now).1.loading = false ∧
      view (db.clear now).1 = view (AppHistoryDb.inMemory now) := by
  simp [AppHistoryDb.clear, AppHistoryDb.enqueueSave, view, AppHistoryDb.snapshotFile,
    AppHistoryDb.inMemory]

theorem enqueueSave_view {db : AppHistoryDb} (hl : db.loading = false) :
    (db.enqueueSave).1.loading = false ∧ view (db.enqueueSave).1 = view db := by
  simp [AppHistoryDb.enqueueSave, hl, view, AppHistoryDb.snapshotFile]

/-- Once nothing is being loaded, an action changes the accumulated history only as it changes
that of a database that was never loaded. -/
theorem view_step {s s' : LoadSystem} {a : LoadAction} {db : AppHistoryDb}
    (h : s.db.loading = false ∧ db.loading = false ∧ view s.db = view db)
    (hstep : step host file s a = some s') :
    s'.db.loading = false ∧ (freshStep host db a).loading = false ∧
      view s'.db = view (freshStep host db a) := by
  obtain ⟨hl, hl', hv⟩ := h
  cases a with
  | observe snap interval =>
    simp only [step, Option.some.injEq] at hstep
    subst hstep
    obtain ⟨_, _, _, _, hframe⟩ := AppHistoryDb.observe_frame host s.db snap interval
    obtain ⟨_, _, _, _, hframe'⟩ := AppHistoryDb.observe_frame host db snap interval
    refine ⟨?_, ?_, observe_view hl hl' hv snap interval⟩
    · rw [hframe]
      exact hl
    · rw [freshStep, hframe']
      exact hl'
  | pollLoad timedOut renameOk =>
    have hpoll : s.db.pollLoad host timedOut s.poll = (s.db, [], false) := by
      simp [AppHistoryDb.pollLoad, hl]
    simp only [step, hpoll, Option.some.injEq] at hstep
    subst hstep
    exact ⟨hl, hl', hv⟩
  | saveAsync =>
    simp only [step, AppHistoryDb.saveAsync, Option.some.injEq] at hstep
    subst hstep
    obtain ⟨h1, h2⟩ := enqueueSave_view hl
    exact ⟨h1, hl', h2.trans hv⟩
  | save =>
    simp only [step, AppHistoryDb.save, Option.some.injEq] at hstep
    subst hstep
    obtain ⟨h1, h2⟩ := enqueueSave_view hl
    simp only [h1, Bool.false_eq_true, if_false]
    exact ⟨trivial, hl', h2.trans hv⟩
  | clear now =>
    simp only [step, Option.some.injEq] at hstep
    subst hstep
    obtain ⟨h1, h2⟩ := clear_view s.db now
    obtain ⟨h3, h4⟩ := clear_view db now
    exact ⟨h1, h3, h2.trans h4.symm⟩
  | loaderArrives renameOk =>
    simp only [step, Option.ite_none_right_eq_some, Option.some.injEq] at hstep
    obtain ⟨-, rfl⟩ := hstep
    exact ⟨hl, hl', hv⟩
  | loaderDies =>
    simp only [step, Option.ite_none_right_eq_some, Option.some.injEq] at hstep
    obtain ⟨-, rfl⟩ := hstep
    exact ⟨hl, hl', hv⟩

theorem view_exec {s s' : LoadSystem} {as : List LoadAction} {db : AppHistoryDb}
    (h : s.db.loading = false ∧ db.loading = false ∧ view s.db = view db)
    (hrun : Machine.exec (step host file) s as = some s') :
    view s'.db = view (as.foldl (freshStep host) db) := by
  induction as generalizing s db with
  | nil =>
    cases hrun
    exact h.2.2
  | cons a as ih =>
    obtain ⟨t, ht, hrest⟩ := Machine.exec_cons_eq_some.mp hrun
    exact ih (view_step h ht) hrest

/-- **Nothing from before a clear returns**: from then on the database holds what a new one would
hold after the same later actions. -/
theorem view_after_clear {s s' : LoadSystem} {now : ℤ} {as : List LoadAction}
    (hrun : Machine.exec (step host file) s (.clear now :: as) = some s') :
    view s'.db = view (freshRun host now as) := by
  obtain ⟨t, ht, hrest⟩ := Machine.exec_cons_eq_some.mp hrun
  simp only [step, Option.some.injEq] at ht
  subst ht
  obtain ⟨h1, h2⟩ := clear_view s.db now
  exact view_exec ⟨h1, rfl, h2⟩ hrest

/-! ### Every run -/

/-- **The history file is not lost before it is read.**  In every run in which, while the file is
the only place of the saved history, the loader was started, does not die and can set an unusable
file aside, no save is handed to the writer while the file is unread; and whatever was accumulated
before a `clear` is gone for good. -/
theorem history_not_lost {path : Text} {now : ℤ} {writerSpawned loaderSpawned : Bool}
    (hload : loaderSpawned = true ∨ file = .missing) {as : List LoadAction} {s : LoadSystem}
    (hkeep : Machine.Along (step host file) LoaderKeeps
      (start path now writerSpawned loaderSpawned file) as)
    (hrun : Machine.exec (step host file)
      (start path now writerSpawned loaderSpawned file) as = some s) :
    (∀ save ∈ s.handed, save.saved ≠ .unread) ∧
      ∀ earlier now' later, as = earlier ++ .clear now' :: later →
        view s.db = view (freshRun host now' later) := by
  constructor
  · exact (Machine.invariant_of_along (fun _ _ _ hsafe hk hstep => safe_step hsafe hk hstep)
      (safe_start hload) hkeep hrun).handed
  · rintro earlier now' later rfl
    rw [Machine.exec_append, Option.bind_eq_some_iff] at hrun
    obtain ⟨t, -, hlater⟩ := hrun
    exact view_after_clear hlater

/-- A host that parses every text as an empty history. -/
def emptyHost : HistoryHost where
  windows := true
  isAbsolute _ := false
  parseDb _ := some ⟨0, ∅, ∅, ∅⟩

/-- The loader thread cannot be started, and the first autosave replaces the file. -/
theorem history_lost_without_loader :
    ¬ ∀ (host : HistoryHost) (path : Text) (now : ℤ) (writerSpawned loaderSpawned : Bool)
      (file : StoredFile) (as : List LoadAction) (s : LoadSystem),
      Machine.exec (step host file) (start path now writerSpawned loaderSpawned file) as = some s →
      ∀ save ∈ s.handed, save.saved ≠ .unread := by
  intro h
  exact h emptyHost "history.json".toList 0 true false (.bytes "{}".toUTF8) [.saveAsync] _ rfl
    _ List.mem_cons_self rfl

/-- The loader finds an unreadable file and keeps it aside; a queued save has to wait for it. -/
def asideRun : List LoadAction :=
  [.saveAsync, .pollLoad true true, .loaderArrives true, .pollLoad true true]

theorem history_not_lost_asideRun :
    (Machine.exec (step emptyHost .unreadable) (start [] 0 true true .unreadable) asideRun).map
        (fun s => s.handed.map HandedSave.saved) = some [.aside] ∧
      ∀ s ∈ Machine.exec (step emptyHost .unreadable) (start [] 0 true true .unreadable) asideRun,
        ∀ save ∈ s.handed, save.saved ≠ .unread := by
  have hkeep : Machine.Along (step emptyHost .unreadable) LoaderKeeps
      (start [] 0 true true .unreadable) asideRun :=
    ⟨trivial, fun _ _ => ⟨Or.inl rfl, fun _ _ => ⟨Or.inl rfl, fun _ _ =>
      ⟨Or.inl rfl, fun _ _ => trivial⟩⟩⟩⟩
  exact ⟨rfl, fun s hs => (history_not_lost (Or.inl rfl) hkeep hs).1⟩

end LoadSystem

end Taskman
