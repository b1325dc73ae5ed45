import Taskman.Core.Model
import Taskman.Numeric.Rounding
import Mathlib.Algebra.Order.Floor.Semiring
import Mathlib.Data.Rat.Floor

/-!
# Persistent per-application resource usage history

The in-memory database behind the "App history" tab: cumulative CPU time and network traffic per
application since a given date.

* `AppHistoryDb.observe` folds one snapshot into the running totals;
* `AppHistoryDb.applyLoadedFile` adopts, or merges with, the contents of the saved file;
* `AppHistoryDb.pollLoad`, `AppHistoryDb.clear`, `AppHistoryDb.saveAsync`, `AppHistoryDb.save` are
  the operations of the deferred open and of the writer.

An operation that reaches outside the database returns, next to the new database, the list of its
`HistoryEffect`s: messages to the writer thread and renames of the saved file.
-/

namespace Taskman

/-- What an application has used. -/
structure AppUsage where
  cpuSeconds : ℚ := 0
  networkBytes : ℕ := 0
  /-- At least one real per-process network counter was observed for this application. -/
  networkAvailable : Bool := false
  deriving DecidableEq

/-- The saved database. -/
structure DbFile where
  /-- Epoch seconds when tracking started. -/
  sinceEpochS : ℤ
  entries : OrdMap Text AppUsage
  names : OrdMap Text Text
  iconPaths : OrdMap Text Text

/-- What the history takes from the platform it runs on: the target operating system,
`Path::is_absolute`, `serde_json::from_str::<DbFile>` and `f64` arithmetic. -/
structure HistoryHost where
  windows : Bool
  isAbsolute : Text → Bool
  parseDb : Text → Option DbFile
  /-- What is left of the exact result of a floating-point operation. -/
  round : ℚ → ℚ := binary64.round

/-- Nothing is rounded. -/
def HistoryHost.Exact (host : HistoryHost) : Prop := host.round = id

/-- Previous tick's counters keyed by pid, guarded by process identity. -/
structure PrevTick where
  startEpochS : Option ℤ
  appIdentity : Text
  cpuTimeS : Option ℚ
  netTotalBytes : Option ℕ
  deriving DecidableEq

/-- What an operation does outside the database. -/
inductive HistoryEffect where
  /-- `WriteCmd::Save`. -/
  | save (generation : ℕ) (snapshot : DbFile)
  /-- `WriteCmd::Flush`. -/
  | flush
  /-- `persist::set_aside` of the saved file. -/
  | setAside

/-- The history, with what it remembers of the last snapshot and of its file. -/
structure AppHistoryDb where
  path : Option Text
  sinceEpochS : ℤ
  entries : OrdMap Text AppUsage := ∅
  names : OrdMap Text Text := ∅
  iconPaths : OrdMap Text Text := ∅
  prev : OrdMap ℕ PrevTick := ∅
  /-- Load state for the deferred open. -/
  loading : Bool := false
  observing : Bool := false
  generation : ℕ := 0
  /-- The writer thread was started. -/
  writer : Bool := false
  /-- The receiver of the loader's result is held. -/
  loadRx : Bool := false
  saveAfterLoad : Bool := false

/-- Stable app identity: normalized executable path, lowercase filename only as last resort. -/
def entryKey (p : ProcessEntry) : Text :=
  match p.exePath with
  | some path =>
    let norm := path.toAsciiLowercase
    if norm.isEmpty then p.name.toAsciiLowercase else norm
  | none => p.name.toAsciiLowercase

/-- A process counts for the history: an app, and elsewhere than on Windows also a background
process. -/
def historyEligible (category : ProcCategory) (windows : Bool) : Bool :=
  category = .app || (!windows && category = .background)

/-! ### Observation -/

/-- Network totals only when the platform provides real numbers. -/
def netTotal (p : ProcessEntry) : Option ℕ :=
  match p.netRecvTotal, p.netSentTotal with
  | some r, some s => some (wrappingAdd r s)
  | _, _ => none

/-- The row carries a real per-process network measurement. -/
def rowNetworkAvailable (p : ProcessEntry) : Bool :=
  (netTotal p).isSome || p.netRecvBps.isSome || p.netSentBps.isSome

/-- PID reuse or an identity change makes the row a first sighting. -/
def sameProcess (prev : Option PrevTick) (key : Text) (p : ProcessEntry) : Bool :=
  prev.any fun prev => prev.appIdentity = key && prev.startEpochS = p.startEpochS

/-- `x as u64` for a floating-point `x`. -/
def truncU64 (x : ℚ) : ℕ := min ⌊x⌋₊ (u64Bound - 1)

/-- CPU seconds credited to a row: the difference of a pair of readings of one process, else the
rate over the window. -/
def cpuDelta (host : HistoryHost) (prev : Option PrevTick) (same : Bool) (cores : ℕ)
    (interval : ℚ) (p : ProcessEntry) : ℚ :=
  if same then
    match prev.bind (·.cpuTimeS), p.cpuTimeS with
    | some before, some now => max (host.round (now - before)) 0
    | _, _ =>
      if 0 < p.cpuPct then
        host.round
          (host.round (host.round (p.cpuPct / 100) * max interval 0) * (max cores 1 : ℕ))
      else 0
  else 0

/-- Network bytes credited to a row. -/
def netDelta (host : HistoryHost) (prev : Option PrevTick) (same : Bool) (interval : ℚ)
    (p : ProcessEntry) : ℕ :=
  if same then
    match prev.bind (·.netTotalBytes), netTotal p with
    | some before, some now => now - before
    | _, _ =>
      if p.netRecvBps.isSome || p.netSentBps.isSome then
        truncU64
          (host.round (host.round (p.netRecvBps.getD 0 + p.netSentBps.getD 0) * max interval 0))
      else 0
  else 0

/-- The entry after one row: availability is state, not a delta. -/
def AppUsage.credit (e : AppUsage) (host : HistoryHost) (available : Bool) (dCpu : ℚ) (dNet : ℕ) :
    AppUsage :=
  let e := { e with networkAvailable := e.networkAvailable || available }
  if dCpu > 1 / 1000000 ∨ dNet > 0 then
    { e with
      cpuSeconds := host.round (e.cpuSeconds + dCpu)
      networkBytes := wrappingAdd e.networkBytes dNet }
  else e

/-- Add what was observed while the file was still loading to an entry of the file. -/
def AppUsage.absorb (loaded : AppUsage) (host : HistoryHost) (current : AppUsage) : AppUsage where
  cpuSeconds := host.round (loaded.cpuSeconds + current.cpuSeconds)
  networkBytes := saturatingAdd loaded.networkBytes current.networkBytes
  networkAvailable := loaded.networkAvailable || current.networkAvailable

/-- What the loop of `observe` carries from row to row. -/
structure ObserveAcc where
  entries : OrdMap Text AppUsage
  names : OrdMap Text Text
  iconPaths : OrdMap Text Text
  nextPrev : OrdMap ℕ PrevTick

/-- The icon path a row offers for its key. -/
def offeredIcon (host : HistoryHost) (key : Text) (p : ProcessEntry) : Option Text :=
  match p.exePath with
  | some exe => some exe
  | none => if host.isAbsolute key then some key else none

/-- The baseline a row leaves for the next tick. -/
def prevTickOf (p : ProcessEntry) : PrevTick where
  startEpochS := p.startEpochS
  appIdentity := entryKey p
  cpuTimeS := p.cpuTimeS
  netTotalBytes := netTotal p

/-- The entry of a row's key after the row, against the pid's previous tick. -/
def AppUsage.creditRow (e : AppUsage) (host : HistoryHost) (prev : Option PrevTick) (cores : ℕ)
    (interval : ℚ) (p : ProcessEntry) : AppUsage :=
  let same := sameProcess prev (entryKey p) p
  e.credit host (rowNetworkAvailable p) (cpuDelta host prev same cores interval p)
    (netDelta host prev same interval p)

/-- One turn of the loop of `observe`. -/
def observeRow (host : HistoryHost) (prevMap : OrdMap ℕ PrevTick) (cores : ℕ) (interval : ℚ)
    (acc : ObserveAcc) (p : ProcessEntry) : ObserveAcc :=
  if !historyEligible p.category host.windows then acc else
  let key := entryKey p
  { entries := acc.entries.alter key fun e =>
      some ((e.getD {}).creditRow host prevMap[p.pid]? cores interval p)
    -- the first name and icon stay
    names := acc.names.insertIfNew key p.shownName
    iconPaths := match offeredIcon host key p with
      | some icon => acc.iconPaths.insertIfNew key icon
      | none => acc.iconPaths
    nextPrev := acc.nextPrev.insert p.pid (prevTickOf p) }

/-- The rows of a snapshot the history looks at. -/
def eligibleRows (host : HistoryHost) (snap : Snapshot) : List ProcessEntry :=
  snap.processes.filter fun p => historyEligible p.category host.windows

theorem eligible_of_mem {host : HistoryHost} {snap : Snapshot} :
    ∀ p ∈ eligibleRows host snap, historyEligible p.category host.windows = true :=
  fun _ hp => (List.mem_filter.mp hp).2

/-- The rows the history looks at in a run of snapshots. -/
def rowsOf (host : HistoryHost) (ticks : List (Snapshot × ℚ)) : List ProcessEntry :=
  ticks.flatMap fun tick => eligibleRows host tick.1

section

variable (host : HistoryHost) (prevMap : OrdMap ℕ PrevTick) (cores : ℕ) (interval : ℚ)
variable (acc : ObserveAcc)

/-- A row that is not eligible changes nothing, so the loop may be read over the eligible rows. -/
theorem foldl_eligibleRows (snap : Snapshot) :
    snap.processes.foldl (observeRow host prevMap cores interval) acc =
      (eligibleRows host snap).foldl (observeRow host prevMap cores interval) acc := by
  rw [eligibleRows, List.foldl_filter]
  refine List.foldl_ext _ _ _ fun acc p _ => ?_
  cases h : historyEligible p.category host.windows <;> simp [observeRow, h]

variable {host} {p : ProcessEntry} (h : historyEligible p.category host.windows = true)
include h

theorem observeRow_entries (k : Text) :
    (observeRow host prevMap cores interval acc p).entries[k]? =
      if entryKey p = k then
        some ((acc.entries[k]?.getD {}).creditRow host prevMap[p.pid]? cores interval p)
      else acc.entries[k]? := by
  simp only [observeRow, h, Bool.not_true, Bool.false_eq_true, if_false, OrdMap.getElem?_alter]
  split_ifs with hk
  · rw [hk]
  · rfl

theorem observeRow_nextPrev (pid : ℕ) :
    (observeRow host prevMap cores interval acc p).nextPrev[pid]? =
      if p.pid = pid then some (prevTickOf p) else acc.nextPrev[pid]? := by
  simp only [observeRow, h, Bool.not_true, Bool.false_eq_true, if_false, OrdMap.getElem?_insert]

theorem observeRow_names (k : Text) :
    (observeRow host prevMap cores interval acc p).names[k]? =
      if entryKey p = k then some (acc.names[k]?.getD p.shownName) else acc.names[k]? := by
  simp only [observeRow, h, Bool.not_true, Bool.false_eq_true, if_false,
    OrdMap.getElem?_insertIfNew]

theorem observeRow_iconPaths (k : Text) :
    (observeRow host prevMap cores interval acc p).iconPaths[k]? =
      if entryKey p = k then (acc.iconPaths[k]?).or (offeredIcon host k p)
      else acc.iconPaths[k]? := by
  simp only [observeRow, h, Bool.not_true, Bool.false_eq_true, if_false]
  by_cases hk : entryKey p = k
  · subst hk
    cases offeredIcon host (entryKey p) p with
    | none => simp
    | some icon =>
      simp only [OrdMap.getElem?_insertIfNew, if_true]
      cases acc.iconPaths[entryKey p]? <;> rfl
  · cases offeredIcon host (entryKey p) p with
    | none => simp [hk]
    | some icon => simp [OrdMap.getElem?_insertIfNew, hk]

end

/-! ### Reading the saved file -/

/-- Upper bound for the persisted database. -/
def maxDbBytes : ℕ := 16 * 1024 * 1024

/-- What the database path holds when it is opened for reading. -/
inductive StoredFile where
  | missing
  /-- Opening fails for another reason. -/
  | unopenable
  /-- Reading fails half-way. -/
  | unreadable
  | bytes (content : ByteArray)

/-- The database text, if the file can be used; a file that cannot is set aside. -/
def readDbText : StoredFile → Option Text × List HistoryEffect
  | .missing => (none, [])
  | .unopenable => (none, [.setAside])
  | .unreadable => (none, [.setAside])
  | .bytes content =>
    if content.size > maxDbBytes then (none, [.setAside]) else
    match String.fromUTF8? content with
    | some text => (some text.toList, [])
    | none => (none, [.setAside])

/-- What `try_recv` on the loader's channel finds. -/
inductive LoadPoll where
  | received (text : Option Text)
  | empty
  | disconnected
  deriving DecidableEq

namespace AppHistoryDb

/-- Fold one snapshot into the running totals. -/
def observe (host : HistoryHost) (db : AppHistoryDb) (snap : Snapshot) (interval : ℚ) :
    AppHistoryDb :=
  if db.loading && !db.observing then db else
  let acc := snap.processes.foldl (observeRow host db.prev snap.cpu.logicalCount interval)
    ⟨db.entries, db.names, db.iconPaths, ∅⟩
  { db with
    entries := acc.entries
    names := acc.names
    iconPaths := acc.iconPaths
    prev := acc.nextPrev }

theorem observe_frame (host : HistoryHost) (db : AppHistoryDb) (snap : Snapshot) (interval : ℚ) :
    ∃ entries names iconPaths prev, db.observe host snap interval =
      { db with entries := entries, names := names, iconPaths := iconPaths, prev := prev } := by
  unfold observe
  split_ifs with h
  · exact ⟨db.entries, db.names, db.iconPaths, db.prev, rfl⟩
  · exact ⟨_, _, _, _, rfl⟩

/-- A run of `observe`. -/
def observeAll (host : HistoryHost) (db : AppHistoryDb) (ticks : List (Snapshot × ℚ)) :
    AppHistoryDb :=
  ticks.foldl (fun db tick => db.observe host tick.1 tick.2) db

/-- A database still waiting for its file observes nothing. -/
theorem observeAll_of_waiting {host : HistoryHost} {db : AppHistoryDb}
    (h : (db.loading && !db.observing) = true) (ticks : List (Snapshot × ℚ)) :
    db.observeAll host ticks = db := by
  induction ticks with
  | nil => rfl
  | cons tick ticks ih =>
    have hobs : db.observe host tick.1 tick.2 = db := by simp [observe, h]
    simpa [observeAll, hobs] using ih

/-! ### Loading, clearing and saving -/

/-- In-memory database. -/
def inMemory (now : ℤ) : AppHistoryDb where
  path := none
  sinceEpochS := now

/-- Files written before `network_available` existed, and files without `icon_paths`, completed. -/
def completeFile (host : HistoryHost) (f : DbFile) : DbFile :=
  { f with
    entries := f.entries.map fun _ usage =>
      { usage with networkAvailable := usage.networkAvailable || 0 < usage.networkBytes }
    iconPaths := f.entries.foldl (fun icons key _ => icons.alter key fun icon =>
      if host.isAbsolute key then some (icon.getD key) else icon) f.iconPaths }

/-- `BTreeMap::extend`. -/
def extend (m n : OrdMap Text Text) : OrdMap Text Text :=
  n.foldl (fun m k v => m.alter k fun _ => some v) m

/-- The file with the totals and maps observed while it was loading. -/
def mergeObserved (host : HistoryHost) (db : AppHistoryDb) (f : DbFile) : DbFile :=
  { f with
    entries := db.entries.foldl (fun entries key current => entries.alter key fun loaded =>
      some ((loaded.getD {}).absorb host current)) f.entries
    names := extend f.names db.names
    iconPaths := extend f.iconPaths db.iconPaths }

/-- Adopt a file that was read and parsed. -/
def adopt (host : HistoryHost) (db : AppHistoryDb) (f : DbFile) : AppHistoryDb :=
  let f := completeFile host f
  let f := if db.observing then mergeObserved host db f else f
  { db with
    sinceEpochS := f.sinceEpochS
    entries := f.entries
    names := f.names
    iconPaths := f.iconPaths }

/-- The text of the file is taken over; one that cannot be read is set aside. -/
def applyLoadedFile (host : HistoryHost) (db : AppHistoryDb) (text : Text) :
    AppHistoryDb × List HistoryEffect :=
  match host.parseDb text with
  | some f => (db.adopt host f, [])
  | none => (db, [.setAside])

/-- What a save writes. -/
def snapshotFile (db : AppHistoryDb) : DbFile where
  sinceEpochS := db.sinceEpochS
  entries := db.entries
  names := db.names
  iconPaths := db.iconPaths

/-- Hand a save to the writer, or note that one is due once the file is loaded. -/
def enqueueSave (db : AppHistoryDb) : AppHistoryDb × List HistoryEffect :=
  if db.loading then ({ db with saveAfterLoad := true }, []) else
  let db := { db with generation := db.generation + 1 }
  (db, if db.writer then [.save db.generation db.snapshotFile] else [])

/-- Queue an autosave. -/
def saveAsync (db : AppHistoryDb) : AppHistoryDb × List HistoryEffect := db.enqueueSave

/-- Blocking save and flush. -/
def save (db : AppHistoryDb) : AppHistoryDb × List HistoryEffect :=
  let (db, effects) := db.enqueueSave
  if db.loading then (db, effects) else
  (db, effects ++ if db.writer then [.flush] else [])

/-- Wipe all accumulated usage at time `now`. -/
def clear (db : AppHistoryDb) (now : ℤ) : AppHistoryDb × List HistoryEffect :=
  enqueueSave { db with
    loading := false
    loadRx := false
    saveAfterLoad := false
    entries := ∅
    names := ∅
    iconPaths := ∅
    prev := ∅
    sinceEpochS := now }

/-- The file is loaded, or will never be; a save that was due is made. -/
def finishLoad (db : AppHistoryDb) : AppHistoryDb × List HistoryEffect :=
  let resave := db.saveAfterLoad
  let db := { db with loading := false, loadRx := false, saveAfterLoad := false }
  if resave then db.enqueueSave else (db, [])

/-- Adopt asynchronously loaded file contents once ready; `timedOut` says that more than two
seconds have passed since the open. -/
def pollLoad (host : HistoryHost) (db : AppHistoryDb) (timedOut : Bool) (poll : LoadPoll) :
    AppHistoryDb × List HistoryEffect × Bool :=
  if !db.loading then (db, [], false) else
  if !db.loadRx then
    let (db, effects) := db.finishLoad
    (db, effects, true)
  else
    match poll with
    | .received text =>
      let (db, applied) := match text, db.path with
        | some t, some _ => db.applyLoadedFile host t
        | _, _ => (db, [])
      let (db, effects) := db.finishLoad
      (db, applied ++ effects, true)
    | .empty =>
      if timedOut then ({ db with observing := true }, [], !db.observing) else (db, [], false)
    | .disconnected =>
      let (db, effects) := db.finishLoad
      (db, effects, true)

/-- `AppHistoryDb::open`: the file is read before the database is returned. -/
def openSync (host : HistoryHost) (path : Text) (now : ℤ) (writerSpawned : Bool)
    (text : Option Text) : AppHistoryDb × List HistoryEffect :=
  let db := { inMemory now with path := some path, writer := writerSpawned }
  match text with
  | some text => db.applyLoadedFile host text
  | none => (db, [])

/-- The database `open_deferred` returns; `writerSpawned` and `loaderSpawned` say whether the two
threads could be started. -/
def openDeferred (path : Text) (now : ℤ) (writerSpawned loaderSpawned : Bool) : AppHistoryDb :=
  let db := { inMemory now with path := some path, loading := true, writer := writerSpawned }
  -- without a worker nothing will ever arrive
  if loaderSpawned then { db with loadRx := true } else { db with loading := false }

end AppHistoryDb

end Taskman
