import Taskman.Core.AppHistory
import Mathlib.Tactic.Linarith

/-!
# A deferred load against an eager one

The saved file can be loaded before the first observation, or merged with what was observed while
it was still being read.  A run of `observe` is the list of the `Credit`s its rows give to their
keys, and those do not depend on the totals; so the two orders can be compared key by key.

* `observeAll_entries`, `observeAll_names`, `observeAll_iconPaths` : what a run leaves under a key;
* `absorb_applyCredits` : merging totals after the fact is crediting them one by one;
* `deferred_entries_eq` : **the totals never depend on the order**;
* `deferred_eq_eager_iff` : **names and icons agree exactly when the file and the first row of each
  key offer the same**.
-/

namespace Taskman

/-- What one row credits to its key. -/
structure Credit where
  available : Bool
  cpu : ℚ
  net : ℕ
  deriving DecidableEq

/-- What a snapshot credits to a row. -/
def creditOf (host : HistoryHost) (prev : Option PrevTick) (cores : ℕ) (interval : ℚ)
    (p : ProcessEntry) : Credit where
  available := rowNetworkAvailable p
  cpu := cpuDelta host prev (sameProcess prev (entryKey p) p) cores interval p
  net := netDelta host prev (sameProcess prev (entryKey p) p) interval p

/-- The credits of one snapshot's rows, against the previous tick. -/
def rowCredits (host : HistoryHost) (prev : OrdMap ℕ PrevTick) (cores : ℕ) (interval : ℚ)
    (rows : List ProcessEntry) : List (Text × Credit) :=
  rows.map fun p => (entryKey p, creditOf host prev[p.pid]? cores interval p)

/-- The baselines one snapshot leaves. -/
def nextPrevOf (host : HistoryHost) (snap : Snapshot) : OrdMap ℕ PrevTick :=
  (eligibleRows host snap).foldl (fun prev p => prev.insert p.pid (prevTickOf p)) ∅

/-- The credits of a run, in order. -/
def runCredits (host : HistoryHost) : OrdMap ℕ PrevTick → List (Snapshot × ℚ) → List (Text × Credit)
  | _, [] => []
  | prev, tick :: ticks =>
    rowCredits host prev tick.1.cpu.logicalCount tick.2 (eligibleRows host tick.1) ++
      runCredits host (nextPrevOf host tick.1) ticks

/-- The credits given to one key. -/
def keyCredits (cs : List (Text × Credit)) (k : Text) : List Credit :=
  (cs.filter fun c => c.1 = k).map Prod.snd

/-- The entry of a key after a list of credits. -/
def applyCredits (host : HistoryHost) (e : Option AppUsage) (cs : List Credit) : Option AppUsage :=
  cs.foldl (fun e c => some ((e.getD {}).credit host c.available c.cpu c.net)) e

/-- The name the first row of key `k` offers. -/
def firstName (rows : List ProcessEntry) (k : Text) : Option Text :=
  rows.findSome? fun p => if entryKey p = k then some p.shownName else none

/-- The icon path the first row of key `k` that has one offers. -/
def firstIcon (host : HistoryHost) (rows : List ProcessEntry) (k : Text) : Option Text :=
  rows.findSome? fun p => if entryKey p = k then offeredIcon host k p else none

/-! ### What a run leaves under a key -/

theorem keyCredits_append (cs ds : List (Text × Credit)) (k : Text) :
    keyCredits (cs ++ ds) k = keyCredits cs k ++ keyCredits ds k := by
  simp [keyCredits]

theorem applyCredits_append (host : HistoryHost) (e : Option AppUsage) (cs ds : List Credit) :
    applyCredits host e (cs ++ ds) = applyCredits host (applyCredits host e cs) ds := by
  simp [applyCredits]

section Rows

variable {host : HistoryHost} {prev : OrdMap ℕ PrevTick} {cores : ℕ} {interval : ℚ}

theorem foldl_observeRow_entries (rows : List ProcessEntry)
    (he : ∀ p ∈ rows, historyEligible p.category host.windows = true) (acc : ObserveAcc)
    (k : Text) :
    (rows.foldl (observeRow host prev cores interval) acc).entries[k]? =
      applyCredits host acc.entries[k]?
        (keyCredits (rowCredits host prev cores interval rows) k) := by
  induction rows generalizing acc with
  | nil => rfl
  | cons p rows ih =>
    rw [List.foldl_cons, ih fun q hq => he q (List.mem_cons_of_mem p hq),
      observeRow_entries _ _ _ _ (he p List.mem_cons_self)]
    by_cases hk : entryKey p = k
    · simp [rowCredits, keyCredits, applyCredits, hk, creditOf, AppUsage.creditRow]
    · simp [rowCredits, keyCredits, hk]

theorem foldl_observeRow_names (rows : List ProcessEntry)
    (he : ∀ p ∈ rows, historyEligible p.category host.windows = true) (acc : ObserveAcc)
    (k : Text) :
    (rows.foldl (observeRow host prev cores interval) acc).names[k]? =
      (acc.names[k]?).or (firstName rows k) := by
  induction rows generalizing acc with
  | nil => simp [firstName]
  | cons p rows ih =>
    rw [List.foldl_cons, ih fun q hq => he q (List.mem_cons_of_mem p hq),
      observeRow_names _ _ _ _ (he p List.mem_cons_self)]
    by_cases hk : entryKey p = k
    · cases hn : acc.names[k]? <;> simp [firstName, hk]
    · simp [firstName, hk]

theorem foldl_observeRow_iconPaths (rows : List ProcessEntry)
    (he : ∀ p ∈ rows, historyEligible p.category host.windows = true) (acc : ObserveAcc)
    (k : Text) :
    (rows.foldl (observeRow host prev cores interval) acc).iconPaths[k]? =
      (acc.iconPaths[k]?).or (firstIcon host rows k) := by
  induction rows generalizing acc with
  | nil => simp [firstIcon]
  | cons p rows ih =>
    rw [List.foldl_cons, ih fun q hq => he q (List.mem_cons_of_mem p hq),
      observeRow_iconPaths _ _ _ _ (he p List.mem_cons_self)]
    by_cases hk : entryKey p = k
    · cases hi : acc.iconPaths[k]? with
      | some icon => simp [hk]
      | none => cases ho : offeredIcon host k p <;> simp [firstIcon, hk, ho]
    · simp [firstIcon, hk]

theorem foldl_observeRow_nextPrev (rows : List ProcessEntry)
    (he : ∀ p ∈ rows, historyEligible p.category host.windows = true) (acc : ObserveAcc) :
    (rows.foldl (observeRow host prev cores interval) acc).nextPrev =
      rows.foldl (fun prev p => prev.insert p.pid (prevTickOf p)) acc.nextPrev := by
  induction rows generalizing acc with
  | nil => rfl
  | cons p rows ih =>
    rw [List.foldl_cons, List.foldl_cons, ih fun q hq => he q (List.mem_cons_of_mem p hq)]
    simp [observeRow, he p List.mem_cons_self]

end Rows

namespace AppHistoryDb

variable (host : HistoryHost) {db : AppHistoryDb}

/-- A database that observes folds the eligible rows of the snapshot. -/
theorem observe_of_active (h : (db.loading && !db.observing) = false) (snap : Snapshot)
    (interval : ℚ) :
    db.observe host snap interval =
      let acc := (eligibleRows host snap).foldl
        (observeRow host db.prev snap.cpu.logicalCount interval)
        ⟨db.entries, db.names, db.iconPaths, ∅⟩
      { db with
        entries := acc.entries
        names := acc.names
        iconPaths := acc.iconPaths
        prev := acc.nextPrev } := by
  simp only [observe, h, Bool.false_eq_true, if_false, foldl_eligibleRows]

theorem observe_prev (h : (db.loading && !db.observing) = false) (snap : Snapshot)
    (interval : ℚ) : (db.observe host snap interval).prev = nextPrevOf host snap := by
  rw [observe_of_active host h]
  exact foldl_observeRow_nextPrev _ eligible_of_mem _

theorem observe_active (h : (db.loading && !db.observing) = false) (snap : Snapshot)
    (interval : ℚ) :
    ((db.observe host snap interval).loading && !(db.observe host snap interval).observing) =
      false := by
  rw [observe_of_active host h]
  exact h

/-- **The entry of a key after a run** is its old entry with the run's credits to the key. -/
theorem observeAll_entries (h : (db.loading && !db.observing) = false)
    (ticks : List (Snapshot × ℚ)) (k : Text) :
    (db.observeAll host ticks).entries[k]? =
      applyCredits host db.entries[k]? (keyCredits (runCredits host db.prev ticks) k) := by
  induction ticks generalizing db with
  | nil => rfl
  | cons tick ticks ih =>
    have hstep := ih (observe_active host h tick.1 tick.2)
    rw [observe_prev host h] at hstep
    rw [runCredits, keyCredits_append, applyCredits_append]
    refine hstep.trans ?_
    rw [observe_of_active host h]
    simp only
    rw [foldl_observeRow_entries _ eligible_of_mem]

/-- The first name stays. -/
theorem observeAll_names (h : (db.loading && !db.observing) = false)
    (ticks : List (Snapshot × ℚ)) (k : Text) :
    (db.observeAll host ticks).names[k]? =
      (db.names[k]?).or (firstName (rowsOf host ticks) k) := by
  induction ticks generalizing db with
  | nil => simp [observeAll, rowsOf, firstName]
  | cons tick ticks ih =>
    refine (ih (observe_active host h tick.1 tick.2)).trans ?_
    rw [observe_of_active host h]
    simp only
    rw [foldl_observeRow_names _ eligible_of_mem, Option.or_assoc]
    simp [rowsOf, firstName, List.findSome?_append]

/-- The first icon path stays. -/
theorem observeAll_iconPaths (h : (db.loading && !db.observing) = false)
    (ticks : List (Snapshot × ℚ)) (k : Text) :
    (db.observeAll host ticks).iconPaths[k]? =
      (db.iconPaths[k]?).or (firstIcon host (rowsOf host ticks) k) := by
  induction ticks generalizing db with
  | nil => simp [observeAll, rowsOf, firstIcon]
  | cons tick ticks ih =>
    refine (ih (observe_active host h tick.1 tick.2)).trans ?_
    rw [observe_of_active host h]
    simp only
    rw [foldl_observeRow_iconPaths _ eligible_of_mem, Option.or_assoc]
    simp [rowsOf, firstIcon, List.findSome?_append]

/-- A run of observations touches the totals, the maps and the baselines only. -/
theorem observeAll_frame (db : AppHistoryDb) (ticks : List (Snapshot × ℚ)) :
    ∃ entries names iconPaths prev, db.observeAll host ticks =
      { db with entries := entries, names := names, iconPaths := iconPaths, prev := prev } := by
  induction ticks generalizing db with
  | nil => exact ⟨db.entries, db.names, db.iconPaths, db.prev, rfl⟩
  | cons tick ticks ih =>
    obtain ⟨e, n, i, q, hrest⟩ := ih (db.observe host tick.1 tick.2)
    obtain ⟨_, _, _, _, hstep⟩ := observe_frame host db tick.1 tick.2
    rw [hstep] at hrest
    exact ⟨e, n, i, q, (congrArg (observeAll host · ticks) hstep).trans hrest⟩

end AppHistoryDb

/-! ### Merging after the fact -/

namespace AppHistoryDb

theorem getElem?_extend (m n : OrdMap Text Text) (k : Text) :
    (extend m n)[k]? = (n[k]?).or m[k]? := by
  rw [extend, OrdMap.getElem?_foldl_alter (fun _ v _ => some v)]
  cases n[k]? <;> rfl

theorem mergeObserved_entries (host : HistoryHost) (db : AppHistoryDb) (f : DbFile) (k : Text) :
    (db.mergeObserved host f).entries[k]? =
      match db.entries[k]? with
      | some current => some ((f.entries[k]?.getD {}).absorb host current)
      | none => f.entries[k]? := by
  have h := OrdMap.getElem?_foldl_alter (fun (_ : Text) (current : AppUsage) loaded =>
    some ((Option.getD loaded {}).absorb host current)) db.entries f.entries k
  cases hk : db.entries[k]? <;> simpa [mergeObserved, hk] using h

end AppHistoryDb

open AppHistoryDb (completeFile)

/-- Nothing saturates or wraps: under every key the file's bytes and all the run's credits
together are a `u64`. -/
def NoOverflow (host : HistoryHost) (f : DbFile) (ticks : List (Snapshot × ℚ)) : Prop :=
  ∀ k : Text, (f.entries[k]?.getD {}).networkBytes +
    ((keyCredits (runCredits host ∅ ticks) k).map Credit.net).sum < u64Bound

theorem credit_networkBytes_add {host : HistoryHost} {b : AppUsage} {c : Credit}
    (h : b.networkBytes + c.net < u64Bound) :
    (b.credit host c.available c.cpu c.net).networkBytes = b.networkBytes + c.net := by
  unfold AppUsage.credit
  split_ifs with hc
  · exact wrappingAdd_of_lt h
  · have hzero : c.net = 0 := by omega
    rw [hzero, add_zero]

section

variable {host : HistoryHost} (hexact : host.Exact)
include hexact

/-- Absorbing an entry after one more credit is crediting the absorbed entry. -/
theorem absorb_credit {a b : AppUsage} {c : Credit}
    (h : a.networkBytes + b.networkBytes + c.net < u64Bound) :
    a.absorb host (b.credit host c.available c.cpu c.net) =
      (a.absorb host b).credit host c.available c.cpu c.net := by
  have hab : a.networkBytes + b.networkBytes < u64Bound := by omega
  have hbc : b.networkBytes + c.net < u64Bound := by omega
  unfold AppUsage.credit AppUsage.absorb
  rw [hexact]
  split_ifs with hc
  · simp only [wrappingAdd_of_lt hbc, saturatingAdd_of_lt hab, wrappingAdd_of_lt h,
      saturatingAdd_of_lt (show a.networkBytes + (b.networkBytes + c.net) < u64Bound by omega),
      Bool.or_assoc, add_assoc, id]
  · simp only [Bool.or_assoc, id]

/-- **Merging totals after the fact is crediting them one by one.** -/
theorem absorb_applyCredits (a b : AppUsage) (cs : List Credit)
    (h : a.networkBytes + b.networkBytes + (cs.map Credit.net).sum < u64Bound) :
    some (a.absorb host ((applyCredits host (some b) cs).getD {})) =
      applyCredits host (some (a.absorb host b)) cs := by
  induction cs generalizing b with
  | nil => rfl
  | cons c cs ih =>
    rw [List.map_cons, List.sum_cons] at h
    have hc : b.networkBytes + c.net < u64Bound := by omega
    have habc : a.networkBytes + b.networkBytes + c.net < u64Bound := by omega
    have hrest := ih (b.credit host c.available c.cpu c.net) (by
      rw [credit_networkBytes_add hc]
      omega)
    rw [absorb_credit hexact habc] at hrest
    exact hrest

theorem absorb_empty {a : AppUsage} (h : a.networkBytes < u64Bound) : a.absorb host {} = a := by
  have hz : a.networkBytes + 0 < u64Bound := h
  simp [AppUsage.absorb, saturatingAdd_of_lt hz, show host.round = id from hexact]

/-- An entry that has been credited at all: what it held before may be replaced by zero totals, to
be absorbed later. -/
theorem applyCredits_absorb {e : Option AppUsage} {cs : List Credit} (hcs : cs ≠ [])
    (h : (e.getD {}).networkBytes + (cs.map Credit.net).sum < u64Bound) :
    ∃ current, applyCredits host none cs = some current ∧
      some ((e.getD {}).absorb host current) = applyCredits host e cs := by
  obtain ⟨c, cs, rfl⟩ := List.exists_cons_of_ne_nil hcs
  have hsome : ∀ (e : AppUsage) (cs : List Credit),
      ∃ u, applyCredits host (some e) cs = some u := by
    intro e cs
    induction cs generalizing e with
    | nil => exact ⟨e, rfl⟩
    | cons c cs ih => exact ih _
  obtain ⟨current, hcur⟩ := hsome {} (c :: cs)
  refine ⟨current, hcur, ?_⟩
  have habs := absorb_applyCredits hexact (e.getD {}) {} (c :: cs) (by simpa using h)
  rw [hcur, absorb_empty hexact (by omega)] at habs
  exact habs

end

/-! ### The two orders -/

/-- The state in which a slow load lets observation resume. -/
def pendingDb (host : HistoryHost) (path : Text) (now : ℤ) (writerSpawned : Bool) :
    AppHistoryDb :=
  ((AppHistoryDb.openDeferred path now writerSpawned true).pollLoad host true .empty).1

/-- Observe while the load is pending, then merge the file. -/
def deferred (host : HistoryHost) (path : Text) (now : ℤ) (writerSpawned : Bool) (text : Text)
    (ticks : List (Snapshot × ℚ)) : AppHistoryDb :=
  (((pendingDb host path now writerSpawned).observeAll host ticks).applyLoadedFile host text).1

/-- Load the file, then observe. -/
def eager (host : HistoryHost) (path : Text) (now : ℤ) (writerSpawned : Bool) (text : Text)
    (ticks : List (Snapshot × ℚ)) : AppHistoryDb :=
  (AppHistoryDb.openSync host path now writerSpawned (some text)).1.observeAll host ticks

/-- The two databases show the same history. -/
structure SameHistory (d e : AppHistoryDb) : Prop where
  entries : d.entries = e.entries
  names : d.names = e.names
  iconPaths : d.iconPaths = e.iconPaths

/-- Two offers for one place agree: where both exist they are equal. -/
def Agree (a b : Option Text) : Prop := ∀ x ∈ a, ∀ y ∈ b, x = y

instance (a b : Option Text) : Decidable (Agree a b) :=
  inferInstanceAs (Decidable (∀ x ∈ a, ∀ y ∈ b, x = y))

theorem or_comm_iff_agree (a b : Option Text) : b.or a = a.or b ↔ Agree a b := by
  cases a <;> cases b <;> simp [Agree, eq_comm]

section

variable (host : HistoryHost) (path : Text) (now : ℤ) (writerSpawned : Bool)
variable {text : Text} {f : DbFile} (ticks : List (Snapshot × ℚ))

theorem pendingDb_active : ((pendingDb host path now writerSpawned).loading &&
    !(pendingDb host path now writerSpawned).observing) = false := rfl

theorem observeAll_pendingDb_observing :
    ((pendingDb host path now writerSpawned).observeAll host ticks).observing = true := by
  obtain ⟨e, n, i, q, hframe⟩ := AppHistoryDb.observeAll_frame host
    (pendingDb host path now writerSpawned) ticks
  rw [hframe]
  rfl

variable (hparse : host.parseDb text = some f)
include hparse

/-- The deferred order merges the observed totals into the completed file. -/
theorem deferred_entries (k : Text) :
    (deferred host path now writerSpawned text ticks).entries[k]? =
      match applyCredits host none (keyCredits (runCredits host ∅ ticks) k) with
      | some current => some (((completeFile host f).entries[k]?.getD {}).absorb host current)
      | none => (completeFile host f).entries[k]? := by
  have hrun := AppHistoryDb.observeAll_entries host
    (pendingDb_active host path now writerSpawned) ticks k
  simp only [deferred, AppHistoryDb.applyLoadedFile, hparse, AppHistoryDb.adopt,
    observeAll_pendingDb_observing, if_true, AppHistoryDb.mergeObserved_entries]
  rw [hrun]
  rfl

/-- The deferred order lets an observed name replace the file's. -/
theorem deferred_names (k : Text) :
    (deferred host path now writerSpawned text ticks).names[k]? =
      (firstName (rowsOf host ticks) k).or f.names[k]? := by
  have hrun := AppHistoryDb.observeAll_names host
    (pendingDb_active host path now writerSpawned) ticks k
  simp only [deferred, AppHistoryDb.applyLoadedFile, hparse, AppHistoryDb.adopt,
    observeAll_pendingDb_observing, if_true, AppHistoryDb.mergeObserved,
    AppHistoryDb.getElem?_extend, completeFile]
  rw [hrun]
  simp [pendingDb, AppHistoryDb.openDeferred, AppHistoryDb.pollLoad, AppHistoryDb.inMemory]

/-- The deferred order lets an observed icon path replace the file's. -/
theorem deferred_iconPaths (k : Text) :
    (deferred host path now writerSpawned text ticks).iconPaths[k]? =
      (firstIcon host (rowsOf host ticks) k).or (completeFile host f).iconPaths[k]? := by
  have hrun := AppHistoryDb.observeAll_iconPaths host
    (pendingDb_active host path now writerSpawned) ticks k
  simp only [deferred, AppHistoryDb.applyLoadedFile, hparse, AppHistoryDb.adopt,
    observeAll_pendingDb_observing, if_true, AppHistoryDb.mergeObserved,
    AppHistoryDb.getElem?_extend]
  rw [hrun]
  simp [pendingDb, AppHistoryDb.openDeferred, AppHistoryDb.pollLoad, AppHistoryDb.inMemory]

/-- The database the eager order starts to observe with. -/
theorem openSync_eq :
    (AppHistoryDb.openSync host path now writerSpawned (some text)).1 =
      { AppHistoryDb.inMemory now with
        path := some path
        writer := writerSpawned
        sinceEpochS := f.sinceEpochS
        entries := (completeFile host f).entries
        names := f.names
        iconPaths := (completeFile host f).iconPaths } := by
  simp only [AppHistoryDb.openSync, AppHistoryDb.applyLoadedFile, hparse, AppHistoryDb.adopt]
  rfl

theorem eager_entries (k : Text) :
    (eager host path now writerSpawned text ticks).entries[k]? =
      applyCredits host (completeFile host f).entries[k]?
        (keyCredits (runCredits host ∅ ticks) k) := by
  rw [eager, openSync_eq host path now writerSpawned hparse,
    AppHistoryDb.observeAll_entries host rfl]
  rfl

theorem eager_names (k : Text) :
    (eager host path now writerSpawned text ticks).names[k]? =
      (f.names[k]?).or (firstName (rowsOf host ticks) k) := by
  rw [eager, openSync_eq host path now writerSpawned hparse,
    AppHistoryDb.observeAll_names host rfl]

theorem eager_iconPaths (k : Text) :
    (eager host path now writerSpawned text ticks).iconPaths[k]? =
      ((completeFile host f).iconPaths[k]?).or (firstIcon host (rowsOf host ticks) k) := by
  rw [eager, openSync_eq host path now writerSpawned hparse,
    AppHistoryDb.observeAll_iconPaths host rfl]

variable (hexact : host.Exact) (hno : NoOverflow host f ticks)
include hexact hno

/-- **The totals do not depend on the order.** -/
theorem deferred_entries_eq :
    (deferred host path now writerSpawned text ticks).entries =
      (eager host path now writerSpawned text ticks).entries := by
  refine OrdMap.ext fun k => ?_
  rw [deferred_entries host path now writerSpawned ticks hparse,
    eager_entries host path now writerSpawned ticks hparse]
  -- completing the file leaves its byte counts alone
  have hbytes : ((completeFile host f).entries[k]?.getD {}).networkBytes =
      (f.entries[k]?.getD {}).networkBytes := by
    simp only [completeFile, Std.ExtTreeMap.getElem?_map]
    cases f.entries[k]? <;> rfl
  rcases eq_or_ne (keyCredits (runCredits host ∅ ticks) k) [] with hcs | hcs
  · rw [hcs]
    rfl
  · obtain ⟨current, hcur, habs⟩ := applyCredits_absorb hexact
      (e := (completeFile host f).entries[k]?) hcs (by rw [hbytes]; exact hno k)
    rw [hcur]
    exact habs

/-- **Deferred load against eager load.**  In exact arithmetic and without overflow the two orders
leave the same history exactly when, under every key, the file and the first observed row do not
offer different names or different icon paths. -/
theorem deferred_eq_eager_iff :
    SameHistory (deferred host path now writerSpawned text ticks)
        (eager host path now writerSpawned text ticks) ↔
      ∀ k : Text, Agree f.names[k]? (firstName (rowsOf host ticks) k) ∧
        Agree (completeFile host f).iconPaths[k]? (firstIcon host (rowsOf host ticks) k) := by
  have hnames : (deferred host path now writerSpawned text ticks).names =
      (eager host path now writerSpawned text ticks).names ↔
        ∀ k : Text, Agree f.names[k]? (firstName (rowsOf host ticks) k) := by
    rw [OrdMap.ext_iff]
    refine forall_congr' fun k => ?_
    rw [deferred_names host path now writerSpawned ticks hparse,
      eager_names host path now writerSpawned ticks hparse, or_comm_iff_agree]
  have hicons : (deferred host path now writerSpawned text ticks).iconPaths =
      (eager host path now writerSpawned text ticks).iconPaths ↔
        ∀ k : Text, Agree (completeFile host f).iconPaths[k]?
          (firstIcon host (rowsOf host ticks) k) := by
    rw [OrdMap.ext_iff]
    refine forall_congr' fun k => ?_
    rw [deferred_iconPaths host path now writerSpawned ticks hparse,
      eager_iconPaths host path now writerSpawned ticks hparse, or_comm_iff_agree]
  constructor
  · rintro ⟨-, hn, hi⟩ k
    exact ⟨hnames.mp hn k, hicons.mp hi k⟩
  · intro h
    exact ⟨deferred_entries_eq host path now writerSpawned ticks hparse hexact hno,
      hnames.mpr fun k => (h k).1, hicons.mpr fun k => (h k).2⟩

end

/-- An application shown as `New`. -/
def newRow : ProcessEntry where
  pid := 7
  name := "app".toList
  display := "New".toList

/-- A file that knows the application under the name `name`. -/
def namedFile (name : Text) : DbFile where
  sinceEpochS := 0
  entries := ∅
  names := (∅ : OrdMap Text Text).insert (entryKey newRow) name
  iconPaths := ∅

/-- A host on which every text is such a file. -/
def namedHost (name : Text) : HistoryHost where
  windows := true
  isAbsolute _ := false
  parseDb _ := some (namedFile name)
  round := id

/-- One tick that shows the application. -/
def newTick : List (Snapshot × ℚ) := [({ processes := [newRow] }, 1)]

theorem noOverflow_newTick (name : Text) :
    NoOverflow (namedHost name) (namedFile name) newTick := by
  intro k
  have hrun : runCredits (namedHost name) ∅ newTick = [(entryKey newRow, ⟨false, 0, 0⟩)] := rfl
  rw [hrun]
  by_cases hk : entryKey newRow = k <;> simp [keyCredits, namedFile, hk]

/-- The file's name is replaced in one order and kept in the other. -/
theorem deferred_ne_eager :
    ¬ ∀ (host : HistoryHost) (path : Text) (now : ℤ) (writerSpawned : Bool) (text : Text)
      (f : DbFile) (ticks : List (Snapshot × ℚ)), host.parseDb text = some f → host.Exact →
      NoOverflow host f ticks → SameHistory (deferred host path now writerSpawned text ticks)
        (eager host path now writerSpawned text ticks) := by
  intro h
  have hsame := h (namedHost "Old".toList) [] 0 true [] (namedFile "Old".toList) newTick rfl
    rfl (noOverflow_newTick _)
  have hname := congrArg (fun m : OrdMap Text Text => m["app".toList]?) hsame.names
  revert hname
  decide +kernel

/-- A file that already has the name the first row shows. -/
theorem deferred_eq_eager_iff_new :
    SameHistory (deferred (namedHost "New".toList) [] 0 true [] newTick)
      (eager (namedHost "New".toList) [] 0 true [] newTick) := by
  have hparse : (namedHost "New".toList).parseDb [] = some (namedFile "New".toList) := rfl
  refine (deferred_eq_eager_iff (namedHost "New".toList) [] 0 true newTick hparse
    rfl (noOverflow_newTick _)).mpr ?_
  have hrows : rowsOf (namedHost "New".toList) newTick = [newRow] := rfl
  rw [hrows]
  intro k
  obtain rfl | hk := eq_or_ne (entryKey newRow) k
  · decide +kernel
  · simp [Agree, firstName, firstIcon, hk]

end Taskman
