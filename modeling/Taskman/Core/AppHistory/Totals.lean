import Taskman.Core.AppHistory.Credit
import Taskman.Core.AppHistory.Merge
import Taskman.LTS.Machine

/-!
# Sums of the history that do not fit

The counters of a row are added up, and what they advanced is added to the total of the row's key.
Both sums are plain, while totals from the file are merged with a saturating one.

* `RowFits`, `LoopFits` : the sums of one turn, and of the loop over a snapshot, are `u64`s;
* `loopFits_iff` : **those of the loop are exactly where the counters of each row add up to a `u64`
  and each total has room for all that the snapshot credits to its key**;
* `HistoryRun.run_sound_iff` : so no sum of a run overflows, and no total decreases, exactly while
  every snapshot leaves that room.
-/

namespace Taskman

/-! ### One key -/

/-- The credit is added to its key's totals at all. -/
def Credit.Counts (c : Credit) : Prop := c.cpu > 1 / 1000000 ∨ c.net > 0

/-- A total has room for a list of credits, if any of them is added. -/
def HasRoom (total : ℕ) (cs : List Credit) : Prop :=
  (∃ c ∈ cs, c.Counts) → total + (cs.map Credit.net).sum < u64Bound

instance (c : Credit) : Decidable c.Counts :=
  inferInstanceAs (Decidable (c.cpu > 1 / 1000000 ∨ c.net > 0))

instance (total : ℕ) (cs : List Credit) : Decidable (HasRoom total cs) :=
  inferInstanceAs (Decidable ((∃ c ∈ cs, c.Counts) → total + (cs.map Credit.net).sum < u64Bound))

/-- Only the keys that are credited need room. -/
theorem forall_hasRoom_iff (total : Text → ℕ) (cs : List (Text × Credit)) :
    (∀ k, HasRoom (total k) (keyCredits cs k)) ↔
      ∀ c ∈ cs, HasRoom (total c.1) (keyCredits cs c.1) := by
  refine ⟨fun h c _ => h c.1, fun h k hcounts => ?_⟩
  obtain ⟨c, hc, -⟩ := id hcounts
  obtain ⟨c, hmem, -⟩ := List.mem_map.mp hc
  obtain ⟨hin, hkey⟩ := List.mem_filter.mp hmem
  obtain rfl : c.1 = k := of_decide_eq_true hkey
  exact h c hin hcounts

theorem Credit.net_eq_zero {c : Credit} (h : ¬ c.Counts) : c.net = 0 := by
  unfold Counts at h
  omega

theorem sum_net_eq_zero {cs : List Credit} (h : ¬ ∃ c ∈ cs, c.Counts) :
    (cs.map Credit.net).sum = 0 := by
  refine List.sum_eq_zero fun n hn => ?_
  obtain ⟨c, hc, rfl⟩ := List.mem_map.mp hn
  exact Credit.net_eq_zero fun hcounts => h ⟨c, hc, hcounts⟩

theorem networkBytes_credit_of_not {host : HistoryHost} {e : AppUsage} {c : Credit}
    (h : ¬ c.Counts) :
    (e.credit host c.available c.cpu c.net).networkBytes = e.networkBytes := by
  unfold AppUsage.credit
  split_ifs with hcounts
  · exact absurd hcounts h
  · rfl

/-- Room for one more credit is room for its sum, and then for the others. -/
theorem hasRoom_cons (host : HistoryHost) (e : AppUsage) (c : Credit) (cs : List Credit) :
    HasRoom e.networkBytes (c :: cs) ↔
      (c.Counts → e.networkBytes + c.net < u64Bound) ∧
        HasRoom (e.credit host c.available c.cpu c.net).networkBytes cs := by
  unfold HasRoom
  rw [List.map_cons, List.sum_cons]
  by_cases hc : c.Counts
  · constructor
    · intro h
      have hsum := h ⟨c, List.mem_cons_self, hc⟩
      have hfits : e.networkBytes + c.net < u64Bound := by omega
      rw [credit_networkBytes_add hfits]
      exact ⟨fun _ => hfits, fun _ => by omega⟩
    · rintro ⟨hfits, hrest⟩ -
      rw [credit_networkBytes_add (hfits hc)] at hrest
      by_cases hmore : ∃ c ∈ cs, c.Counts
      · have hsum := hrest hmore
        omega
      · rw [sum_net_eq_zero hmore]
        exact hfits hc
  · rw [networkBytes_credit_of_not hc, Credit.net_eq_zero hc, Nat.zero_add]
    constructor
    · exact fun h => ⟨fun hcounts => absurd hcounts hc,
        fun ⟨d, hd, hcounts⟩ => h ⟨d, List.mem_cons_of_mem c hd, hcounts⟩⟩
    · rintro ⟨-, hrest⟩ ⟨d, hd, hcounts⟩
      rcases List.mem_cons.mp hd with rfl | hd
      · exact absurd hcounts hc
      · exact hrest ⟨d, hd, hcounts⟩

/-- Credits that there is room for never lower a total. -/
theorem le_applyCredits {host : HistoryHost} {e : Option AppUsage} {cs : List Credit}
    (h : HasRoom (e.getD {}).networkBytes cs) :
    (e.getD {}).networkBytes ≤ ((applyCredits host e cs).getD {}).networkBytes := by
  induction cs generalizing e with
  | nil => exact le_rfl
  | cons c cs ih =>
    obtain ⟨hfits, hrest⟩ := (hasRoom_cons host (e.getD {}) c cs).mp h
    refine le_trans ?_ (ih (e := some ((e.getD {}).credit host c.available c.cpu c.net)) hrest)
    rw [Option.getD_some]
    by_cases hc : c.Counts
    · rw [credit_networkBytes_add (hfits hc)]
      exact Nat.le_add_right _ _
    · rw [networkBytes_credit_of_not hc]

/-! ### One snapshot -/

/-- The counters of a row add up to a `u64`. -/
def PairFits (p : ProcessEntry) : Prop :=
  ∀ r ∈ p.netRecvTotal, ∀ s ∈ p.netSentTotal, r + s < u64Bound

instance (p : ProcessEntry) : Decidable (PairFits p) :=
  inferInstanceAs (Decidable (∀ r ∈ p.netRecvTotal, ∀ s ∈ p.netSentTotal, r + s < u64Bound))

section Loop

variable (host : HistoryHost) (prevMap : OrdMap ℕ PrevTick) (cores : ℕ) (interval : ℚ)

/-- Neither sum of one turn of the loop overflows: that of the row's counters, and that of the
key's total with the row's credit where this is added. -/
structure RowFits (acc : ObserveAcc) (p : ProcessEntry) : Prop where
  pair : PairFits p
  credit : (creditOf host prevMap[p.pid]? cores interval p).Counts →
    (acc.entries[entryKey p]?.getD {}).networkBytes +
      (creditOf host prevMap[p.pid]? cores interval p).net < u64Bound

/-- No sum of the loop overflows. -/
def LoopFits : ObserveAcc → List ProcessEntry → Prop
  | _, [] => True
  | acc, p :: ps =>
    (historyEligible p.category host.windows = true → RowFits host prevMap cores interval acc p) ∧
      LoopFits (observeRow host prevMap cores interval acc p) ps

variable {host prevMap cores interval}

/-- Room for all credits of the rows is room for the first row's, and then for the others. -/
theorem hasRoom_cons_rows {acc : ObserveAcc} {p : ProcessEntry}
    (hp : historyEligible p.category host.windows = true) (rows : List ProcessEntry) :
    (∀ k : Text, HasRoom (acc.entries[k]?.getD {}).networkBytes
      (keyCredits (rowCredits host prevMap cores interval (p :: rows)) k)) ↔
      ((creditOf host prevMap[p.pid]? cores interval p).Counts →
        (acc.entries[entryKey p]?.getD {}).networkBytes +
          (creditOf host prevMap[p.pid]? cores interval p).net < u64Bound) ∧
      ∀ k : Text, HasRoom
        ((observeRow host prevMap cores interval acc p).entries[k]?.getD {}).networkBytes
        (keyCredits (rowCredits host prevMap cores interval rows) k) := by
  have hown : keyCredits (rowCredits host prevMap cores interval (p :: rows)) (entryKey p) =
      creditOf host prevMap[p.pid]? cores interval p ::
        keyCredits (rowCredits host prevMap cores interval rows) (entryKey p) := by
    simp [rowCredits, keyCredits]
  have hothers : ∀ k, entryKey p ≠ k →
      keyCredits (rowCredits host prevMap cores interval (p :: rows)) k =
        keyCredits (rowCredits host prevMap cores interval rows) k := by
    intro k hk
    simp [rowCredits, keyCredits, hk]
  constructor
  · intro h
    obtain ⟨hfits, hrest⟩ := (hasRoom_cons host _ _ _).mp (hown ▸ h (entryKey p))
    refine ⟨hfits, fun k => ?_⟩
    rw [observeRow_entries _ _ _ _ hp]
    split_ifs with hk
    · exact hk ▸ hrest
    · exact hothers k hk ▸ h k
  · rintro ⟨hfits, hrest⟩ k
    have hk' := hrest k
    rw [observeRow_entries _ _ _ _ hp] at hk'
    split_ifs at hk' with hk
    · subst hk
      rw [hown]
      exact (hasRoom_cons host _ _ _).mpr ⟨hfits, hk'⟩
    · rw [hothers k hk]
      exact hk'

/-- **No sum of the loop overflows exactly where the counters of each row add up to a `u64` and each
total has room for all that is credited to its key.** -/
theorem loopFits_iff (rows : List ProcessEntry) (acc : ObserveAcc) :
    LoopFits host prevMap cores interval acc rows ↔
      (∀ p ∈ rows.filter fun p => historyEligible p.category host.windows, PairFits p) ∧
        ∀ k : Text, HasRoom (acc.entries[k]?.getD {}).networkBytes
          (keyCredits (rowCredits host prevMap cores interval
            (rows.filter fun p => historyEligible p.category host.windows)) k) := by
  induction rows generalizing acc with
  | nil => simp [LoopFits, HasRoom, rowCredits, keyCredits]
  | cons p rows ih =>
    rw [LoopFits, ih, List.filter_cons]
    cases hp : historyEligible p.category host.windows with
    | false =>
      have hsame : observeRow host prevMap cores interval acc p = acc := by simp [observeRow, hp]
      simp [hsame]
    | true =>
      rw [if_pos rfl, List.forall_mem_cons, hasRoom_cons_rows hp]
      constructor
      · rintro ⟨hrow, hpairs, hrooms⟩
        exact ⟨⟨(hrow rfl).pair, hpairs⟩, (hrow rfl).credit, hrooms⟩
      · rintro ⟨⟨hpair, hpairs⟩, hcredit, hrooms⟩
        exact ⟨fun _ => ⟨hpair, hcredit⟩, hpairs, hrooms⟩

end Loop

/-- What is credited to a `u64` leaves a `u64`. -/
theorem applyCredits_lt {host : HistoryHost} {e : Option AppUsage}
    (h : (e.getD {}).networkBytes < u64Bound) (cs : List Credit) :
    ((applyCredits host e cs).getD {}).networkBytes < u64Bound := by
  induction cs generalizing e with
  | nil => exact h
  | cons c cs ih =>
    refine ih (e := some ((e.getD {}).credit host c.available c.cpu c.net)) ?_
    rw [Option.getD_some, AppUsage.credit]
    split_ifs
    · exact Nat.mod_lt _ (by decide)
    · exact h

/-! ### Runs -/

/-- How a history is opened. -/
inductive HistoryOpening where
  | inMemory (now : ℤ)
  | openSync (path : Text) (now : ℤ) (writerSpawned : Bool) (text : Option Text)
  | openDeferred (path : Text) (now : ℤ) (writerSpawned loaderSpawned : Bool)

/-- An operation on it. -/
inductive HistoryCall where
  | observe (snap : Snapshot) (interval : ℚ)
  | pollLoad (timedOut : Bool) (poll : LoadPoll)
  | saveAsync
  | save
  | clear (now : ℤ)

namespace HistoryRun

variable (host : HistoryHost)

/-- The history as it is opened. -/
def start : HistoryOpening → AppHistoryDb
  | .inMemory now => AppHistoryDb.inMemory now
  | .openSync path now writerSpawned text =>
    (AppHistoryDb.openSync host path now writerSpawned text).1
  | .openDeferred path now writerSpawned loaderSpawned =>
    AppHistoryDb.openDeferred path now writerSpawned loaderSpawned

/-- The history after a call. -/
def next (db : AppHistoryDb) : HistoryCall → AppHistoryDb
  | .observe snap interval => db.observe host snap interval
  | .pollLoad timedOut poll => (db.pollLoad host timedOut poll).1
  | .saveAsync => db.saveAsync.1
  | .save => db.save.1
  | .clear now => (db.clear now).1

/-- A call as a step of a run. -/
def step (db : AppHistoryDb) (call : HistoryCall) : Option AppHistoryDb := some (next host db call)

/-- No key's bytes become fewer. -/
def NeverLess (db db' : AppHistoryDb) : Prop :=
  ∀ k : Text, (db.usage k).networkBytes ≤ (db'.usage k).networkBytes

/-- The database takes snapshots. -/
def Observes (db : AppHistoryDb) : Prop := (db.loading && !db.observing) = false

/-- No sum of an observation overflows, and no key's bytes become fewer.  The sums of a merge
saturate, and a wipe is meant to lower the totals. -/
def Sound (db : AppHistoryDb) : HistoryCall → Prop
  | .observe snap interval =>
    (Observes db → LoopFits host db.prev snap.cpu.logicalCount interval
      ⟨db.entries, db.names, db.iconPaths, ∅⟩ snap.processes) ∧
        NeverLess db (db.observe host snap interval)
  | .clear _ => True
  | call => NeverLess db (next host db call)

/-- The counters of each row add up to a `u64`, and each total has room for all that the snapshot
credits to its key. -/
def Room (db : AppHistoryDb) : HistoryCall → Prop
  | .observe snap interval => Observes db →
    (∀ p ∈ eligibleRows host snap, PairFits p) ∧
      ∀ k : Text, HasRoom (db.usage k).networkBytes (keyCredits
        (rowCredits host db.prev snap.cpu.logicalCount interval (eligibleRows host snap)) k)
  | _ => True

instance (db : AppHistoryDb) (call : HistoryCall) : Decidable (Room host db call) :=
  match call with
  | .observe snap interval =>
    haveI := decidable_of_iff' _ (forall_hasRoom_iff (fun k => (db.usage k).networkBytes)
      (rowCredits host db.prev snap.cpu.logicalCount interval (eligibleRows host snap)))
    inferInstanceAs (Decidable ((db.loading && !db.observing) = false →
      (∀ p ∈ eligibleRows host snap, PairFits p) ∧
        ∀ k : Text, HasRoom (db.usage k).networkBytes (keyCredits
          (rowCredits host db.prev snap.cpu.logicalCount interval (eligibleRows host snap)) k)))
  | .pollLoad _ _ => isTrue trivial
  | .saveAsync => isTrue trivial
  | .save => isTrue trivial
  | .clear _ => isTrue trivial

/-- A database that waits for its file holds nothing, and one that has not seen it yet only what it
has credited itself. -/
structure Waiting (db : AppHistoryDb) : Prop where
  empty : (db.loading && !db.observing) = true → db.entries = ∅
  bounded : db.loading = true → ∀ k : Text, (db.usage k).networkBytes < u64Bound

theorem waiting_of_not_loading {db : AppHistoryDb} (h : db.loading = false) : Waiting db :=
  ⟨fun hwaits => by simp [h] at hwaits, fun hloading => absurd (h.symm.trans hloading) nofun⟩

theorem waiting_start (opening : HistoryOpening) : Waiting (start host opening) := by
  cases opening with
  | inMemory now => exact waiting_of_not_loading rfl
  | openSync path now writerSpawned text =>
    refine waiting_of_not_loading ?_
    cases text with
    | none => rfl
    | some text =>
      simp only [start, AppHistoryDb.openSync, AppHistoryDb.applyLoadedFile]
      split <;> rfl
  | openDeferred path now writerSpawned loaderSpawned =>
    cases loaderSpawned with
    | false => exact waiting_of_not_loading rfl
    | true =>
      refine ⟨fun _ => rfl, fun _ k => ?_⟩
      simp [start, AppHistoryDb.openDeferred, AppHistoryDb.inMemory, AppHistoryDb.usage]

variable {host} {db : AppHistoryDb}

theorem usage_observe (h : Observes db) (snap : Snapshot) (interval : ℚ) (k : Text) :
    (db.observe host snap interval).usage k =
      (applyCredits host db.entries[k]? (keyCredits
        (rowCredits host db.prev snap.cpu.logicalCount interval (eligibleRows host snap))
        k)).getD {} := by
  rw [AppHistoryDb.usage, AppHistoryDb.observe_of_active host h]
  exact congrArg (Option.getD · {}) (foldl_observeRow_entries _ eligible_of_mem _ k)

theorem loading_finishLoad (db : AppHistoryDb) : db.finishLoad.1.loading = false := by
  simp only [AppHistoryDb.finishLoad, AppHistoryDb.enqueueSave]
  split <;> rfl

theorem enqueueSave_keeps (db : AppHistoryDb) :
    db.enqueueSave.1.loading = db.loading ∧ db.enqueueSave.1.observing = db.observing ∧
      db.enqueueSave.1.entries = db.entries := by
  unfold AppHistoryDb.enqueueSave
  split <;> exact ⟨rfl, rfl, rfl⟩

theorem fst_save (db : AppHistoryDb) : db.save.1 = db.enqueueSave.1 := by
  unfold AppHistoryDb.save
  dsimp only
  split <;> rfl

theorem entries_finishLoad (db : AppHistoryDb) : db.finishLoad.1.entries = db.entries := by
  simp only [AppHistoryDb.finishLoad]
  split
  · exact (enqueueSave_keeps _).2.2
  · rfl

theorem neverLess_of_entries_eq {db' : AppHistoryDb} (h : db'.entries = db.entries) :
    NeverLess db db' := by
  intro k
  rw [AppHistoryDb.usage, AppHistoryDb.usage, h]

/-- A file that is adopted adds to what was credited while it was read. -/
theorem neverLess_adopt (host : HistoryHost) (h : Waiting db) (hloading : db.loading = true)
    (f : DbFile) :
    NeverLess db (db.adopt host f) := by
  intro k
  unfold AppHistoryDb.adopt
  cases hobserving : db.observing with
  | false =>
    have hempty : db.entries = ∅ := h.empty (by simp [hloading, hobserving])
    simp [AppHistoryDb.usage, hempty]
  | true =>
    have hbound := h.bounded hloading k
    simp only [if_true, AppHistoryDb.usage, AppHistoryDb.mergeObserved_entries] at hbound ⊢
    cases hk : db.entries[k]? with
    | none => exact Nat.zero_le _
    | some current =>
      rw [hk, Option.getD_some] at hbound
      simp only [Option.getD_some, AppUsage.absorb, saturatingAdd]
      omega

/-- What a poll leaves: the file is adopted or nothing happens to the totals, and the load is over
or goes on as before. -/
theorem pollLoad_cases (host : HistoryHost) (db : AppHistoryDb) (timedOut : Bool)
    (poll : LoadPoll) :
    ((db.pollLoad host timedOut poll).1.entries = db.entries ∨
      db.loading = true ∧ ∃ f, (db.pollLoad host timedOut poll).1.entries =
        (db.adopt host f).entries) ∧
    ((db.pollLoad host timedOut poll).1.loading = false ∨
      (db.pollLoad host timedOut poll).1.entries = db.entries ∧
        (db.loading = true ∧ (db.observing = true →
          (db.pollLoad host timedOut poll).1.observing = true))) := by
  unfold AppHistoryDb.pollLoad
  cases hloading : db.loading with
  | false => exact ⟨Or.inl rfl, Or.inl hloading⟩
  | true =>
    rw [if_neg (by decide)]
    cases hrx : db.loadRx with
    | false => exact ⟨Or.inl (entries_finishLoad db), Or.inl (loading_finishLoad db)⟩
    | true =>
      rw [if_neg (by decide)]
      cases poll with
      | received text =>
        refine ⟨?_, Or.inl (loading_finishLoad _)⟩
        dsimp only
        rw [entries_finishLoad]
        split
        · rename_i t path _ _
          unfold AppHistoryDb.applyLoadedFile
          split
          · rename_i f _
            exact Or.inr ⟨rfl, f, rfl⟩
          · exact Or.inl rfl
        · exact Or.inl rfl
      | empty =>
        cases timedOut with
        | false => exact ⟨Or.inl rfl, Or.inr ⟨rfl, rfl, fun h => h⟩⟩
        | true => exact ⟨Or.inl rfl, Or.inr ⟨rfl, rfl, fun _ => rfl⟩⟩
      | disconnected => exact ⟨Or.inl (entries_finishLoad db), Or.inl (loading_finishLoad db)⟩

theorem Waiting.of_entries {db' : AppHistoryDb} (h : Waiting db)
    (hloading : db'.loading = true → db.loading = true)
    (hobserving : db.observing = true → db'.observing = true)
    (hentries : db'.entries = db.entries) : Waiting db' := by
  constructor
  · intro hwaits
    rw [hentries]
    refine h.empty ?_
    cases hobs : db.observing with
    | false =>
      rw [Bool.and_eq_true] at hwaits
      rw [hloading hwaits.1]
      rfl
    | true => simp [hobserving hobs] at hwaits
  · intro hloading' k
    rw [AppHistoryDb.usage, hentries]
    exact h.bounded (hloading hloading') k

theorem Waiting.observe (h : Waiting db) (snap : Snapshot) (interval : ℚ) :
    Waiting (db.observe host snap interval) := by
  by_cases hobserves : Observes db
  · have hkeeps := AppHistoryDb.observe_active host hobserves snap interval
    constructor
    · intro hwaits
      rw [hkeeps] at hwaits
      cases hwaits
    · intro hloading k
      rw [usage_observe hobserves]
      refine applyCredits_lt (h.bounded ?_ k) _
      obtain ⟨entries, names, iconPaths, prev, hframe⟩ := db.observe_frame host snap interval
      rw [hframe] at hloading
      exact hloading
  · have hsame : db.observe host snap interval = db := by
      unfold Observes at hobserves
      rw [AppHistoryDb.observe, if_pos (by simpa using hobserves)]
    rw [hsame]
    exact h

theorem Waiting.enqueueSave (h : Waiting db) : Waiting db.enqueueSave.1 := by
  obtain ⟨hloading, hobserving, hentries⟩ := enqueueSave_keeps db
  exact h.of_entries (fun hl => hloading ▸ hl) (fun ho => hobserving.trans ho) hentries

/-- **Every operation leaves a database that waits for its file as one should.** -/
theorem Waiting.next (h : Waiting db) (call : HistoryCall) : Waiting (next host db call) := by
  cases call with
  | observe snap interval => exact h.observe snap interval
  | pollLoad timedOut poll =>
    obtain ⟨-, hdone | ⟨hentries, hloading, hobserving⟩⟩ :=
      pollLoad_cases host db timedOut poll
    · exact waiting_of_not_loading hdone
    · exact h.of_entries (fun _ => hloading) hobserving hentries
  | saveAsync => exact h.enqueueSave
  | save =>
    rw [HistoryRun.next, fst_save]
    exact h.enqueueSave
  | clear now =>
    refine waiting_of_not_loading ?_
    unfold HistoryRun.next AppHistoryDb.clear
    exact (enqueueSave_keeps _).1

/-- **One operation is sound exactly where it has room.** -/
theorem Waiting.sound_iff (h : Waiting db) (call : HistoryCall) :
    Sound host db call ↔ Room host db call := by
  cases call with
  | observe snap interval =>
    have hsums : Sound host db (.observe snap interval) ↔
        (Room host db (.observe snap interval) ∧ NeverLess db (db.observe host snap interval)) :=
      and_congr_left fun _ => imp_congr_right fun _ => loopFits_iff _ _
    rw [hsums, and_iff_left_iff_imp]
    intro hroom
    by_cases hobserves : Observes db
    · intro k
      rw [usage_observe hobserves]
      exact le_applyCredits ((hroom hobserves).2 k)
    · refine neverLess_of_entries_eq ?_
      unfold Observes at hobserves
      rw [AppHistoryDb.observe, if_pos (by simpa using hobserves)]
  | pollLoad timedOut poll =>
    refine iff_of_true ?_ trivial
    obtain ⟨hentries | ⟨hloading, f, hadopted⟩, -⟩ :=
      pollLoad_cases host db timedOut poll
    · exact neverLess_of_entries_eq hentries
    · intro k
      refine (neverLess_adopt host h hloading f k).trans_eq ?_
      simp only [AppHistoryDb.usage, HistoryRun.next, hadopted]
  | saveAsync => exact iff_of_true (neverLess_of_entries_eq (enqueueSave_keeps db).2.2) trivial
  | save =>
    refine iff_of_true (neverLess_of_entries_eq ?_) trivial
    rw [HistoryRun.next, fst_save]
    exact (enqueueSave_keeps db).2.2
  | clear now => exact Iff.rfl

/-- **No sum of a run overflows and no total decreases, exactly while every snapshot finds counters
that add up to a `u64` and totals with room for what it credits.** -/
theorem run_sound_iff (host : HistoryHost) (opening : HistoryOpening) (calls : List HistoryCall) :
    Machine.Along (step host) (Sound host) (start host opening) calls ↔
      Machine.Along (step host) (Room host) (start host opening) calls :=
  Machine.along_iff_of_invariant (A := fun _ => True) (I := Waiting)
    (fun _ call _ hI _ hstep => Option.some.inj hstep ▸ hI.next call)
    (fun _ call hI _ => hI.sound_iff call) (waiting_start host opening) fun _ _ => trivial

/-! ### A total from the file -/

/-- An application that has received and sent some bytes. -/
def busyRow (received : ℕ) : ProcessEntry where
  pid := 7
  name := "app".toList
  netRecvTotal := some received
  netSentTotal := some 0

/-- A host on which every text is a file with a total of the application. -/
def fileHost (total : ℕ) : HistoryHost where
  windows := true
  isAbsolute _ := false
  parseDb _ := some
    { sinceEpochS := 0
      entries := (∅ : OrdMap Text AppUsage).insert (entryKey (busyRow 0)) { networkBytes := total }
      names := ∅
      iconPaths := ∅ }

/-- The file is loaded, and the application receives two bytes. -/
def twoMoreBytes : List HistoryCall :=
  [.observe { processes := [busyRow 0] } 1, .observe { processes := [busyRow 2] } 1]

/-- With the largest total in the file the sum overflows, and the total becomes one byte. -/
theorem not_sound_twoMoreBytes :
    ¬ Machine.Along (step (fileHost (u64Bound - 1))) (Sound (fileHost (u64Bound - 1)))
      (start (fileHost (u64Bound - 1)) (.openSync [] 0 true (some []))) twoMoreBytes := by
  rintro ⟨-, h⟩
  obtain ⟨⟨-, hless⟩, -⟩ := h _ rfl
  exact absurd (hless "app".toList) (by decide +kernel)

/-- With two bytes less in the file the total becomes the largest one. -/
theorem sound_twoMoreBytes :
    Machine.Along (step (fileHost (u64Bound - 3))) (Sound (fileHost (u64Bound - 3)))
      (start (fileHost (u64Bound - 3)) (.openSync [] 0 true (some []))) twoMoreBytes :=
  (run_sound_iff (fileHost (u64Bound - 3)) _ twoMoreBytes).mpr (by decide +kernel)

end HistoryRun

end Taskman
