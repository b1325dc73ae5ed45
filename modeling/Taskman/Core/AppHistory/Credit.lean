import Taskman.Core.AppHistory
import Taskman.Metering.Ledger
import Mathlib.Algebra.Order.Ring.Rat
import Mathlib.Algebra.Order.Group.Int

/-!
# What the history may credit

A process instance is a pid, a start time and an entry key.  The two cumulative counters of its
rows, network bytes and CPU seconds, are meters in the sense of `Metering.Ledger`, and the run of
`observe` is a bill drawn from their readings.

* `Meter` : one counter, with what the baseline map keeps of it and what the totals hold of it;
* `Meter.Tracks` : **the invariant**: a kept baseline is the last reading of the instance it is
  kept for;
* `Meter.foldl_observeRow_le` : one snapshot keeps the invariant and the bill;
* `observeAll_credit_le` : **over a run, every key is credited at most what the counters of its
  instances advanced while they were seen**.
-/

namespace Taskman

open Metering Metering.Ledger

/-- A process instance, as the history tells them apart: pid, start time and entry key. -/
abbrev Instance := ℕ × Option ℤ × Text

/-- What tells two processes of one pid apart. -/
def instanceOf (p : ProcessEntry) : Instance := (p.pid, p.startEpochS, entryKey p)

/-- The row carries no rate a delta could be taken from. -/
structure NoRates (p : ProcessEntry) : Prop where
  cpu : p.cpuPct ≤ 0
  recv : p.netRecvBps = none
  sent : p.netSentBps = none

instance (p : ProcessEntry) : Decidable (NoRates p) :=
  decidable_of_iff (p.cpuPct ≤ 0 ∧ p.netRecvBps = none ∧ p.netSentBps = none)
    ⟨fun ⟨hc, hr, hs⟩ => ⟨hc, hr, hs⟩, fun ⟨hc, hr, hs⟩ => ⟨hc, hr, hs⟩⟩

/-- The received and sent bytes of a row together, before `u64` arithmetic. -/
def netReading (p : ProcessEntry) : Option ℤ :=
  match p.netRecvTotal, p.netSentTotal with
  | some r, some s => some ((r + s : ℕ) : ℤ)
  | _, _ => none

/-- The readings of one counter in a list of rows. -/
def readings {α : Type*} (read : ProcessEntry → Option α) (rows : List ProcessEntry) :
    Ledger Instance α :=
  rows.filterMap fun p => (read p).map fun v => (instanceOf p, v)

/-- The totals of a key; zero when it has no entry. -/
def AppHistoryDb.usage (db : AppHistoryDb) (k : Text) : AppUsage := db.entries[k]?.getD {}

/-! ### One counter -/

section Meter

variable {α β : Type*} [AddCommGroup α] [LinearOrder α] [IsOrderedAddMonoid α]

/-- `kept`, the value the baseline map holds of a counter, is that of the last reading of `i`. -/
def Baseline (shown : α → β) (kept : Option β) (rs : Ledger Instance α) (i : Instance) : Prop :=
  ∀ w, kept = some w → ∃ v, latest rs i = some v ∧ shown v = w

/-- The previous tick of pid `i.1`, where it is a tick of the instance `i`. -/
def tickOf (prev : Option PrevTick) (i : Instance) : Option PrevTick :=
  prev.filter fun t => (t.startEpochS, t.appIdentity) = i.2

/-- A cumulative counter of the process rows. -/
structure Meter (host : HistoryHost) (α β : Type*) [AddCommGroup α] [LinearOrder α] where
  /-- The counter of a row. -/
  read : ProcessEntry → Option α
  /-- What the baseline map keeps of it. -/
  kept : PrevTick → Option β
  /-- How a reading is kept. -/
  shown : α → β
  /-- What an entry has been credited of it. -/
  amount : AppUsage → α
  kept_prevTickOf : ∀ p, kept (prevTickOf p) = (read p).map shown
  /-- A row without rates is credited an amount that its reading covers. -/
  covered : ∀ (e : AppUsage) (prev : Option PrevTick) (cores : ℕ) (interval : ℚ)
    (p : ProcessEntry) (rs : Ledger Instance α), NoRates p →
    Baseline shown ((tickOf prev (instanceOf p)).bind kept) rs (instanceOf p) →
    Nondecreasing (rs ++ readings read [p]) →
    ∃ c, amount (e.creditRow host prev cores interval p) ≤ amount e + c ∧
      Covered rs (instanceOf p) (read p) c

namespace Meter

variable {host : HistoryHost} (M : Meter host α β)

/-- Whatever the map keeps for the instance `i` is its last reading. -/
def Tracks (prev : OrdMap ℕ PrevTick) (rs : Ledger Instance α) (i : Instance) : Prop :=
  Baseline M.shown ((tickOf prev[i.1]? i).bind M.kept) rs i

variable {M}

omit [IsOrderedAddMonoid α] in
/-- A reading of another instance does not disturb a baseline. -/
theorem Tracks.append {prev : OrdMap ℕ PrevTick} {rs : Ledger Instance α} {i : Instance}
    (h : M.Tracks prev rs i) {p : ProcessEntry} (hne : instanceOf p ≠ i) :
    M.Tracks prev (rs ++ readings M.read [p]) i := by
  intro w hw
  obtain ⟨v, hv, hs⟩ := h w hw
  refine ⟨v, ?_, hs⟩
  cases hr : M.read p with
  | none => simpa [readings, hr] using hv
  | some u => simpa [readings, hr, latest_append, hne] using hv

omit [IsOrderedAddMonoid α] in
/-- A row's own tick is tracked by the ledger that ends with its reading. -/
theorem tracks_insert {prev : OrdMap ℕ PrevTick} {cores : ℕ} {interval : ℚ}
    {acc : ObserveAcc} {p : ProcessEntry} (he : historyEligible p.category host.windows = true)
    {rs : Ledger Instance α} (h : ∀ i, M.Tracks acc.nextPrev rs i) (i : Instance) :
    M.Tracks (observeRow host prev cores interval acc p).nextPrev
      (rs ++ readings M.read [p]) i := by
  by_cases hi : instanceOf p = i
  · subst hi
    intro w hw
    have hp : tickOf (some (prevTickOf p)) (instanceOf p) = some (prevTickOf p) := by
      simp [tickOf, prevTickOf, instanceOf]
    rw [observeRow_nextPrev _ _ _ _ he, instanceOf, if_pos rfl, ← instanceOf, hp,
      Option.bind_some, M.kept_prevTickOf, Option.map_eq_some_iff] at hw
    obtain ⟨v, hv, hs⟩ := hw
    exact ⟨v, by simp [readings, hv, latest_append], hs⟩
  · by_cases hpid : p.pid = i.1
    · -- the pid now carries another instance: nothing is kept for `i`
      intro w hw
      have hp : tickOf (some (prevTickOf p)) i = none := by
        have hne : ¬ (p.startEpochS, entryKey p) = i.2 := by
          intro h2
          exact hi (Prod.ext hpid h2)
        simp [tickOf, prevTickOf, hne]
      rw [observeRow_nextPrev _ _ _ _ he, if_pos hpid, hp] at hw
      cases hw
    · have hold := (h i).append (p := p) hi
      unfold Tracks at hold ⊢
      rwa [observeRow_nextPrev _ _ _ _ he, if_neg hpid]

/-- The bill for key `k`: what the entries hold, less what the ledger pays for. -/
def Within (M : Meter host α β) (start : OrdMap Text AppUsage) (rs₀ : Ledger Instance α)
    (now : OrdMap Text AppUsage) (rs : Ledger Instance α) : Prop :=
  ∀ k : Text, M.amount (now[k]?.getD {}) + spreadSum rs₀ (fun i => i.2.2 = k) ≤
    M.amount (start[k]?.getD {}) + spreadSum rs (fun i => i.2.2 = k)

theorem Within.trans {a b c : OrdMap Text AppUsage} {rs ss ts : Ledger Instance α}
    (h : M.Within a rs b ss) (h' : M.Within b ss c ts) : M.Within a rs c ts := by
  intro k
  have h1 := h k
  have h2 := h' k
  have h3 := add_le_add h1 h2
  refine le_of_add_le_add_right (a := M.amount (b[k]?.getD {}) +
    spreadSum ss (fun i : Instance => i.2.2 = k)) ?_
  calc _ = _ := by abel
    _ ≤ _ := h3
    _ = _ := by abel

/-- One row keeps the bill. -/
theorem within_observeRow {prev : OrdMap ℕ PrevTick} {cores : ℕ} {interval : ℚ} {acc : ObserveAcc}
    {p : ProcessEntry} {rs : Ledger Instance α}
    (he : historyEligible p.category host.windows = true) (hrate : NoRates p)
    (hmono : Nondecreasing (rs ++ readings M.read [p])) (htr : M.Tracks prev rs (instanceOf p)) :
    M.Within acc.entries rs (observeRow host prev cores interval acc p).entries
      (rs ++ readings M.read [p]) := by
  intro k
  obtain ⟨c, hle, hc⟩ := M.covered (acc.entries[k]?.getD {}) prev[p.pid]? cores interval p rs
    hrate htr hmono
  have hcred : M.amount ((observeRow host prev cores interval acc p).entries[k]?.getD {}) ≤
      M.amount (acc.entries[k]?.getD {}) + if entryKey p = k then c else 0 := by
    rw [observeRow_entries _ _ _ _ he]
    split_ifs with hk
    · exact hle
    · rw [add_zero]
  refine (add_le_add_left hcred _).trans ?_
  rw [add_assoc, add_comm (ite _ _ _)]
  refine add_le_add_right ?_ _
  cases hr : M.read p with
  | none =>
    have hz : (if entryKey p = k then c else 0) ≤ 0 := by
      split_ifs
      · rcases hc with hc | ⟨v, w, hv, -⟩
        · exact hc
        · rw [hr] at hv
          cases hv
      · exact le_rfl
    simpa [readings, hr] using add_le_add_right hz (spreadSum rs fun i => i.2.2 = k)
  | some v =>
    have hread : readings M.read [p] = [(instanceOf p, v)] := by simp [readings, hr]
    rw [hread] at hmono ⊢
    exact add_le_spreadSum (fun i => i.2.2 = k) hmono (hr ▸ hc)

/-- **One snapshot.**  If every row's instance is tracked when the loop starts, the loop keeps the
bill and leaves a map that tracks every instance. -/
theorem foldl_observeRow_le (prev : OrdMap ℕ PrevTick) (cores : ℕ) (interval : ℚ)
    (rows : List ProcessEntry) (rs : Ledger Instance α) (acc : ObserveAcc)
    (he : ∀ p ∈ rows, historyEligible p.category host.windows = true)
    (hrate : ∀ p ∈ rows, NoRates p) (hnd : (rows.map instanceOf).Nodup)
    (hmono : Nondecreasing (rs ++ readings M.read rows))
    (hold : ∀ p ∈ rows, M.Tracks prev rs (instanceOf p)) (hnew : ∀ i, M.Tracks acc.nextPrev rs i) :
    (∀ i, M.Tracks (rows.foldl (observeRow host prev cores interval) acc).nextPrev
      (rs ++ readings M.read rows) i) ∧
    M.Within acc.entries rs (rows.foldl (observeRow host prev cores interval) acc).entries
      (rs ++ readings M.read rows) := by
  induction rows generalizing rs acc with
  | nil =>
    refine ⟨by simpa [readings] using hnew, ?_⟩
    simp [readings, Within]
  | cons p rows ih =>
    have hsplit : rs ++ readings M.read (p :: rows) =
        (rs ++ readings M.read [p]) ++ readings M.read rows := by
      cases hr : M.read p <;> simp [readings, hr]
    rw [hsplit] at hmono ⊢
    obtain ⟨hp, hnd⟩ := List.nodup_cons.mp hnd
    have hpe := he p List.mem_cons_self
    -- the rows still to come are of other instances
    have hold' : ∀ q ∈ rows, M.Tracks prev (rs ++ readings M.read [p]) (instanceOf q) := by
      intro q hq
      refine (hold q (List.mem_cons_of_mem p hq)).append ?_
      intro heq
      exact hp (heq ▸ List.mem_map_of_mem hq)
    obtain ⟨htr, hw⟩ := ih (rs ++ readings M.read [p])
      (observeRow host prev cores interval acc p)
      (fun q hq => he q (List.mem_cons_of_mem p hq))
      (fun q hq => hrate q (List.mem_cons_of_mem p hq)) hnd hmono hold' (tracks_insert hpe hnew)
    have hrow : M.Within acc.entries rs (observeRow host prev cores interval acc p).entries
        (rs ++ readings M.read [p]) :=
      within_observeRow hpe (hrate p List.mem_cons_self) hmono.of_append
        (hold p List.mem_cons_self)
    exact ⟨htr, hrow.trans hw⟩

/-- **A run** of snapshots whose counters do not run backwards keeps the bill. -/
theorem observeAll_le (ticks : List (Snapshot × ℚ)) (rs : Ledger Instance α) (db : AppHistoryDb)
    (hactive : (db.loading && !db.observing) = false)
    (hrate : ∀ p ∈ rowsOf host ticks, NoRates p)
    (hnd : ∀ tick ∈ ticks, ((eligibleRows host tick.1).map instanceOf).Nodup)
    (hmono : Nondecreasing (rs ++ readings M.read (rowsOf host ticks)))
    (htr : ∀ i, M.Tracks db.prev rs i) :
    M.Within db.entries rs (db.observeAll host ticks).entries
      (rs ++ readings M.read (rowsOf host ticks)) := by
  induction ticks generalizing rs db with
  | nil => simp [readings, rowsOf, Within, AppHistoryDb.observeAll]
  | cons tick ticks ih =>
    have hsplit : rs ++ readings M.read (rowsOf host (tick :: ticks)) =
        (rs ++ readings M.read (eligibleRows host tick.1)) ++
          readings M.read (rowsOf host ticks) := by
      simp [readings, rowsOf]
    rw [hsplit] at hmono ⊢
    have hrows : ∀ p ∈ eligibleRows host tick.1, p ∈ rowsOf host (tick :: ticks) := by
      intro p hp
      exact List.mem_flatMap.mpr ⟨tick, List.mem_cons_self, hp⟩
    obtain ⟨htr', hw⟩ := foldl_observeRow_le db.prev tick.1.cpu.logicalCount tick.2
      (eligibleRows host tick.1) rs
      ⟨db.entries, db.names, db.iconPaths, ∅⟩ eligible_of_mem
      (fun p hp => hrate p (hrows p hp)) (hnd tick List.mem_cons_self) hmono.of_append
      (fun p _ => htr (instanceOf p)) (fun i w hw => by simp [tickOf] at hw)
    rw [← foldl_eligibleRows] at htr' hw
    have hrest := ih (rs ++ readings M.read (eligibleRows host tick.1))
      (db.observe host tick.1 tick.2) (by simp [AppHistoryDb.observe, hactive])
      (fun p hp => hrate p (List.mem_append_right _ hp))
      (fun t ht => hnd t (List.mem_cons_of_mem tick ht)) hmono
      (by simpa [AppHistoryDb.observe, hactive] using htr')
    have hstep : M.Within db.entries rs (db.observe host tick.1 tick.2).entries
        (rs ++ readings M.read (eligibleRows host tick.1)) := by
      simpa [AppHistoryDb.observe, hactive] using hw
    exact hstep.trans hrest

end Meter

end Meter

/-! ### The two counters -/

theorem tickOf_eq_self {prev : Option PrevTick} {p : ProcessEntry}
    (h : sameProcess prev (entryKey p) p = true) : tickOf prev (instanceOf p) = prev := by
  cases prev with
  | none => rfl
  | some t =>
    simp only [sameProcess, Option.any_some, Bool.and_eq_true, decide_eq_true_eq] at h
    simp [tickOf, instanceOf, h.1, h.2]

theorem AppUsage.credit_networkBytes_le (e : AppUsage) (host : HistoryHost) (available : Bool)
    (dCpu : ℚ) (dNet : ℕ) :
    (e.credit host available dCpu dNet).networkBytes ≤ e.networkBytes + dNet := by
  unfold AppUsage.credit
  simp only
  split_ifs
  · exact wrappingAdd_le _ _
  · exact Nat.le_add_right _ _

theorem AppUsage.credit_cpuSeconds_le (e : AppUsage) {host : HistoryHost} (hexact : host.Exact)
    (available : Bool) {dCpu : ℚ} (dNet : ℕ) (h : 0 ≤ dCpu) :
    (e.credit host available dCpu dNet).cpuSeconds ≤ e.cpuSeconds + dCpu := by
  unfold AppUsage.credit
  rw [hexact]
  simp only [id]
  split_ifs
  · exact le_rfl
  · exact le_add_of_nonneg_right h

/-- Without rates, the bytes credited to a row are covered by its reading. -/
theorem netDelta_covered (host : HistoryHost) {prev : Option PrevTick} (interval : ℚ)
    {p : ProcessEntry} {rs : Ledger Instance ℤ} (hrate : NoRates p)
    (hb : Baseline (fun v : ℤ => v.toNat % u64Bound)
      ((tickOf prev (instanceOf p)).bind (·.netTotalBytes)) rs (instanceOf p))
    (hmono : Nondecreasing (rs ++ readings netReading [p])) :
    Covered rs (instanceOf p) (netReading p)
      (netDelta host prev (sameProcess prev (entryKey p) p) interval p : ℤ) := by
  cases hsame : sameProcess prev (entryKey p) p with
  | false => simp [netDelta, Covered]
  | true =>
    rw [tickOf_eq_self hsame] at hb
    cases hr : p.netRecvTotal with
    | none => simp [netDelta, Covered, netTotal, hr, hrate.recv, hrate.sent]
    | some r =>
      cases hs : p.netSentTotal with
      | none => simp [netDelta, Covered, netTotal, hr, hs, hrate.recv, hrate.sent]
      | some s =>
        have hread : netReading p = some ((r + s : ℕ) : ℤ) := by simp [netReading, hr, hs]
        cases hbefore : prev.bind (·.netTotalBytes) with
        | none =>
          left
          simp [netDelta, netTotal, hr, hs, hbefore, hrate.recv, hrate.sent]
        | some before =>
          obtain ⟨w, hw, hshown⟩ := hb before hbefore
          have hle : w ≤ ((r + s : ℕ) : ℤ) := by
            refine Nondecreasing.latest_le ?_ hw
            simpa [readings, hread] using hmono
          right
          refine ⟨_, w, hread, hw, ?_⟩
          simp only [netDelta, netTotal, hr, hs, hbefore, wrappingAdd, if_true]
          -- the wrapped difference is at most the true one
          subst hshown
          simp only [u64Bound] at *
          omega

/-- Without rates, the exact CPU seconds credited to a row are covered by its reading. -/
theorem cpuDelta_covered {host : HistoryHost} (hexact : host.Exact) {prev : Option PrevTick}
    (cores : ℕ) (interval : ℚ) {p : ProcessEntry} {rs : Ledger Instance ℚ} (hrate : NoRates p)
    (hb : Baseline id ((tickOf prev (instanceOf p)).bind (·.cpuTimeS)) rs (instanceOf p))
    (hmono : Nondecreasing (rs ++ readings (·.cpuTimeS) [p])) :
    Covered rs (instanceOf p) p.cpuTimeS
      (cpuDelta host prev (sameProcess prev (entryKey p) p) cores interval p) := by
  have hpct : ¬ 0 < p.cpuPct := not_lt.mpr hrate.cpu
  cases hsame : sameProcess prev (entryKey p) p with
  | false => simp [cpuDelta, Covered]
  | true =>
    rw [tickOf_eq_self hsame] at hb
    cases hnow : p.cpuTimeS with
    | none => simp [cpuDelta, Covered, hnow, hpct]
    | some now =>
      cases hbefore : prev.bind (·.cpuTimeS) with
      | none =>
        left
        simp [cpuDelta, hnow, hbefore, hpct]
      | some before =>
        obtain ⟨w, hw, rfl⟩ := hb before hbefore
        have hle : w ≤ now := by
          refine Nondecreasing.latest_le ?_ hw
          simpa [readings, hnow] using hmono
        right
        refine ⟨now, w, rfl, hw, ?_⟩
        simp only [cpuDelta, hnow, hbefore, if_true, show host.round = id from hexact, id]
        exact max_le le_rfl (sub_nonneg.mpr hle)

theorem cpuDelta_nonneg {host : HistoryHost} (hexact : host.Exact) (prev : Option PrevTick)
    (same : Bool) (cores : ℕ) (interval : ℚ) (p : ProcessEntry) :
    0 ≤ cpuDelta host prev same cores interval p := by
  have hi : 0 ≤ max interval 0 := le_max_right _ _
  unfold cpuDelta
  rw [hexact]
  cases same with
  | false => exact le_rfl
  | true =>
    simp only [if_true, id]
    split
    · exact le_max_right _ _
    · split_ifs with h
      · positivity
      · exact le_rfl

/-- The network byte counter. -/
def netMeter (host : HistoryHost) : Meter host ℤ ℕ where
  read := netReading
  kept := PrevTick.netTotalBytes
  shown v := v.toNat % u64Bound
  amount e := e.networkBytes
  kept_prevTickOf p := by
    simp only [prevTickOf, netTotal, netReading]
    cases p.netRecvTotal <;> cases p.netSentTotal <;> simp only [Option.map_none, Option.map_some]
    rw [Int.toNat_natCast, wrappingAdd]
  covered e prev cores interval p rs hrate hb hmono := by
    refine ⟨netDelta host prev (sameProcess prev (entryKey p) p) interval p, ?_,
      netDelta_covered host interval hrate hb hmono⟩
    exact_mod_cast e.credit_networkBytes_le host _ _ _

/-- The CPU time counter, in exact arithmetic. -/
def cpuMeter {host : HistoryHost} (hexact : host.Exact) : Meter host ℚ ℚ where
  read := ProcessEntry.cpuTimeS
  kept := PrevTick.cpuTimeS
  shown := id
  amount := AppUsage.cpuSeconds
  kept_prevTickOf p := by simp [prevTickOf]
  covered e prev cores interval p rs hrate hb hmono :=
    ⟨cpuDelta host prev (sameProcess prev (entryKey p) p) cores interval p,
      e.credit_cpuSeconds_le hexact _ _ (cpuDelta_nonneg hexact _ _ _ _ _),
      cpuDelta_covered hexact cores interval hrate hb hmono⟩

/-! ### The bound -/

/-- A run of `observe` in which counters do not run backwards and rows carry no rates. -/
structure CountedRun (host : HistoryHost) (ticks : List (Snapshot × ℚ)) : Prop where
  noRates : ∀ p ∈ rowsOf host ticks, NoRates p
  /-- A snapshot lists an instance once. -/
  distinct : ∀ tick ∈ ticks, ((eligibleRows host tick.1).map instanceOf).Nodup
  network : Nondecreasing (readings netReading (rowsOf host ticks))
  cpu : Nondecreasing (readings (·.cpuTimeS) (rowsOf host ticks))

/-- A run from a database without baselines credits one counter within its readings. -/
theorem Meter.usage_le {α β : Type*} [AddCommGroup α] [LinearOrder α] [IsOrderedAddMonoid α]
    {host : HistoryHost} (M : Meter host α β) {db : AppHistoryDb} {ticks : List (Snapshot × ℚ)}
    (hprev : db.prev = ∅) (hrate : ∀ p ∈ rowsOf host ticks, NoRates p)
    (hnd : ∀ tick ∈ ticks, ((eligibleRows host tick.1).map instanceOf).Nodup)
    (hmono : Nondecreasing (readings M.read (rowsOf host ticks))) (k : Text) :
    M.amount ((db.observeAll host ticks).usage k) ≤
      M.amount (db.usage k) +
        spreadSum (readings M.read (rowsOf host ticks)) (fun i => i.2.2 = k) := by
  cases hactive : db.loading && !db.observing with
  | true =>
    rw [AppHistoryDb.observeAll_of_waiting hactive]
    exact le_add_of_nonneg_right (spreadSum_nonneg _ hmono)
  | false =>
    have htr : ∀ i, M.Tracks db.prev [] i := by
      intro i w hw
      simp [hprev, tickOf] at hw
    have h := M.observeAll_le ticks [] db hactive hrate hnd
      (by simpa only [List.nil_append] using hmono) htr k
    simpa [AppHistoryDb.usage] using h

/-- **Usage is never charged twice.**  Over any run of snapshots that list each instance once and
whose cumulative counters do not run backwards, whatever rows come and go, the network bytes
credited to a key, and in exact arithmetic its CPU seconds, are at most what the counters of its
instances advanced between their first and last readings. -/
theorem observeAll_credit_le {host : HistoryHost} (db : AppHistoryDb)
    {ticks : List (Snapshot × ℚ)} (hprev : db.prev = ∅) (hrun : CountedRun host ticks) (k : Text) :
    (((db.observeAll host ticks).usage k).networkBytes : ℤ) ≤
        (db.usage k).networkBytes +
          spreadSum (readings netReading (rowsOf host ticks)) (fun i => i.2.2 = k) ∧
      (host.Exact → ((db.observeAll host ticks).usage k).cpuSeconds ≤
        (db.usage k).cpuSeconds +
          spreadSum (readings (·.cpuTimeS) (rowsOf host ticks)) (fun i => i.2.2 = k)) :=
  ⟨(netMeter host).usage_le hprev hrun.noRates hrun.distinct hrun.network k,
    fun hexact => (cpuMeter hexact).usage_le hprev hrun.noRates hrun.distinct hrun.cpu k⟩

/-- A Windows host; no path is absolute and no file parses. -/
def bareHost (round : ℚ → ℚ) : HistoryHost where
  windows := true
  isAbsolute _ := false
  parseDb _ := none
  round := round

/-- A row of pid 7. -/
def historyRow (start : ℤ) (net : Option ℕ) (cpu : Option ℚ) : ProcessEntry where
  pid := 7
  name := "app".toList
  startEpochS := some start
  netRecvTotal := net
  netSentTotal := net
  cpuTimeS := cpu

/-- A snapshot with one row of pid 7. -/
def oneRow (start : ℤ) (net : Option ℕ) (cpu : Option ℚ) : Snapshot where
  processes := [historyRow start net cpu]

/-- A reading, its successor, a gap, a return, and the pid taken over by a later process. -/
def gapRun : List (Snapshot × ℚ) :=
  [(oneRow 1 (some 10) (some 1), 1), (oneRow 1 (some 15) (some 2), 1), (oneRow 1 none none, 1),
    (oneRow 1 (some 40) (some 5), 1), (oneRow 2 (some 900) (some 8), 1)]

/-- Ten bytes and a second are credited, of the sixty bytes and four seconds of the first
instance. -/
theorem observeAll_credit_le_gapRun :
    let usage := ((AppHistoryDb.inMemory 0).observeAll (bareHost id) gapRun).usage "app".toList
    (usage.networkBytes = 10 ∧ (10 : ℤ) ≤ 0 +
        spreadSum (readings netReading (rowsOf (bareHost id) gapRun))
          (fun i => i.2.2 = "app".toList)) ∧
      usage.cpuSeconds = 1 ∧ (1 : ℚ) ≤ 0 +
        spreadSum (readings (·.cpuTimeS) (rowsOf (bareHost id) gapRun))
          (fun i => i.2.2 = "app".toList) := by
  intro usage
  have hrun : CountedRun (bareHost id) gapRun :=
    ⟨by decide +kernel, by decide +kernel, by decide +kernel, by decide +kernel⟩
  have hbytes : usage.networkBytes = 10 := by decide +kernel
  have hcpu : usage.cpuSeconds = 1 := by decide +kernel
  obtain ⟨hnet, hseconds⟩ := observeAll_credit_le (AppHistoryDb.inMemory 0) rfl hrun "app".toList
  have hseconds := hseconds rfl
  rw [show ((AppHistoryDb.inMemory 0).observeAll (bareHost id) gapRun).usage "app".toList = usage
    from rfl] at hnet hseconds
  rw [hbytes] at hnet
  rw [hcpu] at hseconds
  exact ⟨⟨hbytes, hnet⟩, hcpu, hseconds⟩

/-! ### Rounding, and rows that are listed twice -/

/-- CPU times of 0, 0.3 and 0.9 seconds, as `f64`s. -/
def decimalRun : List (Snapshot × ℚ) :=
  [(oneRow 1 none (some 0), 1), (oneRow 1 none (some (binary64.round (3 / 10))), 1),
    (oneRow 1 none (some (binary64.round (9 / 10))), 1)]

/-- The second snapshot lists the process twice, with five and with ten bytes more. -/
def doubledRun : List (Snapshot × ℚ) :=
  [(oneRow 1 (some 0) none, 1),
    ({ processes := [historyRow 1 (some 5) none, historyRow 1 (some 10) none] }, 1)]

/-- The sum of the two `f64` differences of `decimalRun` is more than its last reading; and
`doubledRun`, whose counters advance by twenty bytes, is credited thirty. -/
theorem credit_of_rounded_and_doubled :
    let host := bareHost binary64.round
    (CountedRun host decimalRun ∧
        spreadSum (readings (·.cpuTimeS) (rowsOf host decimalRun)) (fun i => i.2.2 = "app".toList) <
          (((AppHistoryDb.inMemory 0).observeAll host decimalRun).usage "app".toList).cpuSeconds) ∧
      ((∀ p ∈ rowsOf host doubledRun, NoRates p) ∧
          Nondecreasing (readings netReading (rowsOf host doubledRun))) ∧
        spreadSum (readings netReading (rowsOf host doubledRun)) (fun i => i.2.2 = "app".toList) <
          (((AppHistoryDb.inMemory 0).observeAll host doubledRun).usage
            "app".toList).networkBytes := by
  refine ⟨⟨⟨?_, ?_, ?_, ?_⟩, ?_⟩, ⟨?_, ?_⟩, ?_⟩ <;> decide +kernel

end Taskman
