import Taskman.Core.Model
import Taskman.LTS.Machine
import Taskman.Numeric.Rounding
import Taskman.Platform.Broker.Response
import Taskman.Platform.Sampler.Source
import Mathlib.Algebra.Order.Field.Basic
import Mathlib.Tactic.NormNum

/-!
# The network columns

A row's network rate is what its process's counters gained since the last known answer, divided by
the length of the last interval.  The baseline is thrown away while nobody wants the columns, but
neither when an answer is unknown nor when the next one comes from another source.

* `netTotals`, `applyProcessNetwork` : one tick of the columns;
* `NetTrace`, `NetTick` : the columns, with what every process really moves and when each baseline
  was sighted;
* `NetTrace.Counted` : a source reports what a process moved since the source began;
* `NetTrace.RatesCover` : the bytes of a rate fit into the interval it is shown for;
* `NetTrace.Fresh` : since its sighting a process moved no more than a later start of the source
  leaves out;
* `rates_cover` : **a run of fresh ticks shows covered rates only**, up to the rounding of a
  quotient.
-/

namespace Taskman.Sampler

/-! ### From counters to a row -/

/-- Cumulative bytes of one process. -/
structure PidBytes where
  received : ℕ := 0
  sent : ℕ := 0

/-- The bytes of each process since it was first seen. -/
abbrev NetTotals := OrdMap ℕ PidBytes

/-- One process's counters at the last known answer. -/
structure ProcNetSample where
  startEpochS : Option ℤ
  bytes : PidBytes

/-- The answer of the service as totals. -/
def sampleToMap (sample : Broker.ProcessNetworkSample) : NetTotals :=
  sample.entries.foldl (fun m entry =>
    m.insert entry.pid.toNat ⟨entry.received.toNat, entry.sent.toNat⟩) ∅

/-- The counters of a row in the answer of a tick. -/
def NetTotals.of (totals : NetTotals) (process : ProcessEntry) : PidBytes :=
  totals[process.pid]?.getD {}

/-- The kept counters of a row, if they are of the same process. -/
def previousOf (prev : ℕ → Option ProcNetSample) (process : ProcessEntry) : Option ProcNetSample :=
  (prev process.pid).filter fun prev => decide (prev.startEpochS = process.startEpochS)

/-- Bytes over an interval, each an `f64`. -/
def bytesPerSecond (interval : ℚ) (bytes : ℕ) : ℚ :=
  binary64.round (binary64.round bytes / interval)

/-- Saturating, so that a counter that restarts at zero yields no rate. -/
def netRate (interval : ℚ) (now before : ℕ) : ℚ := bytesPerSecond interval (now - before)

/-- A row with its network columns. -/
def networkRow (prev : ℕ → Option ProcNetSample) (totals : NetTotals) (interval : ℚ)
    (process : ProcessEntry) : ProcessEntry :=
  if process.synthetic then process
  else
    let bytes := totals.of process
    let (recvBps, sentBps) :=
      match previousOf prev process with
      | some prev =>
        (netRate interval bytes.received prev.bytes.received,
          netRate interval bytes.sent prev.bytes.sent)
      -- the totals are known, but a rate needs two points
      | none => (0, 0)
    { process with
      netRecvTotal := some bytes.received
      netSentTotal := some bytes.sent
      netRecvBps := some recvBps
      netSentBps := some sentBps }

/-- The counters kept for the next tick. -/
def keepTotals (totals : NetTotals) (processes : List ProcessEntry) : ℕ → Option ProcNetSample :=
  processes.foldl (fun next process =>
    if process.synthetic then next
    else Function.update next process.pid (some ⟨process.startEpochS, totals.of process⟩))
    fun _ => none

/-! ### One tick -/

section

-- every report is tagged by the source it comes from; no step reads the tag
variable {ι : Type*}

/-- The network answers of the service. -/
def netSamples : Samples (Broker.ProcessNetworkSample × ι) (NetTotals × ι) where
  active := fun sample => sample.1.active
  convert := fun sample => (sampleToMap sample.1, sample.2)

/-- What is answered from outside during one tick of the columns. -/
abbrev NetOutside (ι : Type*) := Outside (Broker.ProcessNetworkSample × ι) (NetTotals × ι)

/-- Only a service whose trace runs is chosen; a refusal is not routed around. -/
def probeNetSource (outside : NetOutside ι) (n : ℕ) : Source × Option (NetTotals × ι) :=
  let fallback := (if outside.starts then .localTrace else .unavailable outside.now, none)
  match outside.ask n with
  | .sample sample =>
    if netSamples.active sample then (.broker 0, some (netSamples.convert sample)) else fallback
  | .rejected => (.unavailable outside.now, none)
  | .unavailable => fallback

/-- What the columns keep between ticks. -/
structure NetState where
  source : Source := .undecided
  /-- Previous cumulative per-process byte counters, by pid. -/
  prevProcNet : ℕ → Option ProcNetSample := fun _ => none

/-- The counters of this tick, `none` when the answer is genuinely unknown. -/
def netTotals (s : NetState) (outside : NetOutside ι) : NetState × Option (NetTotals × ι) :=
  let polled := s.source.poll netSamples probeNetSource outside
  ({ source := polled.1, prevProcNet := if outside.demanded then s.prevProcNet else fun _ => none },
    polled.2)

/-- The rows with their network columns, and the totals kept for the next tick. -/
def applyProcessNetwork (s : NetState) (outside : NetOutside ι) (processes : List ProcessEntry)
    (interval : ℚ) : NetState × List ProcessEntry :=
  match netTotals s outside with
  | (s, none) => (s, processes)
  | (s, some (totals, _)) =>
    ({ s with prevProcNet := keepTotals totals processes },
      processes.map (networkRow s.prevProcNet totals interval))

/-- Forget processes that have ended. -/
def NetState.evict (s : NetState) (pids : List ℕ) : NetState :=
  { s with prevProcNet := fun pid => if pid ∈ pids then none else s.prevProcNet pid }

end

/-! ### What the processes really move -/

/-- The two directions bytes move in. -/
inductive Direction where
  | received
  | sent
  deriving DecidableEq

/-- The bytes in a direction. -/
def PidBytes.along (bytes : PidBytes) : Direction → ℕ
  | .received => bytes.received
  | .sent => bytes.sent

/-- The rate a row shows. -/
def netBps (row : ProcessEntry) : Direction → Option ℚ
  | .received => row.netRecvBps
  | .sent => row.netSentBps

/-- For each process, what it had moved when the source began to count it. -/
abbrev Since := ℕ → Direction → ℕ

/-- One tick of the sampler, as far as the columns go, and the interval before it. -/
structure NetTick where
  outside : NetOutside Since
  /-- The rows of the tick, in the order of enumeration. -/
  processes : List ProcessEntry
  /-- The pids that were found dead and left out. -/
  evicted : List ℕ
  /-- The length of the interval, in seconds. -/
  interval : ℚ
  /-- The process behind each pid. -/
  process : ℕ → ℕ
  /-- What each process moves during the interval. -/
  moves : ℕ → Direction → ℕ

/-- A process as a tick with an answer found it: what it had moved by then, and what it had moved
when the source of that answer began to count it. -/
structure Sighting where
  startEpochS : Option ℤ
  moved : Direction → ℕ
  since : Direction → ℕ

/-- The columns together with what each process has moved so far, and with the sightings since
which no tick went undemanded. -/
structure NetTrace where
  state : NetState := {}
  moved : ℕ → Direction → ℕ := fun _ _ => 0
  seen : ℕ → Option Sighting := fun _ => none

/-- The counters of a tick, with the tag of their source. -/
def NetTrace.answer (d : NetTrace) (t : NetTick) : Option (NetTotals × Since) :=
  (netTotals (d.state.evict t.evicted) t.outside).2

/-- The baselines of a tick. -/
def NetTrace.baseline (d : NetTrace) (t : NetTick) : ℕ → Option ProcNetSample :=
  (netTotals (d.state.evict t.evicted) t.outside).1.prevProcNet

/-- The rows after a tick. -/
def NetTrace.rows (d : NetTrace) (t : NetTick) : List ProcessEntry :=
  (applyProcessNetwork (d.state.evict t.evicted) t.outside t.processes t.interval).2

/-- What each process has moved after a tick. -/
def NetTrace.movedAfter (d : NetTrace) (t : NetTick) : ℕ → Direction → ℕ :=
  fun process direction => d.moved process direction + t.moves process direction

/-- The sightings that a tick can look back to: none without demand, none of an evicted pid. -/
def NetTrace.sightings (d : NetTrace) (t : NetTick) : ℕ → Option Sighting :=
  fun pid => if t.outside.demanded ∧ pid ∉ t.evicted then d.seen pid else none

/-- The sightings of a tick with an answer. -/
def NetTrace.sight (d : NetTrace) (t : NetTick) (since : Since) : ℕ → Option Sighting :=
  t.processes.foldl (fun next process =>
    if process.synthetic then next
    else
      let owner := t.process process.pid
      Function.update next process.pid
        (some ⟨process.startEpochS, d.movedAfter t owner, since owner⟩))
    fun _ => none

/-- A tick, and what it leaves of the readings. -/
def NetTrace.tick (d : NetTrace) (t : NetTick) : NetTrace where
  state := (applyProcessNetwork (d.state.evict t.evicted) t.outside t.processes t.interval).1
  moved := d.movedAfter t
  seen := (d.answer t).elim (d.sightings t) fun answer => d.sight t answer.2

/-- A tick as a step of a run. -/
def NetTrace.step (d : NetTrace) (t : NetTick) : Option NetTrace := some (d.tick t)

/-- **A source counts**: what it reports of a process is what the process has moved since the source
began. -/
def NetTrace.Counted (d : NetTrace) (t : NetTick) : Prop :=
  ∀ totals since, d.answer t = some (totals, since) → ∀ process ∈ t.processes, ∀ direction,
    (totals.of process).along direction =
      d.movedAfter t (t.process process.pid) direction - since (t.process process.pid) direction

/-- **A rate covers its own interval**: its bytes were moved by the process during the interval. -/
def NetTrace.RatesCover (d : NetTrace) (t : NetTick) : Prop :=
  ∀ row ∈ d.rows t, ∀ direction rate, netBps row direction = some rate →
    rate * t.interval ≤ t.moves (t.process row.pid) direction

/-- A process was sighted before, under its pid and its creation time. -/
def NetTrace.SightedAs (d : NetTrace) (t : NetTick) (process : ProcessEntry) (seen : Sighting) :
    Prop :=
  d.sightings t process.pid = some seen ∧ seen.startEpochS = process.startEpochS

/-- **A tick is fresh**: each process that was sighted before either began to be counted during the
interval, or between its sighting and the interval moved at most what the source of the tick began
to count later than that of the sighting. -/
def NetTrace.Fresh (d : NetTrace) (t : NetTick) : Prop :=
  ∀ totals since, d.answer t = some (totals, since) → ∀ process ∈ t.processes, ∀ seen,
    d.SightedAs t process seen → ∀ direction,
      let moved := d.moved (t.process process.pid) direction
      let began := since (t.process process.pid) direction
      moved ≤ began ∨ moved + seen.since direction ≤ began + seen.moved direction

/-- The bytes that a sighted process moves, divided by the length of the interval, are not rounded
up. -/
def NetTrace.NotRoundedUp (d : NetTrace) (t : NetTick) : Prop :=
  ∀ process ∈ t.processes, ∀ seen, d.SightedAs t process seen → ∀ direction,
    let bytes := t.moves (t.process process.pid) direction
    bytesPerSecond t.interval bytes ≤ bytes / t.interval

/-- A tick of some length whose rows are as the enumeration makes them: no pseudo-row, and no rate
yet. -/
structure NetTick.Admissible (t : NetTick) : Prop where
  interval : 0 < t.interval
  real : ∀ process ∈ t.processes, process.synthetic = false
  unread : ∀ process ∈ t.processes, ∀ direction, netBps process direction = none

/-! ### Rates and baselines -/

theorem bytesPerSecond_mono {interval : ℚ} (h : 0 < interval) {few many : ℕ} (hle : few ≤ many) :
    bytesPerSecond interval few ≤ bytesPerSecond interval many := by
  have hcast : (few : ℚ) ≤ many := Nat.cast_le.mpr hle
  have hbytes : binary64.round few ≤ binary64.round many :=
    BinaryFormat.round_mono few.cast_nonneg hcast
  have hfew : 0 ≤ binary64.round few := BinaryFormat.round_nonneg few.cast_nonneg
  exact BinaryFormat.round_mono (div_nonneg hfew h.le) (div_le_div_of_nonneg_right hbytes h.le)

/-- A rate of at most so many bytes covers them, where the rate of all of them does. -/
theorem netRate_mul_le {interval : ℚ} (h : 0 < interval) {now before bytes : ℕ}
    (hgain : now - before ≤ bytes) (hround : bytesPerSecond interval bytes ≤ bytes / interval) :
    netRate interval now before * interval ≤ bytes := by
  have hrate : netRate interval now before ≤ bytes / interval :=
    (bytesPerSecond_mono h hgain).trans hround
  calc netRate interval now before * interval ≤ bytes / interval * interval :=
        mul_le_mul_of_nonneg_right hrate h.le
    _ = bytes := div_mul_cancel₀ _ h.ne'

theorem netBps_networkRow {prev : ℕ → Option ProcNetSample} {totals : NetTotals} {interval : ℚ}
    {process : ProcessEntry} (h : process.synthetic = false) (direction : Direction) :
    netBps (networkRow prev totals interval process) direction =
      some ((previousOf prev process).elim 0 fun prev =>
        netRate interval ((totals.of process).along direction) (prev.bytes.along direction)) := by
  rw [networkRow, h, if_neg Bool.false_ne_true]
  cases previousOf prev process <;> cases direction <;> rfl

theorem pid_networkRow (prev : ℕ → Option ProcNetSample) (totals : NetTotals) (interval : ℚ)
    (process : ProcessEntry) : (networkRow prev totals interval process).pid = process.pid := by
  unfold networkRow
  split <;> rfl

/-- What a tick makes of its rows: nothing without an answer, else a rate for each of them. -/
theorem NetTrace.rows_cases (d : NetTrace) (t : NetTick) :
    (d.answer t = none ∧ d.rows t = t.processes) ∨
      ∃ totals since, d.answer t = some (totals, since) ∧
        d.rows t = t.processes.map (networkRow (d.baseline t) totals t.interval) := by
  unfold NetTrace.answer NetTrace.rows NetTrace.baseline applyProcessNetwork
  rcases netTotals (d.state.evict t.evicted) t.outside with ⟨s, _ | ⟨totals, since⟩⟩
  · exact Or.inl ⟨rfl, rfl⟩
  · exact Or.inr ⟨totals, since, rfl, rfl⟩

/-! ### The baselines and the sightings -/

/-- The counters kept for a process are those of its sighting. -/
structure Sighting.Of (seen : Sighting) (prev : ProcNetSample) : Prop where
  start : prev.startEpochS = seen.startEpochS
  bytes : ∀ direction, prev.bytes.along direction = seen.moved direction - seen.since direction

/-- Every baseline has its sighting. -/
def Sighted (prev : ℕ → Option ProcNetSample) (seen : ℕ → Option Sighting) : Prop :=
  ∀ pid sample, prev pid = some sample → ∃ s, seen pid = some s ∧ s.Of sample

theorem Sighted.update {prev : ℕ → Option ProcNetSample} {seen : ℕ → Option Sighting}
    (h : Sighted prev seen) (pid : ℕ) {sample : ProcNetSample} {s : Sighting} (hs : s.Of sample) :
    Sighted (Function.update prev pid (some sample)) (Function.update seen pid (some s)) := by
  intro other sample' hsample
  by_cases hpid : other = pid
  · subst hpid
    rw [Function.update_self] at hsample
    rw [Function.update_self, ← Option.some.inj hsample]
    exact ⟨s, rfl, hs⟩
  · rw [Function.update_of_ne hpid] at hsample
    rw [Function.update_of_ne hpid]
    exact h other sample' hsample

/-- What a tick with an answer keeps, it sights. -/
theorem NetTrace.Counted.sighted {d : NetTrace} {t : NetTick} (hcounted : d.Counted t)
    {totals : NetTotals} {since : Since} (hanswer : d.answer t = some (totals, since)) :
    Sighted (keepTotals totals t.processes) (d.sight t since) := by
  have hcount := hcounted totals since hanswer
  unfold keepTotals NetTrace.sight
  -- both maps are filled process by process
  have hfold : ∀ (processes : List ProcessEntry) (prev : ℕ → Option ProcNetSample)
      (seen : ℕ → Option Sighting), (∀ process ∈ processes, process ∈ t.processes) →
      Sighted prev seen →
      Sighted
        (processes.foldl (fun next process => if process.synthetic then next else
          Function.update next process.pid
            (some ⟨process.startEpochS, totals.of process⟩)) prev)
        (processes.foldl (fun next process => if process.synthetic then next else
          Function.update next process.pid
            (some ⟨process.startEpochS, d.movedAfter t (t.process process.pid),
              since (t.process process.pid)⟩)) seen) := by
    intro processes
    induction processes with
    | nil => exact fun _ _ _ h => h
    | cons process processes ih =>
      intro prev seen hall h
      obtain ⟨hprocess, hrest⟩ := List.forall_mem_cons.mp hall
      rw [List.foldl_cons, List.foldl_cons]
      refine ih _ _ hrest ?_
      split
      · exact h
      · exact h.update process.pid ⟨rfl, hcount process hprocess⟩
  exact hfold t.processes _ _ (fun _ h => h) fun _ _ hnone => by cases hnone

/-- The baselines that a tick looks back to are sighted. -/
theorem NetTrace.sighted_baseline {d : NetTrace} (hd : Sighted d.state.prevProcNet d.seen)
    (t : NetTick) : Sighted (d.baseline t) (d.sightings t) := by
  intro pid sample hsample
  unfold NetTrace.baseline netTotals NetState.evict at hsample
  dsimp only at hsample
  split at hsample
  · rename_i hdemanded
    dsimp only at hsample
    split at hsample
    · cases hsample
    · rename_i hlive
      rw [NetTrace.sightings, if_pos ⟨hdemanded, hlive⟩]
      exact hd pid sample hsample
  · cases hsample

/-- **A tick keeps the baselines sighted.** -/
theorem NetTrace.sighted_tick {d : NetTrace} (hd : Sighted d.state.prevProcNet d.seen) {t : NetTick}
    (hcounted : d.Counted t) : Sighted (d.tick t).state.prevProcNet (d.tick t).seen := by
  have hbaseline := d.sighted_baseline hd t
  have hsighted : ∀ totals since, d.answer t = some (totals, since) →
      Sighted (keepTotals totals t.processes) (d.sight t since) :=
    fun _ _ hanswer => hcounted.sighted hanswer
  unfold NetTrace.tick
  unfold NetTrace.baseline at hbaseline
  unfold NetTrace.answer at hsighted ⊢
  unfold applyProcessNetwork
  rcases hnet : netTotals (d.state.evict t.evicted) t.outside with ⟨s, _ | ⟨totals, since⟩⟩
  · rw [hnet] at hbaseline
    exact hbaseline
  · rw [hnet] at hsighted
    exact hsighted totals since rfl

/-! ### Covered rates -/

/-- What is gained over the baseline was moved in the interval, where the source had counted no more
than the baseline before. -/
theorem gain_le {moved moves since seenMoved seenSince : ℕ}
    (h : moved ≤ since ∨ moved + seenSince ≤ since + seenMoved) :
    moved + moves - since - (seenMoved - seenSince) ≤ moves := by
  omega

/-- **One tick**: if it is fresh, its rates cover the interval. -/
theorem NetTrace.Fresh.ratesCover {d : NetTrace} {t : NetTick} (hfresh : d.Fresh t)
    (hround : d.NotRoundedUp t) (ht : t.Admissible) (hcounted : d.Counted t)
    (hd : Sighted d.state.prevProcNet d.seen) : d.RatesCover t := by
  intro row hrow direction rate hrate
  rcases d.rows_cases t with ⟨-, hrows⟩ | ⟨totals, since, hanswer, hrows⟩
  · rw [hrows] at hrow
    rw [ht.unread row hrow direction] at hrate
    cases hrate
  rw [hrows] at hrow
  obtain ⟨process, hprocess, rfl⟩ := List.mem_map.mp hrow
  rw [netBps_networkRow (ht.real process hprocess) direction] at hrate
  rw [pid_networkRow, ← Option.some.inj hrate]
  cases hprev : previousOf (d.baseline t) process with
  | none =>
    rw [Option.elim_none, zero_mul]
    exact Nat.cast_nonneg _
  | some prev =>
    rw [Option.elim_some]
    obtain ⟨hkept, hstart⟩ := Option.filter_eq_some_iff.mp hprev
    obtain ⟨seen, hseen, hof⟩ := d.sighted_baseline hd t process.pid prev hkept
    have hsighted : d.SightedAs t process seen :=
      ⟨hseen, hof.start.symm.trans (of_decide_eq_true hstart)⟩
    refine netRate_mul_le ht.interval ?_ (hround process hprocess seen hsighted direction)
    rw [hcounted totals since hanswer process hprocess direction, hof.bytes direction]
    exact gain_le (hfresh totals since hanswer process hprocess seen hsighted direction)

/-- A service that answers a tick of one second with the received bytes of process 8, which receives
a hundred of them in the second. -/
def serviceTick (answer : Option UInt64) : NetTick where
  outside :=
    { demanded := true
      now := 0
      ask := fun _ => answer.elim .unavailable fun received =>
        .sample ({ active := true, entries := [⟨8, received, 0⟩] }, fun _ _ => 0)
      starts := false
      running := false
      totals := (∅, fun _ _ => 0) }
  processes := [{ pid := 8, name := "a.exe".toList }]
  evicted := []
  interval := 1
  process := fun _ => 1
  moves := fun _ direction => if direction = .received then 100 else 0

theorem admissible_serviceTick (answer : Option UInt64) : (serviceTick answer).Admissible where
  interval := zero_lt_one
  real process hprocess := by
    obtain rfl := List.mem_singleton.mp hprocess
    rfl
  unread process hprocess direction := by
    obtain rfl := List.mem_singleton.mp hprocess
    cases direction <;> rfl

/-- The answer of the service counts, where it has received all that the process has. -/
theorem counted_serviceTick {d : NetTrace} {received : UInt64}
    (hanswer : d.answer (serviceTick (some received)) =
      some (sampleToMap { active := true, entries := [⟨8, received, 0⟩] }, fun _ _ => 0))
    (hreceived : received.toNat = d.moved 1 .received + 100) (hsent : d.moved 1 .sent = 0) :
    d.Counted (serviceTick (some received)) := by
  intro totals since hsome process hprocess direction
  obtain rfl := List.mem_singleton.mp hprocess
  obtain ⟨rfl, rfl⟩ := Prod.mk.inj (Option.some.inj (hanswer.symm.trans hsome))
  have htotals : (sampleToMap { active := true, entries := [⟨8, received, 0⟩] }).of
      { pid := 8, name := "a.exe".toList } = ⟨received.toNat, 0⟩ := by
    simp [NetTotals.of, sampleToMap]
  rw [htotals]
  cases direction with
  | received => exact hreceived
  | sent => exact hsent.symm

end Taskman.Sampler
