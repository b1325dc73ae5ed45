import Taskman.Core.Model
import Taskman.Metering.Total
import Taskman.Platform.Etw
import Mathlib.Data.Finset.Basic

/-!
# Per-process disk activity

The trace callback adds every completed disk request to the running window: to the total of the
disk that served it and, where the issuing thread is known, to the process that owns the thread.
`take_window` drains the window, and moves the time of processes that have exited since into the
unattributed remainder.

* `DiskUsage.step` : one callback, one drained window, or the end of the session;
* `Conserves` : what a drained window has to say about the requests recorded for it;
* `windows_conserve` : **every drained window accounts for exactly the requests recorded since the
  one before it**, whatever happens to the thread map in between.

The mutex of the source orders the callbacks and the drains; no modelled section panics, so it is
never poisoned.
-/

namespace Taskman.Etw.Disk

/-- A read request. -/
def opcodeDiskRead : ℕ := 10

/-- A write request. -/
def opcodeDiskWrite : ℕ := 11

/-- A single request bigger than this did not come from this payload layout. -/
def maxPlausibleTransfer : ℕ := 1 <<< 30

/-- Upper bound on the thread map; past it the map is thrown away and reseeded. -/
def maxTrackedThreads : ℕ := 250000

/-- Service time on one physical disk. -/
structure DiskTime where
  disk : ℕ
  serviceTime : ℕ
  deriving DecidableEq, Repr

/-- Add `serviceTime` to `disk`'s entry of a small per-disk list. -/
def addDiskTime : List DiskTime → ℕ → ℕ → List DiskTime
  | [], disk, serviceTime => [{ disk, serviceTime }]
  | entry :: list, disk, serviceTime =>
    if entry.disk = disk then
      { entry with serviceTime := saturatingAdd entry.serviceTime serviceTime } :: list
    else entry :: addDiskTime list disk serviceTime

/-- What one process did to the disks during a window. -/
structure PidDisk where
  serviceTime : ℕ := 0
  /-- The same service time split by the disk that served it. -/
  perDisk : List DiskTime := []
  readBytes : ℕ := 0
  writeBytes : ℕ := 0
  ops : ℕ := 0
  deriving DecidableEq, Repr

/-- A request added to the totals of its process. -/
def PidDisk.add (p : PidDisk) (write : Bool) (size serviceTime disk : ℕ) : PidDisk :=
  { serviceTime := saturatingAdd p.serviceTime serviceTime
    perDisk := addDiskTime p.perDisk disk serviceTime
    readBytes := if write then p.readBytes else saturatingAdd p.readBytes size
    writeBytes := if write then saturatingAdd p.writeBytes size else p.writeBytes
    ops := saturatingAdd p.ops 1 }

/-- One drained measurement window. -/
structure DiskWindow where
  procs : OrdMap ℕ PidDisk
  /-- Service time of requests whose issuing thread could not be mapped to a live process. -/
  unattributedServiceTime : ℕ
  /-- Every disk's total service time in the window, attributed or not. -/
  diskTotals : List DiskTime
  sinceMs : ℕ
  eventsSeen : ℕ
  eventsDecoded : ℕ
  deriving DecidableEq

/-- Total service time observed in the window, attributed or not. -/
def DiskWindow.totalServiceTime (w : DiskWindow) : ℕ :=
  w.procs.foldl (fun acc _ p => saturatingAdd acc p.serviceTime) w.unattributedServiceTime

/-- The service time listed for one disk. -/
def timeOf (list : List DiskTime) (disk : ℕ) : ℕ :=
  (list.find? (·.disk == disk)).elim 0 DiskTime.serviceTime

/-- Total service time of one disk in the window, attributed or not. -/
def DiskWindow.diskTotal (w : DiskWindow) (disk : ℕ) : ℕ := timeOf w.diskTotals disk

/-- Whether this window is a measurement at all. -/
def DiskWindow.decoded (w : DiskWindow) : Bool := w.eventsSeen == 0 || decide (0 < w.eventsDecoded)

/-! ### Decoding -/

/-- Byte offsets into the classic `DiskIo_TypeGroup1` payload. -/
structure DiskLayout where
  responseTime : ℕ
  issuingThread : ℕ
  minLen : ℕ

/-- Where the fields of a request are, with pointers of a size. -/
def DiskLayout.forPointerSize (pointerBytes : ℕ) : DiskLayout :=
  let responseTime := 24 + 2 * pointerBytes
  { responseTime, issuingThread := responseTime + 8, minLen := responseTime + 12 }

/-- One disk request, as far as this module cares. -/
structure DiskRequest where
  disk : ℕ
  threadId : ℕ
  transferSize : ℕ
  serviceTime : ℕ
  deriving DecidableEq, Repr

/-- Decode a `DiskRead`/`DiskWrite` payload. -/
def parseDiskEvent (payload : Bytes) (pointerBytes : ℕ) : Option DiskRequest :=
  let layout := DiskLayout.forPointerSize pointerBytes
  if payload.length < layout.minLen then none
  else do
    let disk ← payload.readLe? 0 4
    let transferSize ← payload.readLe? 8 4
    if maxPlausibleTransfer < transferSize then none
    else
      let serviceTime ← payload.readLe? layout.responseTime 8
      let threadId ← payload.readLe? layout.issuingThread 4
      if plausibleClientId threadId then some { disk, threadId, transferSize, serviceTime }
      else none

/-- The fields of a decoded request fit their widths, and a misread record is not among them. -/
structure DiskRequest.WellFormed (r : DiskRequest) : Prop where
  disk : r.disk < 256 ^ 4
  thread : plausibleClientId r.threadId = true
  transferSize : r.transferSize ≤ maxPlausibleTransfer
  serviceTime : r.serviceTime < u64Bound

theorem wellFormed_of_parseDiskEvent {payload : Bytes} {pointerBytes : ℕ} {r : DiskRequest}
    (h : parseDiskEvent payload pointerBytes = some r) : r.WellFormed := by
  simp only [parseDiskEvent, Option.ite_none_left_eq_some, Option.bind_eq_bind,
    Option.bind_eq_some_iff] at h
  obtain ⟨_, disk, hdisk, size, _, hsize, time, htime, thread, _, h⟩ := h
  obtain ⟨hthread, h⟩ := Option.ite_none_right_eq_some.mp h
  cases h
  exact
    { disk := Bytes.readLe?_lt hdisk
      thread := hthread
      transferSize := not_lt.mp hsize
      serviceTime := Bytes.readLe?_lt htime }

/-! ### The running window -/

/-- What the session has seen since its last window. -/
structure State where
  eventsSeen : ℕ := 0
  eventsDecoded : ℕ := 0
  /-- Payload length of the most recent record the decoder rejected. -/
  rejectedPayloadLen : ℕ := 0
  /-- Thread id to owning process id. -/
  threads : OrdMap ℕ ℕ
  totals : OrdMap ℕ PidDisk := ∅
  unattributedServiceTime : ℕ := 0
  /-- Per-disk totals of every decoded request, charged or not. -/
  diskTotals : List DiskTime := []
  /-- Set when the thread map had to be dropped. -/
  needsReseed : Bool := false

/-- A disk record the decoder could not read. -/
def State.recordUndecodable (s : State) (payloadLen : ℕ) : State :=
  { s with
    eventsSeen := saturatingAdd s.eventsSeen 1
    rejectedPayloadLen := payloadLen }

/-- A request is seen: the thread that issued it names the process. -/
def State.recordRequest (s : State) (request : DiskRequest) (write : Bool) : State :=
  let s := { s with
    eventsSeen := saturatingAdd s.eventsSeen 1
    eventsDecoded := saturatingAdd s.eventsDecoded 1
    diskTotals := addDiskTime s.diskTotals request.disk request.serviceTime }
  match s.threads[request.threadId]? with
  | some pid =>
    { s with
      totals := s.totals.alter pid fun entry =>
        some ((entry.getD {}).add write request.transferSize request.serviceTime request.disk) }
  | none =>
    { s with
      unattributedServiceTime := saturatingAdd s.unattributedServiceTime request.serviceTime }

/-- A thread is seen; where there are too many, all are forgotten. -/
def State.trackThread (s : State) (pid tid : ℕ) : State :=
  let s := if maxTrackedThreads ≤ s.threads.size then
    { s with threads := ∅, needsReseed := true } else s
  { s with threads := s.threads.insert tid pid }

/-- A thread has ended. -/
def State.forgetThread (s : State) (tid : ℕ) : State :=
  { s with threads := s.threads.erase tid }

/-- The processes a drained window keeps, and the remainder with the time of those it drops.  An
empty `livePids` means that the caller could not enumerate processes. -/
def retainLive (procs : OrdMap ℕ PidDisk) (unattributed : ℕ) (livePids : Finset ℕ) :
    OrdMap ℕ PidDisk × ℕ :=
  if livePids = ∅ then (procs, unattributed)
  else
    (procs.filter fun pid _ => pid ∈ livePids,
      procs.foldl (fun acc pid disk =>
        if pid ∈ livePids then acc else saturatingAdd acc disk.serviceTime) unattributed)

/-- Drain everything observed since the last call.  `owners` is the thread snapshot a reseed
takes. -/
def State.takeWindow (s : State) (sinceMs : ℕ) (livePids : Finset ℕ) (owners : OrdMap ℕ ℕ) :
    State × DiskWindow :=
  let drained : State :=
    { rejectedPayloadLen := s.rejectedPayloadLen
      threads := if s.needsReseed then owners else s.threads }
  let kept := retainLive s.totals s.unattributedServiceTime livePids
  (drained,
    { procs := kept.1
      unattributedServiceTime := kept.2
      diskTotals := s.diskTotals
      sinceMs
      eventsSeen := s.eventsSeen
      eventsDecoded := s.eventsDecoded })

/-- A running per-process disk trace.  Instants are nanoseconds. -/
structure DiskUsage where
  state : State
  live : Bool := true
  /-- Start of the window currently being accumulated. -/
  windowStart : ℕ

/-- What can happen to a trace: the callback's four kinds of record, a drained window, and the end
of the session. -/
inductive Event where
  | request (request : DiskRequest) (write : Bool)
  | undecodable (payloadLen : ℕ)
  | trackThread (pid tid : ℕ)
  | forgetThread (tid : ℕ)
  | takeWindow (now : ℕ) (livePids : Finset ℕ) (owners : OrdMap ℕ ℕ)
  | stop

/-- The trace right after its start, seeded with the threads already running. -/
def DiskUsage.start (threads : OrdMap ℕ ℕ) (now : ℕ) : DiskUsage :=
  { state := { threads }, windowStart := now }

/-- The callback drops what arrives after the end of the session. -/
def DiskUsage.whileLive (d : DiskUsage) (f : State → State) : DiskUsage :=
  if d.live then { d with state := f d.state } else d

/-- What an event does, and the window it asks for. -/
def DiskUsage.step (d : DiskUsage) : Event → DiskUsage × Option DiskWindow
  | .request request write => (d.whileLive (·.recordRequest request write), none)
  | .undecodable payloadLen => (d.whileLive (·.recordUndecodable payloadLen), none)
  | .trackThread pid tid => (d.whileLive (·.trackThread pid tid), none)
  | .forgetThread tid => (d.whileLive (·.forgetThread tid), none)
  | .takeWindow now livePids owners =>
    let sinceMs := min ((now - d.windowStart) / 1000000) (u64Bound - 1)
    let drained := d.state.takeWindow sinceMs livePids owners
    ({ d with state := drained.1, windowStart := now }, some drained.2)
  | .stop => ({ d with live := false }, none)

/-- The windows a sequence of events drains, in order. -/
def DiskUsage.windows (d : DiskUsage) : List Event → List DiskWindow
  | [] => []
  | e :: es => (d.step e).2.toList ++ (d.step e).1.windows es

/-- The record callback: what one trace record does to the trace. -/
def onEvent (r : EventRecord) : Option Event :=
  match r.payload with
  | none => none
  | some payload =>
    match r.providerId with
    | .diskIo =>
      if r.opcode = opcodeDiskRead ∨ r.opcode = opcodeDiskWrite then
        match parseDiskEvent payload r.pointerBytes with
        | some request => some (.request request (r.opcode == opcodeDiskWrite))
        | none => some (.undecodable r.userData.length)
      else none
    | .thread =>
      if r.opcode = opcodeThreadStart ∨ r.opcode = opcodeThreadDcStart then
        (parseThreadEvent payload).map fun p => .trackThread p.1 p.2
      else if r.opcode = opcodeThreadStop ∨ r.opcode = opcodeThreadDcStop then
        (parseThreadEvent payload).map fun p => .forgetThread p.2
      else none
    | _ => none

/-- The callback only hands on well-formed requests. -/
theorem wellFormed_of_onEvent {record : EventRecord} {r : DiskRequest} {write : Bool}
    (h : onEvent record = some (.request r write)) : r.WellFormed := by
  unfold onEvent at h
  split at h
  · cases h
  · rename_i payload _
    split at h
    · obtain ⟨_, h⟩ := Option.ite_none_right_eq_some.mp h
      cases hparse : parseDiskEvent payload record.pointerBytes with
      | none => simp [hparse] at h
      | some request =>
        simp only [hparse, Option.some.injEq, Event.request.injEq] at h
        exact h.1 ▸ wellFormed_of_parseDiskEvent hparse
    · split_ifs at h <;> simp [Option.map_eq_some_iff] at h
    · cases h

/-! ### Per-disk lists -/

/-- The service time of a per-disk list. -/
def listTime (list : List DiskTime) : ℕ := (list.map DiskTime.serviceTime).sum

/-- The disks of a per-disk list. -/
def disks (list : List DiskTime) : List ℕ := list.map DiskTime.disk

@[simp] theorem listTime_nil : listTime [] = 0 := rfl

@[simp] theorem listTime_cons (e : DiskTime) (list : List DiskTime) :
    listTime (e :: list) = e.serviceTime + listTime list := by
  rw [listTime, List.map_cons, List.sum_cons, listTime]

theorem listTime_addDiskTime {list : List DiskTime} {disk serviceTime : ℕ}
    (h : listTime list + serviceTime < u64Bound) :
    listTime (addDiskTime list disk serviceTime) = listTime list + serviceTime := by
  induction list with
  | nil => simp [addDiskTime]
  | cons e list ih =>
    rw [listTime_cons] at h ⊢
    unfold addDiskTime
    split_ifs with hd
    · have hsum : saturatingAdd e.serviceTime serviceTime = e.serviceTime + serviceTime :=
        saturatingAdd_of_lt (by omega)
      rw [listTime_cons]
      show saturatingAdd e.serviceTime serviceTime + listTime list = _
      omega
    · rw [listTime_cons, ih (by omega)]
      omega

theorem mem_disks_addDiskTime {list : List DiskTime} {disk serviceTime d : ℕ} :
    d ∈ disks (addDiskTime list disk serviceTime) ↔ d = disk ∨ d ∈ disks list := by
  induction list with
  | nil => simp [addDiskTime, disks]
  | cons e list ih =>
    unfold addDiskTime
    split_ifs with hd
    · simp only [disks, List.map_cons, List.mem_cons, hd]
      tauto
    · simp only [disks, List.map_cons, List.mem_cons] at ih ⊢
      rw [ih]
      tauto

/-- No disk is listed twice. -/
theorem nodup_disks_addDiskTime {list : List DiskTime} (disk serviceTime : ℕ)
    (h : (disks list).Nodup) : (disks (addDiskTime list disk serviceTime)).Nodup := by
  induction list with
  | nil => exact List.nodup_singleton disk
  | cons e list ih =>
    obtain ⟨he, hlist⟩ := List.nodup_cons.mp h
    unfold addDiskTime
    split_ifs with hd
    · exact h
    · refine List.nodup_cons.mpr ⟨fun hmem => ?_, ih hlist⟩
      rcases mem_disks_addDiskTime.mp hmem with heq | hmem
      · exact hd heq
      · exact he hmem

theorem timeOf_cons (e : DiskTime) (list : List DiskTime) (d : ℕ) :
    timeOf (e :: list) d = if e.disk = d then e.serviceTime else timeOf list d := by
  unfold timeOf
  by_cases h : e.disk = d
  · rw [List.find?_cons_of_pos (by simpa using h), if_pos h]
    rfl
  · rw [List.find?_cons_of_neg (by simpa using h), if_neg h]

/-- The time listed for a disk changes by what is added to that disk. -/
theorem timeOf_addDiskTime {list : List DiskTime} {disk serviceTime : ℕ} (d : ℕ)
    (h : listTime list + serviceTime < u64Bound) :
    timeOf (addDiskTime list disk serviceTime) d =
      timeOf list d + if disk = d then serviceTime else 0 := by
  induction list with
  | nil =>
    rw [addDiskTime, timeOf_cons]
    show (if disk = d then serviceTime else 0) = 0 + _
    rw [zero_add]
  | cons e list ih =>
    rw [listTime_cons] at h
    unfold addDiskTime
    split_ifs with hd hdd hdd
    · rw [timeOf_cons, timeOf_cons, if_pos (hd.trans hdd), if_pos (hd.trans hdd)]
      exact saturatingAdd_of_lt (by omega)
    · have hed : e.disk ≠ d := fun he => hdd (hd ▸ he)
      rw [timeOf_cons, timeOf_cons, if_neg hed, if_neg hed, Nat.add_zero]
    · have hed : e.disk ≠ d := fun he => hd (he.trans hdd.symm)
      rw [timeOf_cons, timeOf_cons, if_neg hed, if_neg hed, ih (by omega), if_pos hdd]
    · rw [timeOf_cons, timeOf_cons, ih (by omega), if_neg hdd]
      rfl

/-! ### What one process is charged -/

/-- A process's service time is the sum of its per-disk times, over disks listed once each. -/
structure PidDisk.Balanced (p : PidDisk) : Prop where
  perDisk : p.serviceTime = listTime p.perDisk
  unique : (disks p.perDisk).Nodup

theorem PidDisk.balanced_default : ({} : PidDisk).Balanced := ⟨rfl, List.nodup_nil⟩

theorem PidDisk.serviceTime_add {p : PidDisk} {write : Bool} {size serviceTime disk : ℕ}
    (h : p.serviceTime + serviceTime < u64Bound) :
    (p.add write size serviceTime disk).serviceTime = p.serviceTime + serviceTime :=
  saturatingAdd_of_lt h

theorem PidDisk.Balanced.add {p : PidDisk} (hp : p.Balanced) {write : Bool}
    {size serviceTime disk : ℕ} (h : p.serviceTime + serviceTime < u64Bound) :
    (p.add write size serviceTime disk).Balanced where
  perDisk := by
    rw [PidDisk.serviceTime_add h, hp.perDisk]
    exact (listTime_addDiskTime (hp.perDisk ▸ h)).symm
  unique := nodup_disks_addDiskTime disk serviceTime hp.unique

/-! ### The accounts of a running window -/

/-- The service time of a batch of requests. -/
def batchTime (batch : List DiskRequest) : ℕ := (batch.map DiskRequest.serviceTime).sum

theorem batchTime_concat (batch : List DiskRequest) (r : DiskRequest) :
    batchTime (batch ++ [r]) = batchTime batch + r.serviceTime := by
  simp [batchTime]

/-- The service time charged to processes. -/
def charged (procs : OrdMap ℕ PidDisk) : ℕ := procs.total fun _ p => p.serviceTime

/-- The batch is small enough for no counter of its window to saturate. -/
structure Unsaturated (batch : List DiskRequest) : Prop where
  time : batchTime batch < u64Bound
  count : batch.length < u64Bound

theorem Unsaturated.of_concat {batch : List DiskRequest} {r : DiskRequest}
    (h : Unsaturated (batch ++ [r])) : Unsaturated batch where
  time := by
    have := h.time
    rw [batchTime_concat] at this
    omega
  count := by
    have := h.count
    rw [List.length_append] at this
    omega

/-- The running window accounts for a batch of requests. -/
structure State.Accounts (s : State) (batch : List DiskRequest) : Prop where
  total : charged s.totals + s.unattributedServiceTime = batchTime batch
  disks : listTime s.diskTotals = batchTime batch
  diskTotal : ∀ d, timeOf s.diskTotals d = batchTime (batch.filter (·.disk = d))
  unique : (Disk.disks s.diskTotals).Nodup
  procs : ∀ (pid : ℕ) (p : PidDisk), s.totals[pid]? = some p → p.Balanced
  counted : s.eventsDecoded = batch.length

/-- Nothing is recorded in a fresh window. -/
theorem State.accounts_nil {s : State} (htotals : s.totals = ∅)
    (hunattributed : s.unattributedServiceTime = 0) (hdisks : s.diskTotals = [])
    (hdecoded : s.eventsDecoded = 0) : s.Accounts [] where
  total := by rw [htotals, hunattributed, charged, OrdMap.total_empty]; rfl
  disks := by rw [hdisks]; rfl
  diskTotal d := by rw [hdisks]; rfl
  unique := by rw [hdisks]; exact List.nodup_nil
  procs pid p hp := by simp [htotals] at hp
  counted := hdecoded

theorem filter_disk_concat (batch : List DiskRequest) (r : DiskRequest) (d : ℕ) :
    batchTime ((batch ++ [r]).filter (·.disk = d)) =
      batchTime (batch.filter (·.disk = d)) + if r.disk = d then r.serviceTime else 0 := by
  rw [List.filter_append]
  by_cases h : r.disk = d
  · rw [List.filter_cons_of_pos (by simpa using h), List.filter_nil, batchTime_concat, if_pos h]
  · rw [List.filter_cons_of_neg (by simpa using h), List.filter_nil, List.append_nil, if_neg h,
      Nat.add_zero]

/-- **Recording a request** charges it once: to its disk, and to the owner of its thread or to
nobody. -/
theorem State.Accounts.recordRequest {s : State} {batch : List DiskRequest}
    (h : s.Accounts batch) {r : DiskRequest} (write : Bool) (hu : Unsaturated (batch ++ [r])) :
    (s.recordRequest r write).Accounts (batch ++ [r]) := by
  -- within the batch's bound no counter saturates, so each addition is exact
  have htime : batchTime batch + r.serviceTime < u64Bound := batchTime_concat batch r ▸ hu.time
  have hdisks : listTime s.diskTotals + r.serviceTime < u64Bound := h.disks ▸ htime
  have hcount : saturatingAdd s.eventsDecoded 1 = (batch ++ [r]).length := by
    have hlen := hu.count
    rw [List.length_append, List.length_singleton] at hlen ⊢
    rw [h.counted, saturatingAdd_of_lt hlen]
  have hdiskTotal (d : ℕ) : timeOf (addDiskTime s.diskTotals r.disk r.serviceTime) d =
      batchTime ((batch ++ [r]).filter (·.disk = d)) := by
    rw [timeOf_addDiskTime d hdisks, h.diskTotal, filter_disk_concat]
  have hlist : listTime (addDiskTime s.diskTotals r.disk r.serviceTime) =
      batchTime (batch ++ [r]) := by
    rw [listTime_addDiskTime hdisks, h.disks, batchTime_concat]
  have hunique := nodup_disks_addDiskTime r.disk r.serviceTime h.unique
  have htotal := h.total
  cases hpid : s.threads[r.threadId]? with
  | none =>
    simp only [State.recordRequest, hpid]
    refine ⟨?_, hlist, hdiskTotal, hunique, h.procs, hcount⟩
    show charged s.totals + saturatingAdd s.unattributedServiceTime r.serviceTime = _
    rw [saturatingAdd_of_lt (by omega), batchTime_concat]
    omega
  | some pid =>
    -- what the owner of the thread had been charged before is part of the total
    have hold : ∀ p, s.totals[pid]? = some p → p.serviceTime ≤ charged s.totals := fun p hp =>
      OrdMap.le_total (fun _ (p : PidDisk) => p.serviceTime) hp
    have hentry : ((s.totals[pid]?).getD {}).Balanced ∧
        ((s.totals[pid]?).getD {}).serviceTime = (s.totals[pid]?).elim 0 PidDisk.serviceTime ∧
        ((s.totals[pid]?).getD {}).serviceTime ≤ charged s.totals := by
      cases hp : s.totals[pid]? with
      | none => exact ⟨PidDisk.balanced_default, rfl, Nat.zero_le _⟩
      | some p => exact ⟨h.procs pid p hp, rfl, hold p hp⟩
    obtain ⟨hbalanced, helim, hle⟩ := hentry
    have hlt : ((s.totals[pid]?).getD {}).serviceTime + r.serviceTime < u64Bound := by omega
    simp only [State.recordRequest, hpid]
    refine ⟨?_, hlist, hdiskTotal, hunique, ?_, hcount⟩
    · have halter := OrdMap.total_alter (fun _ (p : PidDisk) => p.serviceTime) s.totals pid
        fun entry => some ((entry.getD {}).add write r.transferSize r.serviceTime r.disk)
      rw [Option.elim_some, PidDisk.serviceTime_add hlt, ← helim] at halter
      show charged (s.totals.alter pid _) + s.unattributedServiceTime = _
      rw [batchTime_concat]
      unfold charged at htotal ⊢
      omega
    · intro j p hp
      rw [OrdMap.getElem?_alter] at hp
      split_ifs at hp with hj
      · cases hp
        exact hbalanced.add hlt
      · exact h.procs j p hp

/-! ### Drained windows -/

/-- What a drained window has to say about the requests recorded for it. -/
structure Conserves (w : DiskWindow) (batch : List DiskRequest) : Prop where
  /-- What is charged to processes and what is charged to nobody is what was recorded. -/
  total : charged w.procs + w.unattributedServiceTime = batchTime batch
  totalServiceTime : w.totalServiceTime = batchTime batch
  disks : listTime w.diskTotals = batchTime batch
  diskTotal : ∀ d, w.diskTotal d = batchTime (batch.filter (·.disk = d))
  /-- A process's service time is the sum of its per-disk times. -/
  perDisk : ∀ (pid : ℕ) (p : PidDisk), w.procs[pid]? = some p →
    p.serviceTime = listTime p.perDisk
  unique : (Disk.disks w.diskTotals).Nodup ∧
    ∀ (pid : ℕ) (p : PidDisk), w.procs[pid]? = some p → (Disk.disks p.perDisk).Nodup
  counted : w.eventsDecoded = batch.length

/-- Adding up the dropped entries of a map, starting from an accumulator. -/
theorem foldl_dropped (procs : OrdMap ℕ PidDisk) (livePids : Finset ℕ) {acc : ℕ}
    (h : acc + charged procs < u64Bound) :
    procs.foldl (fun acc pid disk =>
        if pid ∈ livePids then acc else saturatingAdd acc disk.serviceTime) acc =
      acc + charged (procs.filter fun pid _ => !decide (pid ∈ livePids)) := by
  have hkeep := OrdMap.total_filter_add (fun _ (p : PidDisk) => p.serviceTime)
    (fun pid _ => decide (pid ∈ livePids)) procs
  have hlist : charged (procs.filter fun pid _ => !decide (pid ∈ livePids)) =
      ((procs.toList.filter fun a => !decide (a.1 ∈ livePids)).map
        fun a => a.2.serviceTime).sum := by
    rw [charged, OrdMap.total, Std.ExtTreeMap.toList_filter]
  have hfold := foldl_saturatingAdd (fun a : ℕ × PidDisk => a.2.serviceTime)
    (procs.toList.filter fun a => !decide (a.1 ∈ livePids)) (a := acc) (by
      rw [← hlist]
      unfold charged at h ⊢
      omega)
  rw [List.foldl_filter] at hfold
  rw [Std.ExtTreeMap.foldl_eq_foldl_toList, hlist, ← hfold]
  congr 1
  funext acc a
  by_cases ha : a.1 ∈ livePids <;> simp [ha]

/-- Pruning moves service time into the remainder, it does not drop it. -/
theorem charged_retainLive {procs : OrdMap ℕ PidDisk} {unattributed : ℕ} (livePids : Finset ℕ)
    (h : unattributed + charged procs < u64Bound) :
    charged (retainLive procs unattributed livePids).1 +
        (retainLive procs unattributed livePids).2 =
      charged procs + unattributed := by
  unfold retainLive
  split_ifs with hlive
  · rfl
  · have hkeep := OrdMap.total_filter_add (fun _ (p : PidDisk) => p.serviceTime)
      (fun pid _ => decide (pid ∈ livePids)) procs
    show charged (procs.filter _) + procs.foldl _ unattributed = _
    rw [foldl_dropped procs livePids h]
    unfold charged
    omega

/-- An entry that survives pruning is an entry from before. -/
theorem getElem?_of_retainLive {procs : OrdMap ℕ PidDisk} {unattributed : ℕ} {livePids : Finset ℕ}
    {pid : ℕ} {p : PidDisk} (h : (retainLive procs unattributed livePids).1[pid]? = some p) :
    procs[pid]? = some p := by
  unfold retainLive at h
  split_ifs at h with hlive
  · exact h
  · have hf : (procs.filter fun pid _ => decide (pid ∈ livePids))[pid]? = some p := h
    rw [Std.ExtTreeMap.getElem?_filter'] at hf
    exact (Option.filter_eq_some_iff.mp hf).1

/-- **Draining a window** keeps every recorded request. -/
theorem State.Accounts.takeWindow {s : State} {batch : List DiskRequest} (h : s.Accounts batch)
    (hu : batchTime batch < u64Bound) (sinceMs : ℕ) (livePids : Finset ℕ) (owners : OrdMap ℕ ℕ) :
    Conserves (s.takeWindow sinceMs livePids owners).2 batch := by
  have hlt : s.unattributedServiceTime + charged s.totals < u64Bound := by
    rw [Nat.add_comm, h.total]
    exact hu
  have htotal := (charged_retainLive livePids hlt).trans h.total
  have hbalanced : ∀ (pid : ℕ) (p : PidDisk),
      (retainLive s.totals s.unattributedServiceTime livePids).1[pid]? = some p → p.Balanced :=
    fun pid p hp => h.procs pid p (getElem?_of_retainLive hp)
  have hsum : (s.takeWindow sinceMs livePids owners).2.totalServiceTime = batchTime batch := by
    rw [← htotal, Nat.add_comm, DiskWindow.totalServiceTime, Std.ExtTreeMap.foldl_eq_foldl_toList]
    refine foldl_saturatingAdd (fun a : ℕ × PidDisk => a.2.serviceTime) _ ?_
    show (retainLive _ _ livePids).2 + charged (retainLive _ _ livePids).1 < u64Bound
    omega
  exact
    { total := htotal
      totalServiceTime := hsum
      disks := h.disks
      diskTotal := h.diskTotal
      perDisk := fun pid p hp => (hbalanced pid p hp).perDisk
      unique := ⟨h.unique, fun pid p hp => (hbalanced pid p hp).unique⟩
      counted := h.counted }

/-! ### Runs -/

/-- The accounts of a window as far as its counters have not saturated. -/
def DiskUsage.Holds (d : DiskUsage) (batch : List DiskRequest) : Prop :=
  Unsaturated batch → d.state.Accounts batch

/-- The requests recorded up to each drained window, the last batch being the one still running.
A stopped session records nothing more. -/
def batches : Bool → List DiskRequest → List Event → List (List DiskRequest)
  | _, batch, [] => [batch]
  | live, batch, .request request _ :: es =>
    batches live (if live then batch ++ [request] else batch) es
  | live, batch, .takeWindow _ _ _ :: es => batch :: batches live [] es
  | _, batch, .stop :: es => batches false batch es
  | live, batch, _ :: es => batches live batch es

/-- The requests delivered before the session stops, in order. -/
def recorded : Bool → List Event → List DiskRequest
  | _, [] => []
  | live, .request request _ :: es => if live then request :: recorded live es else recorded live es
  | _, .stop :: es => recorded false es
  | live, _ :: es => recorded live es

/-- The batches partition the requests. -/
theorem flatten_batches (live : Bool) (batch : List DiskRequest) (es : List Event) :
    (batches live batch es).flatten = batch ++ recorded live es := by
  induction es generalizing live batch with
  | nil => simp [batches, recorded]
  | cons e es ih =>
    cases e with
    | request request write =>
      cases live <;> simp [batches, recorded, ih]
    | takeWindow now livePids owners => simp [batches, recorded, ih]
    | _ => simp [batches, recorded, ih]

theorem batches_ne_nil (live : Bool) (batch : List DiskRequest) (es : List Event) :
    batches live batch es ≠ [] := by
  induction es generalizing live batch with
  | nil => exact List.cons_ne_nil _ _
  | cons e es ih =>
    cases e with
    | takeWindow now livePids owners => exact List.cons_ne_nil _ _
    | _ => exact ih _ _

/-- The accounts a callback does not touch stay as they are. -/
theorem State.Accounts.congr {s s' : State} {batch : List DiskRequest} (h : s.Accounts batch)
    (htotals : s'.totals = s.totals)
    (hunattributed : s'.unattributedServiceTime = s.unattributedServiceTime)
    (hdisks : s'.diskTotals = s.diskTotals) (hdecoded : s'.eventsDecoded = s.eventsDecoded) :
    s'.Accounts batch where
  total := by rw [htotals, hunattributed]; exact h.total
  disks := by rw [hdisks]; exact h.disks
  diskTotal := by rw [hdisks]; exact h.diskTotal
  unique := by rw [hdisks]; exact h.unique
  procs := by rw [htotals]; exact h.procs
  counted := by rw [hdecoded]; exact h.counted

theorem State.Accounts.trackThread {s : State} {batch : List DiskRequest} (h : s.Accounts batch)
    (pid tid : ℕ) : (s.trackThread pid tid).Accounts batch := by
  unfold State.trackThread
  split_ifs <;> exact h.congr rfl rfl rfl rfl

/-- What a callback keeps for every state, it keeps for the trace: a stopped trace ignores it. -/
theorem DiskUsage.Holds.whileLive {d : DiskUsage} {batch : List DiskRequest} (h : d.Holds batch)
    {f : State → State} (hf : ∀ s : State, s.Accounts batch → (f s).Accounts batch) :
    (d.whileLive f).Holds batch := by
  intro hu
  unfold DiskUsage.whileLive
  split_ifs
  · exact hf d.state (h hu)
  · exact h hu

theorem DiskUsage.live_whileLive (d : DiskUsage) (f : State → State) :
    (d.whileLive f).live = d.live := by
  unfold DiskUsage.whileLive
  split_ifs <;> rfl

theorem DiskUsage.Holds.request {d : DiskUsage} {batch : List DiskRequest} (h : d.Holds batch)
    (r : DiskRequest) (write : Bool) :
    (d.whileLive (·.recordRequest r write)).Holds (if d.live then batch ++ [r] else batch) := by
  unfold DiskUsage.whileLive
  split_ifs with hlive
  · exact fun hu => (h hu.of_concat).recordRequest write hu
  · exact h

/-- Each window drained from here on accounts for its own batch. -/
theorem DiskUsage.Holds.windows {d : DiskUsage} {batch : List DiskRequest} (h : d.Holds batch)
    (es : List Event) :
    List.Forall₂ (fun w b => Unsaturated b → Conserves w b) (d.windows es)
      (batches d.live batch es).dropLast := by
  induction es generalizing d batch with
  | nil => exact .nil
  | cons e es ih =>
    cases e with
    | request r write =>
      have hrest := ih (h.request r write)
      rw [DiskUsage.live_whileLive] at hrest
      exact hrest
    | undecodable payloadLen =>
      have hrest := ih (h.whileLive (f := (·.recordUndecodable payloadLen))
        fun s hs => hs.congr rfl rfl rfl rfl)
      rw [DiskUsage.live_whileLive] at hrest
      exact hrest
    | trackThread pid tid =>
      have hrest := ih (h.whileLive (f := (·.trackThread pid tid)) fun s hs =>
        hs.trackThread pid tid)
      rw [DiskUsage.live_whileLive] at hrest
      exact hrest
    | forgetThread tid =>
      have hrest := ih (h.whileLive (f := (·.forgetThread tid))
        fun s hs => hs.congr rfl rfl rfl rfl)
      rw [DiskUsage.live_whileLive] at hrest
      exact hrest
    | takeWindow now livePids owners =>
      have hne := batches_ne_nil d.live [] es
      show List.Forall₂ _ (_ :: _) (batch :: batches d.live [] es).dropLast
      rw [List.dropLast_cons_of_ne_nil hne]
      exact .cons (fun hu => (h hu).takeWindow hu.time _ _ _)
        (ih (d := (d.step (.takeWindow now livePids owners)).1) fun _ =>
          State.accounts_nil rfl rfl rfl rfl)
    | stop => exact ih (d := (d.step .stop).1) h

/-- **Every drained window accounts for exactly the requests recorded since the one before it.**
For every thread seed and every sequence of requests, thread events, drained windows and a stop,
the windows match the batches of requests between them, none of which loses or repeats a
request. -/
theorem windows_conserve (threads : OrdMap ℕ ℕ) (now : ℕ) (es : List Event) :
    List.Forall₂ (fun w b => Unsaturated b → Conserves w b)
        ((DiskUsage.start threads now).windows es) (batches true [] es).dropLast ∧
      (batches true [] es).flatten = recorded true es := by
  have hstart : (DiskUsage.start threads now).Holds [] := fun _ =>
    State.accounts_nil rfl rfl rfl rfl
  exact ⟨hstart.windows es, flatten_batches true [] es⟩

/-- A process exits between its request and the drain, next to a request nobody owns. -/
theorem windows_conserve_exited :
    let mine : DiskRequest :=
      { disk := 0, threadId := 100, transferSize := 4096, serviceTime := 50 }
    let other : DiskRequest :=
      { disk := 2, threadId := 400, transferSize := 512, serviceTime := 65 }
    ∃ w, (DiskUsage.start ∅ 0).windows [.trackThread 8 100, .request mine false,
        .request other true, .takeWindow 1000000 {12} ∅] = [w] ∧ Conserves w [mine, other] := by
  intro mine other
  have h := (windows_conserve ∅ 0 [.trackThread 8 100, .request mine false, .request other true,
    .takeWindow 1000000 {12} ∅]).1
  obtain ⟨w, ws, hw, hws, heq⟩ := List.forall₂_cons_right_iff.mp h
  exact ⟨w, heq.trans (List.forall₂_nil_right_iff.mp hws ▸ rfl), hw ⟨by decide, by decide⟩⟩

end Taskman.Etw.Disk
