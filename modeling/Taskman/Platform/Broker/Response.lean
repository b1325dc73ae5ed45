import Taskman.Platform.Broker.Dispatch
import Taskman.Platform.Broker.Frame
import Taskman.Platform.Etw.Disk
import Taskman.Text.Json

/-!
# The size of a broker response

The answer to a request is one JSON text in one frame of bounded size.  Answers that list
something are capped before they are written.

* `processNetworkSample`, `processDiskSample` : the two telemetry answers with their caps;
* `responseJson` : the text of a response;
* `Response.Fits` : the frame writer takes the response;
* `capped_responses_fit` : **whatever is listed, the response fits**.
-/

namespace Taskman

namespace Broker

/-! ### The telemetry answers -/

/-- The bytes of a process. -/
structure ProcessNetworkEntry where
  pid : UInt32
  received : UInt64
  sent : UInt64

/-- The network answer: the bytes of each process. -/
structure ProcessNetworkSample where
  active : Bool := false
  entries : List ProcessNetworkEntry := []

/-- The service time of a process on one disk. -/
structure ProcessDiskTime where
  disk : UInt32
  serviceTime : UInt64

/-- The disk activity of a process. -/
structure ProcessDiskEntry where
  pid : UInt32
  serviceTime : UInt64
  /-- `serviceTime` split by the physical disk that served it. -/
  disks : List ProcessDiskTime
  readBytes : UInt64
  writeBytes : UInt64
  ops : UInt64

/-- The disk answer: the activity of each process over a window. -/
structure ProcessDiskSample where
  active : Bool := false
  windowMs : UInt64 := 0
  totalServiceTime : UInt64 := 0
  eventsSeen : UInt64 := 0
  eventsDecoded : UInt64 := 0
  diskTotals : List ProcessDiskTime := []
  entries : List ProcessDiskEntry := []

/-- The most entries of a network answer. -/
def netMaxEntries : ℕ := 5000

/-- The most entries of a disk answer. -/
def diskMaxEntries : ℕ := 1800

/-- The most disk times of a disk answer, over all its entries. -/
def diskMaxDiskTimes : ℕ := 3600

/-- What a telemetry request finds: the slot of the trace (empty, or with whether the session in it
still runs), whether a session can be started, and what the session in the slot then measured. -/
structure TraceHost (α : Type) where
  slot : Option Bool
  starts : Bool
  measured : α

/-- `PidBytes` -/
structure PidBytes where
  received : UInt64
  sent : UInt64

/-- `process_network_sample` -/
def processNetworkSample (host : TraceHost (List (UInt32 × PidBytes))) : ProcessNetworkSample :=
  if host.slot ≠ some true ∧ ¬host.starts then {}
  else
    let entries := (host.measured.filter fun (_, bytes) => bytes.received ≠ 0 ∨ bytes.sent ≠ 0).map
      fun (pid, bytes) => { pid, received := bytes.received, sent := bytes.sent }
    if entries.length > netMaxEntries then {} else { active := true, entries }

/-- A per-disk list as it goes on the wire. -/
def toWire (times : List Etw.Disk.DiskTime) : List ProcessDiskTime :=
  times.map fun time => { disk := .ofNat time.disk, serviceTime := .ofNat time.serviceTime }

/-- `process_disk_sample`; `order` is the order in which the window's hash map is walked. -/
def processDiskSample (order : List (ℕ × Etw.Disk.PidDisk) → List (ℕ × Etw.Disk.PidDisk))
    (host : TraceHost Etw.Disk.DiskWindow) : ProcessDiskSample :=
  -- a session that was just started has no window yet
  if host.slot ≠ some true then {}
  else
    let window := host.measured
    let diskTotals := toWire window.diskTotals
    let procs := order window.procs.toList
    let entries := (procs.filter fun (_, disk) => disk.ops ≠ 0).map fun (pid, disk) =>
      { pid := .ofNat pid
        serviceTime := .ofNat disk.serviceTime
        disks := toWire disk.perDisk
        readBytes := .ofNat disk.readBytes
        writeBytes := .ofNat disk.writeBytes
        ops := .ofNat disk.ops : ProcessDiskEntry }
    let diskTimes := diskTotals.length + (entries.map fun entry => entry.disks.length).sum
    if entries.length > diskMaxEntries ∨ diskTimes > diskMaxDiskTimes then {}
    else
      { active := true
        windowMs := .ofNat window.sinceMs
        totalServiceTime := .ofNat window.totalServiceTime
        eventsSeen := .ofNat window.eventsSeen
        eventsDecoded := .ofNat window.eventsDecoded
        diskTotals
        entries }

/-! ### The text of a response -/

/-- The payloads of the answers, with those of the security requests left open. -/
abbrev payloads (security identity : Type) : Payloads :=
  ⟨ProcessNetworkSample, ProcessDiskSample, security, identity⟩

/-- A network entry as it is written. -/
def ProcessNetworkEntry.json (e : ProcessNetworkEntry) : Text :=
  Json.object
    [("pid", Json.nat e.pid.toNat), ("received", Json.nat e.received.toNat),
      ("sent", Json.nat e.sent.toNat)]

/-- A network answer as it is written. -/
def ProcessNetworkSample.json (sample : ProcessNetworkSample) : Text :=
  Json.object
    [("active", Json.bool sample.active),
      ("entries", Json.array (sample.entries.map ProcessNetworkEntry.json))]

/-- A disk time as it is written. -/
def ProcessDiskTime.json (time : ProcessDiskTime) : Text :=
  Json.object
    [("disk", Json.nat time.disk.toNat), ("service_time", Json.nat time.serviceTime.toNat)]

/-- A disk entry as it is written. -/
def ProcessDiskEntry.json (e : ProcessDiskEntry) : Text :=
  Json.object
    [("pid", Json.nat e.pid.toNat), ("service_time", Json.nat e.serviceTime.toNat),
      ("disks", Json.array (e.disks.map ProcessDiskTime.json)),
      ("read_bytes", Json.nat e.readBytes.toNat), ("write_bytes", Json.nat e.writeBytes.toNat),
      ("ops", Json.nat e.ops.toNat)]

/-- A disk answer as it is written. -/
def ProcessDiskSample.json (sample : ProcessDiskSample) : Text :=
  Json.object
    [("active", Json.bool sample.active), ("window_ms", Json.nat sample.windowMs.toNat),
      ("total_service_time", Json.nat sample.totalServiceTime.toNat),
      ("events_seen", Json.nat sample.eventsSeen.toNat),
      ("events_decoded", Json.nat sample.eventsDecoded.toNat),
      ("disk_totals", Json.array (sample.diskTotals.map ProcessDiskTime.json)),
      ("entries", Json.array (sample.entries.map ProcessDiskEntry.json))]

/-- A module as it is written. -/
def ProcessModule.json (m : ProcessModule) : Text :=
  Json.object
    [("name", Json.str m.name), ("path", Json.str m.path),
      ("base_address", Json.nat m.baseAddress.toNat), ("size_bytes", Json.nat m.sizeBytes.toNat)]

/-- A list of modules as it is written. -/
def modulesText (modules : List ProcessModule) : Text :=
  Json.array (modules.map ProcessModule.json)

/-- The samples of a module as they are written. -/
def ProcessModuleCodeSamples.json (m : ProcessModuleCodeSamples) : Text :=
  Json.object [("base_address", Json.nat m.baseAddress.toNat), ("samples", Json.nat m.samples)]

/-- A window of samples as it is written. -/
def ProcessModuleCodeWindow.json (w : ProcessModuleCodeWindow) : Text :=
  Json.object
    [("window_ms", Json.nat w.windowMs), ("events_seen", Json.nat w.eventsSeen),
      ("events_decoded", Json.nat w.eventsDecoded),
      ("events_lost", Json.option Json.nat w.eventsLost),
      ("target_samples", Json.nat w.targetSamples),
      ("attributed_samples", Json.nat w.attributedSamples),
      ("tracked_threads", Json.nat w.trackedThreads),
      ("modules", Json.array (w.modules.map ProcessModuleCodeSamples.json))]

/-- The details of a thread as they are written. -/
def ProcessThreadDetail.json (thread : ProcessThreadDetail) : Text :=
  Json.object
    [("tid", Json.nat thread.tid), ("created_epoch_s", Json.option Json.int thread.createdEpochS),
      ("start_address", Json.option (fun a => Json.nat a.toNat) thread.startAddress),
      ("cycles", Json.option Json.nat thread.cycles)]

/-- A list of thread details as it is written. -/
def threadsText (threads : List ProcessThreadDetail) : Text :=
  Json.array (threads.map ProcessThreadDetail.json)

/-- A replacement state as it is written. -/
def TaskManagerReplacementState.json : TaskManagerReplacementState → Text
  | unsupported => Json.str "Unsupported".toList
  | disabled => Json.str "Disabled".toList
  | enabled => Json.str "Enabled".toList
  | stale value => Json.object [("Stale", Json.str value)]
  | conflict value => Json.object [("Conflict", Json.str value)]

section Json

variable {security identity : Type} (securityJson : security → Text)
  (identityJson : identity → Text)

/-- A variant with its content, if it has one. -/
def taggedJson (name : String) (content : Option Text) : Text :=
  Json.object (("result", Json.str name.toList) :: content.toList.map fun c => ("value", c))

/-- A value as it is written, under its tag. -/
def valueJson : BrokerValue (payloads security identity) → Text
  | .pong version => taggedJson "pong" (Json.object [("version", Json.str version)])
  | .unit => taggedJson "unit" none
  | .affinityMask mask => taggedJson "affinity_mask" (Json.nat mask.toNat)
  | .taskManagerReplacementState state => taggedJson "task_manager_replacement_state" state.json
  | .processNetwork sample => taggedJson "process_network" (ProcessNetworkSample.json sample)
  | .processDisk sample => taggedJson "process_disk" (ProcessDiskSample.json sample)
  | .processSecurity info => taggedJson "process_security" (securityJson info)
  | .processIdentity identity => taggedJson "process_identity" (identityJson identity)
  | .processModules modules => taggedJson "process_modules" (modulesText modules)
  | .processModuleCodeSamples window =>
    taggedJson "process_module_code_samples" (Json.option ProcessModuleCodeWindow.json window)
  | .processThreadDetails threads => taggedJson "process_thread_details" (threadsText threads)
  | .moduleUnload stillMapped verified released =>
    taggedJson "module_unload" (Json.object
      [("still_mapped", Json.bool stillMapped), ("verified", Json.bool verified),
        ("released", Json.nat released)])

/-- The response to a request with the given result. -/
def responseJson (result : Except TmError (BrokerValue (payloads security identity))) : Text :=
  let value := match result with
    | .ok value => Json.object [("Ok", valueJson securityJson identityJson value)]
    | .error error => Json.object [("Err", Json.str error.display)]
  Json.object [("protocol_version", Json.nat protocolVersion), ("value", value)]

end Json

/-! ### The size of the parts -/

section Size

theorem utf8Len_u32 (x : UInt32) : Text.utf8Len (Json.nat x.toNat) ≤ 10 :=
  Json.utf8Len_nat_le (by norm_num) (x.toNat_lt.trans (by norm_num))

theorem utf8Len_u64 (x : UInt64) : Text.utf8Len (Json.nat x.toNat) ≤ 20 :=
  Json.utf8Len_nat_le (by norm_num) (x.toNat_lt.trans (by norm_num))

theorem ProcessNetworkEntry.utf8Len_json_le (e : ProcessNetworkEntry) :
    Text.utf8Len e.json ≤ 79 := by
  have hnames : Text.utf8Len (Json.str "pid".toList) = 5 ∧
      Text.utf8Len (Json.str "received".toList) = 10 ∧
        Text.utf8Len (Json.str "sent".toList) = 6 := by decide
  have hpid := utf8Len_u32 e.pid
  have hreceived := utf8Len_u64 e.received
  have hsent := utf8Len_u64 e.sent
  refine (Json.utf8Len_object_le _).trans ?_
  simp only [List.map_cons, List.map_nil, List.sum_cons, List.sum_nil]
  omega

theorem ProcessNetworkSample.utf8Len_json_le {sample : ProcessNetworkSample}
    (h : sample.entries.length ≤ netMaxEntries) : Text.utf8Len sample.json ≤ 400100 := by
  have hnames : Text.utf8Len (Json.str "active".toList) = 8 ∧
      Text.utf8Len (Json.str "entries".toList) = 9 := by decide
  have hactive := Json.utf8Len_bool_le sample.active
  have hentries : Text.utf8Len (Json.array (sample.entries.map ProcessNetworkEntry.json)) ≤
      (sample.entries.map ProcessNetworkEntry.json).length * (79 + 1) + 2 := by
    refine Json.utf8Len_array_le_of_forall fun t ht => ?_
    obtain ⟨e, _, rfl⟩ := List.mem_map.mp ht
    exact e.utf8Len_json_le
  rw [List.length_map] at hentries
  unfold netMaxEntries at h
  refine (Json.utf8Len_object_le _).trans ?_
  simp only [List.map_cons, List.map_nil, List.sum_cons, List.sum_nil]
  omega

theorem ProcessDiskTime.utf8Len_json_le (time : ProcessDiskTime) : Text.utf8Len time.json ≤ 56 := by
  have hnames : Text.utf8Len (Json.str "disk".toList) = 6 ∧
      Text.utf8Len (Json.str "service_time".toList) = 14 := by decide
  have hdisk := utf8Len_u32 time.disk
  have htime := utf8Len_u64 time.serviceTime
  refine (Json.utf8Len_object_le _).trans ?_
  simp only [List.map_cons, List.map_nil, List.sum_cons, List.sum_nil]
  omega

theorem utf8Len_diskTimes_le (times : List ProcessDiskTime) :
    Text.utf8Len (Json.array (times.map ProcessDiskTime.json)) ≤ times.length * 57 + 2 := by
  rw [← List.length_map (f := ProcessDiskTime.json)]
  refine Json.utf8Len_array_le_of_forall fun t ht => ?_
  obtain ⟨time, _, rfl⟩ := List.mem_map.mp ht
  exact time.utf8Len_json_le

theorem ProcessDiskEntry.utf8Len_json_le (e : ProcessDiskEntry) :
    Text.utf8Len e.json ≤ 162 + e.disks.length * 57 := by
  have hnames : Text.utf8Len (Json.str "pid".toList) = 5 ∧
      Text.utf8Len (Json.str "service_time".toList) = 14 ∧
        Text.utf8Len (Json.str "disks".toList) = 7 ∧
        Text.utf8Len (Json.str "read_bytes".toList) = 12 ∧
          Text.utf8Len (Json.str "write_bytes".toList) = 13 ∧
            Text.utf8Len (Json.str "ops".toList) = 5 := by
    decide
  have hpid := utf8Len_u32 e.pid
  have htime := utf8Len_u64 e.serviceTime
  have hdisks := utf8Len_diskTimes_le e.disks
  have hread := utf8Len_u64 e.readBytes
  have hwrite := utf8Len_u64 e.writeBytes
  have hops := utf8Len_u64 e.ops
  refine (Json.utf8Len_object_le _).trans ?_
  simp only [List.map_cons, List.map_nil, List.sum_cons, List.sum_nil]
  omega

theorem utf8Len_diskEntries_le (entries : List ProcessDiskEntry) :
    Text.utf8Len (Json.array (entries.map ProcessDiskEntry.json)) ≤
      entries.length * 163 + (entries.map fun e => e.disks.length).sum * 57 + 2 := by
  have hsum : ((entries.map ProcessDiskEntry.json).map fun t => Text.utf8Len t + 1).sum ≤
      entries.length * 163 + (entries.map fun e => e.disks.length).sum * 57 := by
    induction entries with
    | nil => exact le_rfl
    | cons e entries ih =>
      have he := e.utf8Len_json_le
      simp only [List.map_cons, List.sum_cons, List.length_cons]
      omega
  exact (Json.utf8Len_array_le _).trans (Nat.add_le_add_right hsum 2)

theorem ProcessDiskSample.utf8Len_json_le {sample : ProcessDiskSample}
    (hentries : sample.entries.length ≤ diskMaxEntries)
    (htimes : sample.diskTotals.length + (sample.entries.map fun e => e.disks.length).sum ≤
      diskMaxDiskTimes) : Text.utf8Len sample.json ≤ 500000 := by
  have hnames : Text.utf8Len (Json.str "active".toList) = 8 ∧
      Text.utf8Len (Json.str "window_ms".toList) = 11 ∧
        Text.utf8Len (Json.str "total_service_time".toList) = 20 ∧
          Text.utf8Len (Json.str "events_seen".toList) = 13 ∧
            Text.utf8Len (Json.str "events_decoded".toList) = 16 ∧
              Text.utf8Len (Json.str "disk_totals".toList) = 13 ∧
                Text.utf8Len (Json.str "entries".toList) = 9 := by decide
  have hactive := Json.utf8Len_bool_le sample.active
  have hwindow := utf8Len_u64 sample.windowMs
  have htotal := utf8Len_u64 sample.totalServiceTime
  have hseen := utf8Len_u64 sample.eventsSeen
  have hdecoded := utf8Len_u64 sample.eventsDecoded
  have htotals := utf8Len_diskTimes_le sample.diskTotals
  have hlist := utf8Len_diskEntries_le sample.entries
  unfold diskMaxEntries at hentries
  unfold diskMaxDiskTimes at htimes
  refine (Json.utf8Len_object_le _).trans ?_
  simp only [List.map_cons, List.map_nil, List.sum_cons, List.sum_nil]
  omega

end Size

/-! ### Responses that fit -/

section Fits

variable {security identity : Type} {securityJson : security → Text}
  {identityJson : identity → Text}

/-- The response is within the limit of its frame, so the frame writer takes it. -/
def Fits (securityJson : security → Text) (identityJson : identity → Text)
    (result : Except TmError (BrokerValue (payloads security identity))) : Prop :=
  Text.utf8Len (responseJson securityJson identityJson result) ≤ maxResponseBytes ∧
    ∃ bytes, writeFrame frameResponse (responseJson securityJson identityJson result).utf8
      maxResponseBytes = .ok bytes

theorem fits_of_le {result : Except TmError (BrokerValue (payloads security identity))}
    (h : Text.utf8Len (responseJson securityJson identityJson result) ≤ maxResponseBytes) :
    Fits securityJson identityJson result := by
  refine ⟨h, _, if_neg ?_⟩
  rw [Text.length_utf8]
  unfold maxResponseBytes at h ⊢
  unfold u32Max
  omega

/-- What is around a value leaves a kilobyte to spare. -/
theorem fits_of_tagged {value : BrokerValue (payloads security identity)} {name : String}
    {content : Text}
    (h : valueJson securityJson identityJson value = taggedJson name (some content))
    (hname : Text.utf8Len (Json.str name.toList) ≤ 64)
    (hcontent : Text.utf8Len content ≤ maxResponseBytes - 1024) :
    Fits securityJson identityJson (.ok value) := by
  have hnames : Text.utf8Len (Json.str "protocol_version".toList) = 18 ∧
      Text.utf8Len (Json.str "value".toList) = 7 ∧ Text.utf8Len (Json.str "Ok".toList) = 4 ∧
        Text.utf8Len (Json.str "result".toList) = 8 ∧
          Text.utf8Len (Json.nat protocolVersion) = 1 := by decide
  have htagged := Json.utf8Len_object_le
    [("result", Json.str name.toList), ("value", content)]
  have hok := Json.utf8Len_object_le [("Ok", taggedJson name (some content))]
  refine fits_of_le ((Json.utf8Len_object_le _).trans ?_)
  simp only [List.map_cons, List.map_nil, List.sum_cons, List.sum_nil] at htagged hok ⊢
  rw [h]
  unfold taggedJson at hok ⊢
  rw [Option.toList_some, List.map_cons, List.map_nil] at hok ⊢
  unfold maxResponseBytes at hcontent ⊢
  omega

/-- An error text of moderate length fits. -/
theorem fits_error {error : TmError} (h : Text.utf8Len error.display ≤ 4096) :
    Fits securityJson identityJson (.error error) := by
  have hnames : Text.utf8Len (Json.str "protocol_version".toList) = 18 ∧
      Text.utf8Len (Json.str "value".toList) = 7 ∧ Text.utf8Len (Json.str "Err".toList) = 5 ∧
        Text.utf8Len (Json.nat protocolVersion) = 1 := by decide
  have herr := Json.utf8Len_object_le [("Err", Json.str error.display)]
  have hstr := Json.utf8Len_str_le error.display
  refine fits_of_le ((Json.utf8Len_object_le _).trans ?_)
  simp only [List.map_cons, List.map_nil, List.sum_cons, List.sum_nil] at herr ⊢
  unfold maxResponseBytes
  omega

theorem length_entries_processNetworkSample (host : TraceHost (List (UInt32 × PidBytes))) :
    (processNetworkSample host).entries.length ≤ netMaxEntries := by
  unfold processNetworkSample
  dsimp only
  split_ifs with _ hlen
  · exact Nat.zero_le _
  · exact Nat.zero_le _
  · exact not_lt.mp hlen

theorem lengths_processDiskSample
    (order : List (ℕ × Etw.Disk.PidDisk) → List (ℕ × Etw.Disk.PidDisk))
    (host : TraceHost Etw.Disk.DiskWindow) :
    (processDiskSample order host).entries.length ≤ diskMaxEntries ∧
      (processDiskSample order host).diskTotals.length +
        ((processDiskSample order host).entries.map fun e => e.disks.length).sum ≤
          diskMaxDiskTimes := by
  unfold processDiskSample
  dsimp only
  split_ifs with _ hlen
  · exact ⟨Nat.zero_le _, Nat.zero_le _⟩
  · exact ⟨Nat.zero_le _, Nat.zero_le _⟩
  · exact ⟨not_lt.mp (not_or.mp hlen).1, not_lt.mp (not_or.mp hlen).2⟩

theorem fits_processNetwork (host : TraceHost (List (UInt32 × PidBytes))) :
    Fits securityJson identityJson (.ok (.processNetwork (processNetworkSample host))) := by
  refine fits_of_tagged rfl (by decide) ?_
  have h := ProcessNetworkSample.utf8Len_json_le (length_entries_processNetworkSample host)
  unfold maxResponseBytes
  omega

theorem fits_processDisk (order : List (ℕ × Etw.Disk.PidDisk) → List (ℕ × Etw.Disk.PidDisk))
    (host : TraceHost Etw.Disk.DiskWindow) :
    Fits securityJson identityJson (.ok (.processDisk (processDiskSample order host))) := by
  refine fits_of_tagged rfl (by decide) ?_
  obtain ⟨hentries, htimes⟩ := lengths_processDiskSample order host
  have h := ProcessDiskSample.utf8Len_json_le hentries htimes
  unfold maxResponseBytes
  omega

/-! ### The answers of `dispatch` -/

/-- What `dispatch` takes from its process and from the JSON writer. -/
def jsonEnv (version : Text) (processId : ℕ) : DispatchEnv where
  version := version
  processId := processId
  modulesJson modules := .ok (Text.utf8Len (modulesText modules))
  threadsJson threads := .ok (Text.utf8Len (threadsText threads))

/-- The requests whose answer lists something. -/
def BrokerRequest.Lists : BrokerRequest → Prop
  | processNetworkCounters => True
  | processDiskCounters => True
  | processModules _ _ => True
  | processThreadDetails _ _ => True
  | _ => False

/-- The backend has answered a call for a list with some list, measured as the service measures. -/
def Listed : BrokerEvent (payloads security identity) → Prop
  | ⟨.query .processNetworkSample, sample⟩ => ∃ host, sample = processNetworkSample host
  | ⟨.query .processDiskSample, sample⟩ => ∃ order host, sample = processDiskSample order host
  | ⟨.query (.listProcessModulesWithFallback _ _), answer⟩ => ∃ modules, answer = .ok modules
  | ⟨.query (.listProcessThreads _ _), answer⟩ => ∃ threads, answer = .ok threads
  | _ => True

/-- What is promised of a run: if the backend has listed something, the response fits. -/
def FitsWhenListed (securityJson : security → Text) (identityJson : identity → Text)
    (calls : List (BrokerEvent (payloads security identity)))
    (result : Except TmError (BrokerValue (payloads security identity))) : Prop :=
  (∀ e ∈ calls, Listed e) → Fits securityJson identityJson result

section Arms

variable {calls : List (BrokerEvent (payloads security identity))}

open Program

/-- A request without a creation time is refused in few words. -/
theorem fits_sampledStart {context : String} (hcontext : Text.utf8Len (platformError context
      "a valid sampled process creation time is required").display ≤ 4096) (expected : Option ℤ)
    {f : ℤ → BrokerM (payloads security identity) (BrokerValue (payloads security identity))}
    (hf : ∀ start, (f start).Safe (fun _ _ => True)
      (FitsWhenListed securityJson identityJson) calls) :
    (sampledStart context expected >>= f).Safe (fun _ _ => True)
      (FitsWhenListed securityJson identityJson) calls := by
  rw [safe_bind, sampledStart]
  cases expected.filter (0 < ·) with
  | none => exact fun _ => fits_error hcontext
  | some start => exact hf start

/-- The two bounds either refuse a list in few words or leave a list whose text is short. -/
theorem fits_bounded {context what : String} {limit : ℕ} {α : Type} {text : List α → Text}
    {entries : List α}
    {value : BrokerValue (payloads security identity)}
    (hentry : Text.utf8Len (platformError context
      (what ++ " exceeds the bounded broker entry limit")).display ≤ 4096)
    (hresponse : Text.utf8Len (platformError context
      (what ++ " exceeds the bounded broker response limit")).display ≤ 4096)
    (hvalue : Text.utf8Len (text entries) ≤ maxResponseBytes - 1024 →
      Fits securityJson identityJson (.ok value)) :
    (bounded context what limit (fun l => .ok (Text.utf8Len (text l))) entries >>=
      fun _ => pure value).Safe (fun _ _ => True)
        (FitsWhenListed securityJson identityJson) calls := by
  rw [safe_bind]
  unfold bounded
  split_ifs with hlen
  · exact fun _ => fits_error hentry
  · dsimp only
    split_ifs with hsize
    · exact fun _ => fits_error hresponse
    · exact fun _ => hvalue (not_lt.mp hsize)

/-- A query that lists something is answered with a list, or nothing is promised. -/
theorem fits_ask {q : Query} {α : Type}
    (hq : q.Answer (payloads security identity) = Except TmError α)
    (hlisted : ∀ x : BrokerCall.Answer (payloads security identity) (.query q),
      Listed ⟨.query q, x⟩ → ∃ value, cast hq x = .ok value)
    {f : α → BrokerM (payloads security identity) (BrokerValue (payloads security identity))}
    (hf : ∀ value calls, (f value).Safe (fun _ _ => True)
      (FitsWhenListed securityJson identityJson) calls) :
    (ask q hq >>= f).Safe (fun _ _ => True) (FitsWhenListed securityJson identityJson) calls := by
  rw [safe_bind, ask, safe_bind, safe_perform]
  refine ⟨trivial, fun x => ?_⟩
  rw [Continue, safe_ofExcept]
  cases hx : cast hq x with
  | ok value => exact hf value _
  | error e =>
    intro hall
    obtain ⟨value, hvalue⟩ := hlisted x (hall _ (List.mem_append_right _ List.mem_cons_self))
    rw [hx] at hvalue
    cases hvalue

/-- The arms that list something. -/
theorem safe_lists (version : Text) (processId : ℕ) {request : BrokerRequest}
    (hrequest : request.Lists) (gui : ℕ) :
    (dispatch (jsonEnv version processId) request gui :
      BrokerM (payloads security identity) _).Safe (fun _ _ => True)
        (FitsWhenListed securityJson identityJson) [] := by
  cases request with
  | processNetworkCounters =>
    refine (safe_bind _ _).mpr (safe_perform.mpr ⟨trivial, fun x hlisted => ?_⟩)
    obtain ⟨host, rfl⟩ := hlisted _ List.mem_cons_self
    exact fits_processNetwork host
  | processDiskCounters =>
    refine (safe_bind _ _).mpr (safe_perform.mpr ⟨trivial, fun x hlisted => ?_⟩)
    obtain ⟨order, host, rfl⟩ := hlisted _ List.mem_cons_self
    exact fits_processDisk order host
  | processModules pid expected =>
    refine fits_sampledStart (by decide) expected fun start => ?_
    refine fits_ask (q := .listProcessModulesWithFallback pid (some start)) rfl (fun _ h => h)
      fun modules calls => ?_
    exact fits_bounded (by decide) (by decide) (fits_of_tagged rfl (by decide))
  | processThreadDetails pid expected =>
    refine fits_sampledStart (by decide) expected fun start => ?_
    refine fits_ask (q := .listProcessThreads pid (some start)) rfl (fun _ h => h)
      fun threads calls => ?_
    exact fits_bounded (by decide) (by decide) (fits_of_tagged rfl (by decide))
  | _ => exact hrequest.elim

end Arms

/-- **Capped responses fit.**  Whatever the backend lists, the response to a request for a list is
within the limit of the frame, and the frame writer takes it. -/
theorem capped_responses_fit {σ : Type} (version : Text) (processId : ℕ) {request : BrokerRequest}
    (hrequest : request.Lists) (gui : ℕ)
    (handler : σ → (call : BrokerCall) → BrokerCall.Answer (payloads security identity) call × σ)
    (s : σ)
    (hlisted : ∀ e ∈ ((dispatch (jsonEnv version processId) request gui).run handler s).1,
      Listed e) :
    Fits securityJson identityJson
      ((dispatch (jsonEnv version processId) request gui).run handler s).2.1 :=
  (Program.run_of_safe (safe_lists version processId hrequest gui) handler s).1 hlisted

end Fits

/-- A module with a short path. -/
def sampleModule : ProcessModule := ⟨"a.dll".toList, "C:\\a.dll".toList, 4096, 512⟩

/-- A backend that lists one module. -/
def moduleBackend (_ : Unit) : (c : BrokerCall) → c.Answer (payloads Unit Unit) × Unit
  | .query (.openProcess _) => (.ok (), ())
  | .query (.isProcessCritical _) => (.ok false, ())
  | .query .processNetworkSample => ({}, ())
  | .query .processDiskSample => ({}, ())
  | .query (.processSecurityInfo _ _) => (.ok (), ())
  | .query (.processIdentityChecked _ _) => (.ok (), ())
  | .query (.listProcessModulesWithFallback _ _) => (.ok [sampleModule], ())
  | .query (.sampleProcessModuleCode _ _ _) => (.ok none, ())
  | .query (.listProcessThreads _ _) => (.ok [], ())
  | .query (.getAffinityMaskChecked _ _) => (.ok 1, ())
  | .query .systemAffinityMask => (.ok 1, ())
  | .query .expectedInstalledGuiPath => (.ok [], ())
  | .query (.taskManagerReplacementStateFor _) => (.disabled, ())
  | .act _ => (.error .canceled, ())

theorem capped_responses_fit_module :
    Fits (fun _ => []) (fun _ => [])
      ((dispatch (jsonEnv "1".toList 20) (.processModules 100 (some 5)) 50).run
        moduleBackend ()).2.1 := by
  refine capped_responses_fit "1".toList 20
    (show (BrokerRequest.processModules 100 (some 5)).Lists from trivial) 50 moduleBackend ()
    fun e he => ?_
  obtain rfl : e = ⟨.query (.listProcessModulesWithFallback 100 (some 5)), .ok [sampleModule]⟩ :=
    List.mem_singleton.mp he
  exact ⟨[sampleModule], rfl⟩

end Broker

end Taskman
