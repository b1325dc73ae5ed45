import Taskman.Platform.Etw
import Taskman.Core.Model
import Taskman.Metering.Total
import Taskman.Text.Utf16

/-!
# Loader rundown of a protected process

The kernel's image events are followed for one target process.  A load (or the data-collection
record of an image already mapped) enters the table, an unload (or the closing data-collection
record) leaves it.  Anything that may have concerned the target and could not be read, and any
image the bounded table had no room for, makes the list unavailable for good.

* `Heard` : what one trace record says about the target;
* `table` : the images of the target after a list of events, without any bound;
* `LoadedBy` : an image is loaded and not yet unloaded, in terms of the list of events;
* `snapshot_eq_some_iff` : **a snapshot is the complete list of the target's modules, or none.**

The `live` flag of the source falls only when the owner drops the session, after which no
snapshot is taken; the records here are those delivered before.
-/

namespace Taskman.Etw.Modules

/-- An image is unloaded. -/
def opcodeImageUnload : ℕ := 2

/-- An image was there when the session began. -/
def opcodeImageDcStart : ℕ := 3

/-- An image was there when the session ended. -/
def opcodeImageDcStop : ℕ := 4

/-- An image is loaded. -/
def opcodeImageLoad : ℕ := 10

/-- A protected process cannot have more images than this. -/
def maxTrackedModules : ℕ := 8192

/-- The longest path that is read. -/
def maxPathChars : ℕ := 32768

/-- What is read of an image. -/
structure ImageEvent where
  pid : ℕ
  baseAddress : ℕ
  sizeBytes : ℕ
  path : Text
  deriving DecidableEq

/-- A module as it is listed. -/
structure ProcessModule where
  name : Text
  path : Text
  baseAddress : ℕ
  sizeBytes : ℕ
  deriving DecidableEq

/-! ### Decoding -/

/-- A pointer of 4 or 8 bytes. -/
def readPointer (payload : Bytes) (offset pointerBytes : ℕ) : Option ℕ :=
  match pointerBytes with
  | 4 => payload.readLe? offset 4
  | 8 => payload.readLe? offset 8
  | _ => none

/-- A text that ends with a zero. -/
def readUtf16String (payload : Bytes) (offset : ℕ) : Option Text := do
  let bytes ← payload.slice? offset payload.length
  let units := bytes.utf16Units
  if units.length = 0 ∨ maxPathChars < units.length then none
  else
    let wide := units.takeWhile (· ≠ 0)
    -- the terminator has to be there
    if wide.length = units.length then none
    else if wide.isEmpty then none
    else some (Text.fromUtf16Lossy wide)

/-- The size, the process id and the offset of the path, by payload version. -/
def imageFields (payload : Bytes) (pointerBytes version headerPid : ℕ) (load : Bool) :
    Option (ℕ × ℕ × ℕ) :=
  let pidOffset := pointerBytes * 2
  match version with
  | 0 =>
    -- load-only, and without a process id of its own
    if load then do
      let size ← payload.readLe? pointerBytes 4
      some (size, headerPid, pointerBytes + 4)
    else none
  | 1 => do
    let size ← readPointer payload pointerBytes pointerBytes
    let pid ← payload.readLe? pidOffset 4
    some (size, pid, pidOffset + 4)
  | 2 | 3 => do
    let size ← readPointer payload pointerBytes pointerBytes
    let pid ← payload.readLe? pidOffset 4
    some (size, pid, pidOffset + pointerBytes + 32)
  | _ => none

/-- Decode one classic `Image_Load` record. -/
def parseImageEvent (payload : Bytes) (pointerBytes version headerPid : ℕ) (load : Bool) :
    Option ImageEvent :=
  if pointerBytes ≠ 4 ∧ pointerBytes ≠ 8 then none
  else do
    let baseAddress ← readPointer payload 0 pointerBytes
    let (sizeBytes, pid, pathOffset) ← imageFields payload pointerBytes version headerPid load
    if baseAddress = 0 ∨ sizeBytes = 0 then none
    else if !plausibleClientId pid then none
    else
      let path ← readUtf16String payload pathOffset
      some { pid, baseAddress, sizeBytes, path }

/-- The process of an image; the first version of the event has it in the header only. -/
def imageEventPid (payload : Bytes) (pointerBytes version headerPid : ℕ) (load : Bool) :
    Option ℕ :=
  if pointerBytes ≠ 4 ∧ pointerBytes ≠ 8 then none
  else if version = 0 then if load then some headerPid else none
  else payload.readLe? (pointerBytes * 2) 4

/-! ### Paths -/

/-- The rest of `ntPath` after `device`, if the device name ends at a path separator. -/
def stripDevicePrefix (ntPath device : Text) : Option Text :=
  if Text.toAsciiLowercase (ntPath.take device.length) = Text.toAsciiLowercase device then
    let tail := ntPath.drop device.length
    if tail.isEmpty || tail.head? == some '\\' then some tail else none
  else none

/-- Translate `\Device\HarddiskVolume3\Windows\...` into `C:\Windows\...`; an untranslatable path
is returned unchanged. -/
def dosPath (ntPath : Text) : List (Text × Text) → Text
  | [] => ntPath
  | (device, letter) :: map =>
    match stripDevicePrefix ntPath device with
    | some rest => letter ++ rest
    | none => dosPath ntPath map

/-- The last part of a path. -/
def imageName (path : Text) : Text :=
  ((path.splitOnP fun c => c == '\\' || c == '/').reverse.find? fun part => !part.isEmpty).getD
    path

/-- The module an image event describes; `devices` is the process-wide volume map. -/
def moduleOf (devices : List (Text × Text)) (event : ImageEvent) : ProcessModule :=
  let path := dosPath event.path devices
  { name := imageName path
    path
    baseAddress := event.baseAddress
    sizeBytes := event.sizeBytes }

/-! ### The recorder -/

/-- The modules of a process, and how well they were read. -/
structure State where
  modules : OrdMap ℕ ProcessModule := ∅
  eventsSeen : ℕ := 0
  eventsDecoded : ℕ := 0
  rejectedPayloadLen : ℕ := 0
  rejectedVersion : Option ℕ := none
  targetDecodeFailures : ℕ := 0
  overflowed : Bool := false
  loggedIncomplete : Bool := false

/-- A record of the target, or of nobody knows whom, that could not be decoded. -/
def State.reject (s : State) (payloadLen version : ℕ) : State :=
  { s with
    targetDecodeFailures := saturatingAdd s.targetDecodeFailures 1
    rejectedPayloadLen := payloadLen
    rejectedVersion := some version }

/-- A decoded event of the target enters the table or leaves it. -/
def State.place (devices : List (Text × Text)) (s : State) (load : Bool) (event : ImageEvent) :
    State :=
  if load then
    if event.baseAddress ∉ s.modules ∧ maxTrackedModules ≤ s.modules.size then
      { s with overflowed := true }
    else { s with modules := s.modules.insert event.baseAddress (moduleOf devices event) }
  else { s with modules := s.modules.erase event.baseAddress }

/-- An image event is seen. -/
def State.record (devices : List (Text × Text)) (s : State) (targetPid : ℕ)
    (event : Option ImageEvent) (pid : Option ℕ) (payloadLen version : ℕ) (load : Bool) : State :=
  let s := { s with eventsSeen := saturatingAdd s.eventsSeen 1 }
  match pid with
  | none => s.reject payloadLen version
  | some pid =>
    if pid ≠ targetPid then s
    else
      match event with
      | none => s.reject payloadLen version
      | some event =>
        let s := { s with eventsDecoded := saturatingAdd s.eventsDecoded 1 }
        s.place devices load event

/-- The modules, unless something of them was missed. -/
def State.snapshot (s : State) (eventsLost : Option ℕ) : State × Option (List ProcessModule) :=
  let incomplete := s.overflowed || s.modules.isEmpty || s.eventsDecoded == 0 ||
    s.targetDecodeFailures != 0 || eventsLost != some 0
  if incomplete then ({ s with loggedIncomplete := true }, none)
  else
    (s, some ((s.modules.toList.map Prod.snd).mergeSort fun a b =>
      decide (a.baseAddress ≤ b.baseAddress)))

/-- Whether a record of the image class is a load, by its opcode. -/
def loadOpcode (opcode : ℕ) : Option Bool :=
  if opcode = opcodeImageLoad ∨ opcode = opcodeImageDcStart then some true
  else if opcode = opcodeImageUnload ∨ opcode = opcodeImageDcStop then some false
  else none

/-- What the callback reads from a record: the process id, and the event when it is the
target's. -/
def readRecord (targetPid : ℕ) (r : EventRecord) (load : Bool) : Option ℕ × Option ImageEvent :=
  match r.payload with
  | none => (none, none)
  | some payload =>
    let pid := imageEventPid payload r.pointerBytes r.version r.processId load
    (pid, if pid = some targetPid then
      parseImageEvent payload r.pointerBytes r.version r.processId load else none)

/-- The record callback. -/
def onEvent (devices : List (Text × Text)) (targetPid : ℕ) (s : State) (r : EventRecord) : State :=
  if r.providerId ≠ .imageLoad then s
  else
    match loadOpcode r.opcode with
    | none => s
    | some load =>
      let (pid, event) := readRecord targetPid r load
      s.record devices targetPid event pid r.userData.length r.version load

/-- What can happen to a rundown: a trace record arrives, or somebody asks for the list. -/
inductive Action where
  | event (r : EventRecord)
  | snapshot (eventsLost : Option ℕ)

/-- What an action of the session does. -/
def step (devices : List (Text × Text)) (targetPid : ℕ) (s : State) : Action → State
  | .event r => onEvent devices targetPid s r
  | .snapshot eventsLost => (s.snapshot eventsLost).1

/-- The recorder after a list of actions. -/
def run (devices : List (Text × Text)) (targetPid : ℕ) (actions : List Action) : State :=
  actions.foldl (step devices targetPid) {}

/-! ### What the records say -/

/-- What one trace record says about the target. -/
inductive Heard where
  /-- It is no image record, or one of another process. -/
  | nothing
  /-- It may concern the target and cannot be read. -/
  | unreadable
  | image (load : Bool) (event : ImageEvent)

/-- What an image record says, by the process id and the event read from it. -/
def heardOf (targetPid : ℕ) (load : Bool) : Option ℕ × Option ImageEvent → Heard
  | (none, _) => .unreadable
  | (some pid, event) => if pid ≠ targetPid then .nothing else event.elim .unreadable (.image load)

/-- What a record says to the session of a process. -/
def hear (targetPid : ℕ) (r : EventRecord) : Heard :=
  if r.providerId ≠ .imageLoad then .nothing
  else (loadOpcode r.opcode).elim .nothing fun load =>
    heardOf targetPid load (readRecord targetPid r load)

/-- Where the process id of an image record comes from. -/
theorem pid_of_imageFields {payload : Bytes} {pointerBytes version headerPid size pid offset : ℕ}
    {load : Bool}
    (h : imageFields payload pointerBytes version headerPid load = some (size, pid, offset)) :
    version = 0 ∧ load = true ∧ pid = headerPid ∨
      version ≠ 0 ∧ payload.readLe? (pointerBytes * 2) 4 = some pid := by
  rcases version with _ | _ | _ | _ | version
  · obtain ⟨hload, h⟩ := Option.ite_none_right_eq_some.mp h
    obtain ⟨_, _, h⟩ := Option.bind_eq_some_iff.mp h
    simp only [Option.some.injEq, Prod.mk.injEq] at h
    exact .inl ⟨rfl, hload, h.2.1.symm⟩
  · obtain ⟨_, _, h⟩ := Option.bind_eq_some_iff.mp h
    obtain ⟨p, hp, h⟩ := Option.bind_eq_some_iff.mp h
    simp only [Option.some.injEq, Prod.mk.injEq] at h
    exact .inr ⟨by omega, h.2.1 ▸ hp⟩
  · obtain ⟨_, _, h⟩ := Option.bind_eq_some_iff.mp h
    obtain ⟨p, hp, h⟩ := Option.bind_eq_some_iff.mp h
    simp only [Option.some.injEq, Prod.mk.injEq] at h
    exact .inr ⟨by omega, h.2.1 ▸ hp⟩
  · obtain ⟨_, _, h⟩ := Option.bind_eq_some_iff.mp h
    obtain ⟨p, hp, h⟩ := Option.bind_eq_some_iff.mp h
    simp only [Option.some.injEq, Prod.mk.injEq] at h
    exact .inr ⟨by omega, h.2.1 ▸ hp⟩
  · cases h

/-- A decoded event carries the process id it was selected by. -/
theorem pid_of_parseImageEvent {payload : Bytes} {pointerBytes version headerPid : ℕ}
    {load : Bool} {event : ImageEvent}
    (h : parseImageEvent payload pointerBytes version headerPid load = some event) :
    imageEventPid payload pointerBytes version headerPid load = some event.pid := by
  simp only [parseImageEvent, Option.ite_none_left_eq_some, Option.bind_eq_bind,
    Option.bind_eq_some_iff] at h
  obtain ⟨hwidth, base, _, ⟨size, pid, pathOffset⟩, hfields, _, _, path, _, h⟩ := h
  obtain rfl := Option.some.inj h
  show imageEventPid _ _ _ _ _ = some pid
  rw [imageEventPid, if_neg hwidth]
  rcases pid_of_imageFields hfields with ⟨rfl, hload, rfl⟩ | ⟨hversion, hp⟩
  · rw [if_pos rfl, if_pos hload]
  · rw [if_neg hversion, hp]

/-- The assertion of the recorder: what it hears of the target carries the target's id. -/
theorem pid_of_hear {targetPid : ℕ} {r : EventRecord} {load : Bool} {event : ImageEvent}
    (h : hear targetPid r = .image load event) : event.pid = targetPid := by
  unfold hear at h
  split_ifs at h with hclass
  cases hload : loadOpcode r.opcode with
  | none => simp [hload] at h
  | some load' =>
    rw [hload, Option.elim_some] at h
    unfold readRecord at h
    cases hpayload : r.payload with
    | none => simp [hpayload, heardOf] at h
    | some payload =>
      simp only [hpayload] at h
      cases hpid : imageEventPid payload r.pointerBytes r.version r.processId load' with
      | none => simp [hpid, heardOf] at h
      | some pid =>
        by_cases htarget : pid = targetPid
        · subst htarget
          cases hparse : parseImageEvent payload r.pointerBytes r.version r.processId load' with
          | none => simp [hpid, hparse, heardOf] at h
          | some parsed =>
            simp only [hpid, hparse, heardOf, if_true, ne_eq, not_true, if_false,
              Option.elim_some, Heard.image.injEq] at h
            obtain ⟨rfl, rfl⟩ := h
            have hsame := pid_of_parseImageEvent hparse
            rw [hpid, Option.some.injEq] at hsame
            exact hsame.symm
        · simp [hpid, heardOf, htarget] at h

/-- The records among the actions. -/
def records (actions : List Action) : List EventRecord :=
  actions.filterMap fun
    | .event r => some r
    | .snapshot _ => none

/-- The image events of the target, in order. -/
def imageLog (targetPid : ℕ) (actions : List Action) : List (Bool × ImageEvent) :=
  (records actions).filterMap fun r =>
    match hear targetPid r with
    | .image load event => some (load, event)
    | _ => none

/-- The images of the target after a list of events, without any bound. -/
def table (log : List (Bool × ImageEvent)) : OrdMap ℕ ImageEvent :=
  log.foldl (fun m x => if x.1 then m.insert x.2.baseAddress x.2 else m.erase x.2.baseAddress) ∅

/-- At some point the target had more images than the bounded table has room for. -/
def Overflows (log : List (Bool × ImageEvent)) : Prop :=
  ∃ early, early <+: log ∧ maxTrackedModules < (table early).size

/-- An image is loaded, and its base has not been unloaded or loaded over since. -/
def LoadedBy (log : List (Bool × ImageEvent)) (event : ImageEvent) : Prop :=
  ∃ before after, log = before ++ (true, event) :: after ∧
    ∀ x ∈ after, x.2.baseAddress ≠ event.baseAddress

theorem table_concat (log : List (Bool × ImageEvent)) (x : Bool × ImageEvent) :
    table (log ++ [x]) =
      if x.1 then (table log).insert x.2.baseAddress x.2
      else (table log).erase x.2.baseAddress := by
  rw [table, List.foldl_append]
  rfl

theorem loadedBy_concat (log : List (Bool × ImageEvent)) (x : Bool × ImageEvent)
    (event : ImageEvent) :
    LoadedBy (log ++ [x]) event ↔
      x = (true, event) ∨ LoadedBy log event ∧ x.2.baseAddress ≠ event.baseAddress := by
  constructor
  · rintro ⟨before, after, hlog, hafter⟩
    rcases List.eq_nil_or_concat after with rfl | ⟨after, y, rfl⟩
    · exact .inl (List.singleton_inj.mp (List.append_inj' hlog rfl).2)
    · rw [List.concat_eq_append] at hlog hafter
      have hsplit : log ++ [x] = (before ++ (true, event) :: after) ++ [y] := by simpa using hlog
      obtain ⟨rfl, hy⟩ := List.append_inj' hsplit rfl
      obtain rfl := List.singleton_inj.mp hy
      exact .inr ⟨⟨before, after, rfl, fun z hz => hafter z (List.mem_append_left _ hz)⟩,
        hafter x (List.mem_append_right _ (List.mem_singleton_self x))⟩
  · rintro (rfl | ⟨⟨before, after, rfl, hafter⟩, hx⟩)
    · exact ⟨log, [], rfl, nofun⟩
    · refine ⟨before, after ++ [x], by simp, fun z hz => ?_⟩
      rcases List.mem_append.mp hz with hz | hz
      · exact hafter z hz
      · exact List.mem_singleton.mp hz ▸ hx

/-- **The unbounded table lists what is loaded.** -/
theorem getElem?_table {log : List (Bool × ImageEvent)} {base : ℕ} {event : ImageEvent} :
    (table log)[base]? = some event ↔ LoadedBy log event ∧ event.baseAddress = base := by
  induction log using List.reverseRecOn generalizing event with
  | nil =>
    rw [table, List.foldl_nil, Std.ExtTreeMap.getElem?_empty]
    simp [LoadedBy]
  | append_singleton log x ih =>
    obtain ⟨load, e⟩ := x
    rw [table_concat, loadedBy_concat]
    cases load with
    | true =>
      -- a load replaces what was listed under its base
      simp only [if_true, OrdMap.getElem?_insert, Prod.mk.injEq, true_and]
      by_cases hb : e.baseAddress = base
      · rw [if_pos hb, Option.some.injEq]
        constructor
        · rintro rfl
          exact ⟨.inl rfl, hb⟩
        · rintro ⟨rfl | ⟨_, hne⟩, hbase⟩
          · rfl
          · exact absurd (hb.trans hbase.symm) hne
      · rw [if_neg hb, ih]
        constructor
        · rintro ⟨hl, rfl⟩
          exact ⟨.inr ⟨hl, hb⟩, rfl⟩
        · rintro ⟨rfl | ⟨hl, _⟩, hbase⟩
          · exact absurd hbase hb
          · exact ⟨hl, hbase⟩
    | false =>
      -- an unload removes what was listed under its base
      simp only [Bool.false_eq_true, if_false, OrdMap.getElem?_erase, Prod.mk.injEq, false_and,
        false_or]
      by_cases hb : e.baseAddress = base
      · rw [if_pos hb]
        constructor
        · exact nofun
        · rintro ⟨⟨_, hne⟩, hbase⟩
          exact absurd (hb.trans hbase.symm) hne
      · rw [if_neg hb, ih]
        constructor
        · rintro ⟨hl, rfl⟩
          exact ⟨⟨hl, hb⟩, rfl⟩
        · rintro ⟨⟨hl, _⟩, hbase⟩
          exact ⟨hl, hbase⟩

theorem overflows_concat (log : List (Bool × ImageEvent)) (x : Bool × ImageEvent) :
    Overflows (log ++ [x]) ↔ Overflows log ∨ maxTrackedModules < (table (log ++ [x])).size := by
  constructor
  · rintro ⟨early, hearly, hsize⟩
    rcases List.prefix_concat_iff.mp hearly with rfl | hearly
    · exact .inr hsize
    · exact .inl ⟨early, hearly, hsize⟩
  · rintro (⟨early, hearly, hsize⟩ | hsize)
    · exact ⟨early, hearly.trans (List.prefix_append log [x]), hsize⟩
    · exact ⟨log ++ [x], List.prefix_rfl, hsize⟩

/-! ### The recorder follows the target -/

/-- The modules of an unbounded table. -/
def modulesOf (devices : List (Text × Text)) (images : OrdMap ℕ ImageEvent) :
    OrdMap ℕ ProcessModule :=
  images.map fun _ event => moduleOf devices event

/-- The recorder has taken in everything the actions say about the target. -/
structure Tracks (devices : List (Text × Text)) (targetPid : ℕ) (actions : List Action)
    (s : State) : Prop where
  failures : s.targetDecodeFailures = 0 ↔ ∀ r ∈ records actions, hear targetPid r ≠ .unreadable
  overflow : s.overflowed = true ↔ Overflows (imageLog targetPid actions)
  decoded : s.eventsDecoded = 0 ↔ imageLog targetPid actions = []
  /-- Up to its first overflow the bounded table is the unbounded one. -/
  table : ¬Overflows (imageLog targetPid actions) →
    s.modules = modulesOf devices (Modules.table (imageLog targetPid actions))

theorem saturatingAdd_one_ne_zero (n : ℕ) : saturatingAdd n 1 ≠ 0 := by
  have hle : 1 ≤ saturatingAdd n 1 := le_min (by omega) (by norm_num [u64Bound])
  omega

section

variable (devices : List (Text × Text)) (targetPid : ℕ)

/-- What a record does to the recorder goes by what it says about the target. -/
theorem onEvent_cases (s : State) (r : EventRecord) :
    (hear targetPid r = .nothing ∧
      ∃ seen, onEvent devices targetPid s r = { s with eventsSeen := seen }) ∨
    (hear targetPid r = .unreadable ∧ ∃ seen len version, onEvent devices targetPid s r =
      { s with
        eventsSeen := seen
        targetDecodeFailures := saturatingAdd s.targetDecodeFailures 1
        rejectedPayloadLen := len
        rejectedVersion := version }) ∨
    ∃ load event, hear targetPid r = .image load event ∧
      ∃ seen, onEvent devices targetPid s r =
        State.place devices
          { s with eventsSeen := seen, eventsDecoded := saturatingAdd s.eventsDecoded 1 }
          load event := by
  unfold hear onEvent
  split_ifs with hclass
  · exact .inl ⟨rfl, s.eventsSeen, rfl⟩
  cases loadOpcode r.opcode with
  | none => exact .inl ⟨rfl, s.eventsSeen, rfl⟩
  | some load =>
    simp only [Option.elim_some]
    -- a record without a readable process id may concern the target
    obtain ⟨pid | pid, event⟩ := readRecord targetPid r load
    · exact .inr (.inl ⟨rfl, _, _, _, rfl⟩)
    · by_cases hpid : pid = targetPid
      · subst hpid
        cases event with
        | none =>
          exact .inr (.inl ⟨by simp [heardOf], saturatingAdd s.eventsSeen 1, r.userData.length,
            some r.version, by simp [State.record, State.reject]⟩)
        | some event =>
          exact .inr (.inr ⟨load, event, by simp [heardOf], saturatingAdd s.eventsSeen 1,
            by simp [State.record]⟩)
      · exact .inl ⟨by simp [heardOf, hpid], saturatingAdd s.eventsSeen 1,
          by simp [State.record, hpid]⟩

variable {devices targetPid}

theorem records_concat_event (actions : List Action) (r : EventRecord) :
    records (actions ++ [.event r]) = records actions ++ [r] := by
  rw [records, List.filterMap_append]
  rfl

theorem records_concat_snapshot (actions : List Action) (eventsLost : Option ℕ) :
    records (actions ++ [.snapshot eventsLost]) = records actions := by
  rw [records, List.filterMap_append]
  exact List.append_nil _

theorem imageLog_concat_of_image (actions : List Action) {r : EventRecord} {load : Bool}
    {event : ImageEvent} (h : hear targetPid r = .image load event) :
    imageLog targetPid (actions ++ [.event r]) = imageLog targetPid actions ++ [(load, event)] := by
  rw [imageLog, records_concat_event, List.filterMap_append, imageLog]
  simp [h]

theorem imageLog_concat_of_ne (actions : List Action) {r : EventRecord}
    (h : ∀ load event, hear targetPid r ≠ .image load event) :
    imageLog targetPid (actions ++ [.event r]) = imageLog targetPid actions := by
  rw [imageLog, records_concat_event, List.filterMap_append, imageLog]
  cases hr : hear targetPid r with
  | image load event => exact absurd hr (h load event)
  | _ => simp [hr]

theorem failures_concat {actions : List Action} {r : EventRecord} :
    (∀ q ∈ records (actions ++ [.event r]), hear targetPid q ≠ .unreadable) ↔
      (∀ q ∈ records actions, hear targetPid q ≠ .unreadable) ∧
        hear targetPid r ≠ .unreadable := by
  rw [records_concat_event, List.forall_mem_append, List.forall_mem_singleton]

theorem modulesOf_insert (images : OrdMap ℕ ImageEvent) (base : ℕ) (event : ImageEvent) :
    modulesOf devices (images.insert base event) =
      (modulesOf devices images).insert base (moduleOf devices event) := by
  refine OrdMap.ext fun b => ?_
  simp only [modulesOf, Std.ExtTreeMap.getElem?_map, OrdMap.getElem?_insert]
  split_ifs <;> rfl

theorem modulesOf_erase (images : OrdMap ℕ ImageEvent) (base : ℕ) :
    modulesOf devices (images.erase base) = (modulesOf devices images).erase base := by
  refine OrdMap.ext fun b => ?_
  simp only [modulesOf, Std.ExtTreeMap.getElem?_map, OrdMap.getElem?_erase]
  split_ifs <;> rfl

/-- **A placed event keeps the bounded table in step** with the unbounded one, or reports that
there was no room. -/
theorem place_spec {log : List (Bool × ImageEvent)} {s : State} (load : Bool)
    (event : ImageEvent) (hs : s.modules = modulesOf devices (table log))
    (hsize : (table log).size ≤ maxTrackedModules) :
    ((s.place devices load event).overflowed = true ↔
      s.overflowed = true ∨ maxTrackedModules < (table (log ++ [(load, event)])).size) ∧
    ((table (log ++ [(load, event)])).size ≤ maxTrackedModules →
      (s.place devices load event).modules =
        modulesOf devices (table (log ++ [(load, event)]))) := by
  rw [table_concat]
  unfold State.place
  cases load with
  | false =>
    have hle := Std.ExtTreeMap.size_erase_le (t := table log) (k := event.baseAddress)
    simp only [Bool.false_eq_true, if_false]
    refine ⟨?_, fun _ => ?_⟩
    · have hroom : ¬maxTrackedModules < ((table log).erase event.baseAddress).size := by omega
      simp only [hroom, or_false]
    · rw [hs, modulesOf_erase]
  | true =>
    have hinsert := Std.ExtTreeMap.size_insert (t := table log) (k := event.baseAddress)
      (v := event)
    have hmem : event.baseAddress ∈ s.modules ↔ event.baseAddress ∈ table log := by
      rw [hs, modulesOf, Std.ExtTreeMap.mem_map]
    have hsz : s.modules.size = (table log).size := by rw [hs, modulesOf, Std.ExtTreeMap.size_map]
    simp only [if_true, hmem, hsz]
    by_cases hin : event.baseAddress ∈ table log
    · -- the base is loaded over: the table does not grow
      rw [if_pos (Std.ExtTreeMap.contains_iff_mem.mpr hin)] at hinsert
      rw [if_neg fun h => h.1 hin, hinsert]
      refine ⟨?_, fun _ => ?_⟩
      · simp only [not_lt.mpr hsize, or_false]
      · rw [hs, modulesOf_insert]
    · rw [if_neg fun h => hin (Std.ExtTreeMap.contains_iff_mem.mp h)] at hinsert
      -- a new base: it is listed unless the table is full, and then it is reported
      by_cases hfull : maxTrackedModules ≤ (table log).size
      · rw [if_pos ⟨hin, hfull⟩, hinsert]
        refine ⟨?_, fun h => by omega⟩
        have hover : maxTrackedModules < (table log).size + 1 := by omega
        simp only [hover, or_true]
      · rw [if_neg fun h => hfull h.2, hinsert]
        refine ⟨?_, fun _ => ?_⟩
        · have hroom : ¬maxTrackedModules < (table log).size + 1 := by omega
          simp only [hroom, or_false]
        · rw [hs, modulesOf_insert]

theorem place_frame (devices : List (Text × Text)) (s : State) (load : Bool) (event : ImageEvent) :
    (s.place devices load event).eventsDecoded = s.eventsDecoded ∧
      (s.place devices load event).targetDecodeFailures = s.targetDecodeFailures ∧
      (s.overflowed = true → (s.place devices load event).overflowed = true) := by
  unfold State.place
  split_ifs <;> simp

theorem Tracks.init : Tracks devices targetPid [] {} where
  failures := by simp [records]
  overflow := by
    have hroom : ¬Overflows [] := by
      rintro ⟨early, hearly, hsize⟩
      rw [List.prefix_nil.mp hearly] at hsize
      exact absurd hsize (by decide)
    simpa [imageLog, records] using hroom
  decoded := by simp [imageLog, records]
  table _ := OrdMap.ext fun b => by simp [imageLog, records, Modules.table, modulesOf]

theorem Tracks.event {actions : List Action} {s : State} (h : Tracks devices targetPid actions s)
    (r : EventRecord) :
    Tracks devices targetPid (actions ++ [.event r]) (onEvent devices targetPid s r) := by
  rcases onEvent_cases devices targetPid s r with
    ⟨hr, seen, hstep⟩ | ⟨hr, seen, len, version, hstep⟩ | ⟨load, event, hr, seen, hstep⟩
  · -- not about the target: only the count of events seen changes
    have hlog : imageLog targetPid (actions ++ [.event r]) = imageLog targetPid actions :=
      imageLog_concat_of_ne actions (by rw [hr]; exact nofun)
    rw [hstep]
    refine ⟨?_, hlog ▸ h.overflow, hlog ▸ h.decoded, hlog ▸ h.table⟩
    rw [failures_concat, hr]
    simpa using h.failures
  · -- about the target and unreadable: the failure is counted, the table stays
    have hlog : imageLog targetPid (actions ++ [.event r]) = imageLog targetPid actions :=
      imageLog_concat_of_ne actions (by rw [hr]; exact nofun)
    rw [hstep]
    refine ⟨?_, hlog ▸ h.overflow, hlog ▸ h.decoded, hlog ▸ h.table⟩
    rw [failures_concat, hr]
    simp [saturatingAdd_one_ne_zero]
  · -- an image event: once a table has overflowed it stays reported; before, the tables agree
    have hlog := imageLog_concat_of_image actions hr
    set log := imageLog targetPid actions with hlogdef
    set placed : State :=
      { s with eventsSeen := seen, eventsDecoded := saturatingAdd s.eventsDecoded 1 }
    obtain ⟨hdecoded, hfailures, hkeeps⟩ := place_frame devices placed load event
    have hover := overflows_concat log (load, event)
    have hplaced : ((placed.place devices load event).overflowed = true ↔
          Overflows (log ++ [(load, event)])) ∧
        (¬Overflows (log ++ [(load, event)]) → (placed.place devices load event).modules =
          modulesOf devices (Modules.table (log ++ [(load, event)]))) := by
      by_cases hold : Overflows log
      · have hnow : Overflows (log ++ [(load, event)]) := hover.mpr (.inl hold)
        exact ⟨iff_of_true (hkeeps (h.overflow.mpr hold)) hnow, fun hno => absurd hnow hno⟩
      · have hsize : (Modules.table log).size ≤ maxTrackedModules :=
          not_lt.mp fun hlt => hold ⟨log, List.prefix_rfl, hlt⟩
        have hstate : placed.modules = modulesOf devices (Modules.table log) := h.table hold
        obtain ⟨hreport, htable⟩ := place_spec load event hstate hsize
        refine ⟨?_, fun hno => htable (not_lt.mp fun hlt => hno (hover.mpr (.inr hlt)))⟩
        rw [hreport, hover]
        exact or_congr_left h.overflow
    rw [hstep]
    refine ⟨?_, by rw [hlog]; exact hplaced.1, ?_, by rw [hlog]; exact hplaced.2⟩
    · rw [hfailures, failures_concat, hr]
      simpa using h.failures
    · rw [hdecoded, hlog]
      simpa using saturatingAdd_one_ne_zero s.eventsDecoded

theorem Tracks.snapshot {actions : List Action} {s : State}
    (h : Tracks devices targetPid actions s) (eventsLost : Option ℕ) :
    Tracks devices targetPid (actions ++ [.snapshot eventsLost]) (s.snapshot eventsLost).1 := by
  have hrecords := records_concat_snapshot actions eventsLost
  have hlog : imageLog targetPid (actions ++ [.snapshot eventsLost]) =
      imageLog targetPid actions := by rw [imageLog, hrecords, imageLog]
  unfold State.snapshot
  simp only
  split_ifs
  all_goals exact ⟨by rw [hrecords]; exact h.failures, by rw [hlog]; exact h.overflow,
    by rw [hlog]; exact h.decoded, by rw [hlog]; exact h.table⟩

/-- After any actions the recorder has taken in everything they say about the target. -/
theorem tracks_run (devices : List (Text × Text)) (targetPid : ℕ) (actions : List Action) :
    Tracks devices targetPid actions (run devices targetPid actions) := by
  induction actions using List.reverseRecOn with
  | nil => exact Tracks.init
  | append_singleton actions a ih =>
    rw [run, List.foldl_append]
    cases a with
    | event r => exact ih.event r
    | snapshot eventsLost => exact ih.snapshot eventsLost

/-! ### Snapshots -/

/-- The modules of a table, listed by base. -/
theorem sorted_values (devices : List (Text × Text)) {images : OrdMap ℕ ImageEvent}
    (hbase : ∀ (b : ℕ) (e : ImageEvent), images[b]? = some e → e.baseAddress = b) :
    let list := ((modulesOf devices images).toList.map Prod.snd).mergeSort
      fun a b => decide (a.baseAddress ≤ b.baseAddress)
    list.Pairwise (fun a b => a.baseAddress < b.baseAddress) ∧
      ∀ m, m ∈ list ↔ ∃ (b : ℕ) (e : ImageEvent), images[b]? = some e ∧
        m = moduleOf devices e := by
  intro list
  have hmem : ∀ p ∈ (modulesOf devices images).toList,
      ∃ e, images[p.1]? = some e ∧ p.2 = moduleOf devices e := by
    rintro ⟨b, m⟩ hp
    rw [Std.ExtTreeMap.mem_toList_iff_getElem?_eq_some, modulesOf, Std.ExtTreeMap.getElem?_map,
      Option.map_eq_some_iff] at hp
    obtain ⟨e, he, rfl⟩ := hp
    exact ⟨e, he, rfl⟩
  have hperm : list.Perm ((modulesOf devices images).toList.map Prod.snd) :=
    List.mergeSort_perm _ _
  -- the bases are the keys of the table, and sorting keeps them distinct
  have hnodup : (list.map ProcessModule.baseAddress).Nodup := by
    rw [(hperm.map _).nodup_iff, List.map_map]
    have hkeys : (modulesOf devices images).toList.map (ProcessModule.baseAddress ∘ Prod.snd) =
        (modulesOf devices images).toList.map Prod.fst := by
      refine List.map_congr_left fun p hp => ?_
      obtain ⟨e, he, hm⟩ := hmem p hp
      show p.2.baseAddress = p.1
      rw [hm]
      exact hbase p.1 e he
    rw [hkeys]
    exact OrdMap.nodup_keys_toList _
  have hle : list.Pairwise fun a b => a.baseAddress ≤ b.baseAddress := by
    have hsorted := @List.pairwise_mergeSort ProcessModule
      (fun a b => decide (a.baseAddress ≤ b.baseAddress))
      (fun a b c hab hbc => by simp only [decide_eq_true_eq] at *; omega)
      (fun a b => by simp only [Bool.or_eq_true, decide_eq_true_eq]; omega)
      ((modulesOf devices images).toList.map Prod.snd)
    exact hsorted.imp fun h => of_decide_eq_true h
  refine ⟨?_, fun m => ?_⟩
  · rw [List.nodup_iff_pairwise_ne, List.pairwise_map] at hnodup
    exact hle.imp₂ (fun _ _ hle hne => lt_of_le_of_ne hle hne) hnodup
  · rw [hperm.mem_iff, List.mem_map]
    constructor
    · rintro ⟨p, hp, rfl⟩
      obtain ⟨e, he, hm⟩ := hmem p hp
      exact ⟨p.1, e, he, hm⟩
    · rintro ⟨b, e, he, rfl⟩
      refine ⟨(b, moduleOf devices e), ?_, rfl⟩
      rw [Std.ExtTreeMap.mem_toList_iff_getElem?_eq_some, modulesOf, Std.ExtTreeMap.getElem?_map,
        he, Option.map_some]

/-- A list sorted by distinct bases is determined by its members. -/
theorem eq_of_sorted {xs ys : List ProcessModule}
    (hxs : xs.Pairwise fun a b => a.baseAddress < b.baseAddress)
    (hys : ys.Pairwise fun a b => a.baseAddress < b.baseAddress)
    (h : ∀ m, m ∈ xs ↔ m ∈ ys) : xs = ys := by
  have : Std.Antisymm fun a b : ProcessModule => a.baseAddress < b.baseAddress :=
    ⟨fun a b hab hba => absurd (hab.trans hba) (lt_irrefl _)⟩
  have : Std.Irrefl fun a b : ProcessModule => a.baseAddress < b.baseAddress :=
    ⟨fun a => lt_irrefl _⟩
  exact hxs.eq_of_mem_iff hys h

/-- **A snapshot is the complete list of the target's modules, or none.**  After any image events,
of the target or of others, decodable or not, and any snapshots in between, a snapshot with a
given loss report returns a list exactly when no event was lost, every event that may concern the
target was decoded, and the bounded table never ran out of room; and then the list, which is not
empty, has exactly the modules loaded and not yet unloaded, sorted by their distinct bases. -/
theorem snapshot_eq_some_iff (devices : List (Text × Text)) (targetPid : ℕ)
    (actions : List Action) (eventsLost : Option ℕ) (list : List ProcessModule) :
    ((run devices targetPid actions).snapshot eventsLost).2 = some list ↔
      eventsLost = some 0 ∧
      (∀ r ∈ records actions, hear targetPid r ≠ .unreadable) ∧
      ¬Overflows (imageLog targetPid actions) ∧
      list ≠ [] ∧
      list.Pairwise (fun a b => a.baseAddress < b.baseAddress) ∧
      ∀ m, m ∈ list ↔ ∃ e, LoadedBy (imageLog targetPid actions) e ∧ m = moduleOf devices e := by
  have htracks := tracks_run devices targetPid actions
  set s := run devices targetPid actions
  set log := imageLog targetPid actions
  have hbase : ∀ (b : ℕ) (e : ImageEvent), (table log)[b]? = some e → e.baseAddress = b :=
    fun b e he => (getElem?_table.mp he).2
  obtain ⟨hsorted, hmem⟩ := sorted_values devices hbase
  -- the table is what is loaded at each base address
  have hloaded : ∀ m, (∃ (b : ℕ) (e : ImageEvent), (table log)[b]? = some e ∧
      m = moduleOf devices e) ↔ ∃ e, LoadedBy log e ∧ m = moduleOf devices e := by
    refine fun m => ⟨?_, ?_⟩
    · rintro ⟨b, e, he, rfl⟩
      exact ⟨e, (getElem?_table.mp he).1, rfl⟩
    · rintro ⟨e, he, rfl⟩
      exact ⟨e.baseAddress, e, getElem?_table.mpr ⟨he, rfl⟩, rfl⟩
  unfold State.snapshot
  simp only
  split_ifs with hincomplete
  · -- some report makes the list unavailable, and rules the right-hand side out
    simp only [false_iff]
    rintro ⟨hlost, hread, hroom, hne, _, hlist⟩
    have hnoOverflow : s.overflowed = false := by
      rw [← Bool.not_eq_true, htracks.overflow]
      exact hroom
    obtain ⟨m, hm⟩ := List.exists_mem_of_ne_nil list hne
    obtain ⟨e, he, rfl⟩ := (hlist m).mp hm
    have hget : s.modules[e.baseAddress]? = some (moduleOf devices e) := by
      rw [htracks.table hroom, modulesOf, Std.ExtTreeMap.getElem?_map,
        getElem?_table.mpr ⟨he, rfl⟩, Option.map_some]
    have hnonempty : s.modules.isEmpty = false := by
      rw [← Bool.not_eq_true, Std.ExtTreeMap.isEmpty_iff]
      intro hempty
      rw [hempty, Std.ExtTreeMap.getElem?_empty] at hget
      cases hget
    have hdecoded : s.eventsDecoded ≠ 0 := by
      intro h0
      obtain ⟨before, after, hlog, _⟩ := he
      rw [show log = [] from htracks.decoded.mp h0] at hlog
      simp at hlog
    have hfailures := htracks.failures.mpr hread
    simp [hnoOverflow, hnonempty, hdecoded, hfailures, hlost] at hincomplete
  · -- nothing was reported, so the recorder's table is the unbounded one
    simp only [Bool.or_eq_true, beq_iff_eq, bne_iff_ne, ne_eq, not_or, not_not,
      Bool.not_eq_true] at hincomplete
    obtain ⟨⟨⟨⟨hover, hempty⟩, _⟩, hfailures⟩, hlost⟩ := hincomplete
    have hroom : ¬Overflows log := by
      rw [← htracks.overflow, hover]
      exact Bool.false_ne_true
    have hmodules := htracks.table hroom
    rw [Option.some.injEq, hmodules]
    constructor
    · rintro rfl
      refine ⟨hlost, htracks.failures.mp hfailures, hroom, ?_, hsorted, fun m =>
        (hmem m).trans (hloaded m)⟩
      intro hnil
      have hlen := congrArg List.length hnil
      rw [List.length_mergeSort, List.length_map, Std.ExtTreeMap.length_toList, ← hmodules,
        List.length_nil] at hlen
      rw [Std.ExtTreeMap.isEmpty_eq_size_beq_zero, hlen] at hempty
      cases hempty
    · rintro ⟨_, _, _, _, hlist, hall⟩
      exact eq_of_sorted hsorted hlist fun m => (hmem m).trans ((hloaded m).trans (hall m).symm)

end

end Taskman.Etw.Modules
