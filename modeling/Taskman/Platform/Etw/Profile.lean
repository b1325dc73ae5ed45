import Taskman.Core.Model
import Taskman.Platform.Etw
import Mathlib.Data.Finset.Basic

/-!
# Sampled instruction pointers of one process

The profile trace counts the sampled pages of one target process.  A sample carries the thread that
ran; whose thread that is comes from the thread events, and from the event header where they have
nothing to say.  The recorder does not keep owners, it keeps the set of threads it takes for the
target's.

* `owners` : the process the most recent owner event names for each thread;
* `headed` : the threads of which a sample since has carried the target's pid in its header;
* `mem_targetThreads_iff` : what the recorder's set of threads consists of;
* `charged_iff` : **exactly when samples are counted by the owner of their thread.**

The `live` flag of the source falls only when the owner drops the session; the events here are
those delivered before.
-/

namespace Taskman.Etw.Profile

/-- A sample of the instruction pointer. -/
def sampleProfileEventType : ℕ := 46

/-- Exceeding this means the window cannot be presented as a complete sample set. -/
def maxSamplePages : ℕ := 131072

/-- What is read of a sample. -/
structure SampledProfile where
  instructionPointer : ℕ
  threadId : ℕ
  deriving DecidableEq

/-- Decode the stable prefix of `SampledProfile`. -/
def parseSampledProfile (payload : Bytes) (pointerBytes : ℕ) : Option SampledProfile :=
  let threadOffset := pointerBytes
  if (pointerBytes ≠ 4 ∧ pointerBytes ≠ 8) ∨ payload.length < threadOffset + 4 then none
  else do
    let instructionPointer ← payload.readLe? 0 pointerBytes
    let threadId ← payload.readLe? threadOffset 4
    if instructionPointer != 0 && plausibleClientId threadId then
      some { instructionPointer, threadId }
    else none

/-- The page of an address: `address & !0xFFF`. -/
def pageOf (address : ℕ) : ℕ := address / 0x1000 * 0x1000

/-! ### The recorder -/

/-- The samples of a process since the last window, page by page. -/
structure State where
  targetPid : ℕ
  targetThreads : Finset ℕ
  pages : OrdMap ℕ ℕ := ∅
  eventsSeen : ℕ := 0
  eventsDecoded : ℕ := 0
  rejectedPayloadLen : ℕ := 0
  overflowed : Bool := false

/-- Count one sample of the target on its page. -/
def State.countPage (s : State) (page : ℕ) : State :=
  if page ∉ s.pages ∧ maxSamplePages ≤ s.pages.size then { s with overflowed := true }
  else
    { s with pages := s.pages.alter page fun count => some (saturatingAdd (count.getD 0) 1) }

/-- A sample is seen: it counts if its thread, or its header, names the process. -/
def State.recordSample (s : State) (headerPid : ℕ) (sample : Option SampledProfile) : State :=
  let s := { s with eventsSeen := saturatingAdd s.eventsSeen 1 }
  match sample with
  | none => s
  | some sample =>
    let s := { s with eventsDecoded := saturatingAdd s.eventsDecoded 1 }
    if sample.threadId ∉ s.targetThreads ∧ headerPid ≠ s.targetPid then s
    else
      -- a thread whose start event was missed becomes known by its header
      let s := { s with targetThreads := insert sample.threadId s.targetThreads }
      s.countPage (pageOf sample.instructionPointer)

/-- A thread is seen, of this process or of another one. -/
def State.trackThread (s : State) (pid tid : ℕ) : State :=
  if pid = s.targetPid then { s with targetThreads := insert tid s.targetThreads }
  else { s with targetThreads := s.targetThreads.erase tid }

/-- A thread has ended. -/
def State.forgetThread (s : State) (tid : ℕ) : State :=
  { s with targetThreads := s.targetThreads.erase tid }

/-- What a drain reads from the recorder. -/
structure Drained where
  pages : OrdMap ℕ ℕ
  eventsSeen : ℕ
  eventsDecoded : ℕ
  rejectedPayloadLen : ℕ
  trackedThreads : ℕ
  overflowed : Bool

/-- The window is taken, and the next one begins. -/
def State.drain (s : State) : State × Drained :=
  ({ targetPid := s.targetPid, targetThreads := s.targetThreads },
    { pages := s.pages
      eventsSeen := s.eventsSeen
      eventsDecoded := s.eventsDecoded
      rejectedPayloadLen := s.rejectedPayloadLen
      trackedThreads := min s.targetThreads.card (2 ^ 32 - 1)
      overflowed := s.overflowed })

/-- What can happen to the recorder. -/
inductive Event where
  | sample (headerPid : ℕ) (sample : Option SampledProfile) (payloadLen : ℕ)
  | trackThread (pid tid : ℕ)
  | forgetThread (tid : ℕ)
  | takeWindow

/-- What an event does to the state. -/
def step (s : State) : Event → State
  | .sample headerPid sample payloadLen =>
    let s := s.recordSample headerPid sample
    if sample.isNone then { s with rejectedPayloadLen := payloadLen } else s
  | .trackThread pid tid => s.trackThread pid tid
  | .forgetThread tid => s.forgetThread tid
  | .takeWindow => s.drain.1

/-- A trace starts with the target's threads of a snapshot of all threads. -/
def start (targetPid : ℕ) (threadOwners : OrdMap ℕ ℕ) : State :=
  { targetPid
    targetThreads := ((threadOwners.toList.filter fun a => a.2 = targetPid).map Prod.fst).toFinset }

/-- The state after some events. -/
def run (targetPid : ℕ) (threadOwners : OrdMap ℕ ℕ) (events : List Event) : State :=
  events.foldl step (start targetPid threadOwners)

/-- The record callback. -/
def onEvent (r : EventRecord) : Option Event :=
  if r.providerId = .systemProfile ∨ r.providerId = .perfInfo then
    if r.opcode = sampleProfileEventType then
      some (.sample r.processId
        (r.payload.bind fun payload => parseSampledProfile payload r.pointerBytes)
        r.userData.length)
    else none
  else if r.providerId = .thread then do
    let payload ← r.payload
    let (pid, tid) ← parseThreadEvent payload
    if r.opcode = opcodeThreadStart ∨ r.opcode = opcodeThreadDcStart then
      some (.trackThread pid tid)
    else if r.opcode = opcodeThreadStop ∨ r.opcode = opcodeThreadDcStop then
      some (.forgetThread tid)
    else none
  else none

/-! ### What the events say about threads -/

/-- The process the most recent owner event names for each thread. -/
def owners (threadOwners : OrdMap ℕ ℕ) (events : List Event) : OrdMap ℕ ℕ :=
  events.foldl (fun m e =>
    match e with
    | .trackThread pid tid => m.insert tid pid
    | .forgetThread tid => m.erase tid
    | _ => m) threadOwners

/-- The threads of which a sample since their last owner event has named the target in its
header. -/
def headed (targetPid : ℕ) (events : List Event) : Finset ℕ :=
  events.foldl (fun threads e =>
    match e with
    | .sample headerPid (some sample) _ =>
      if headerPid = targetPid then insert sample.threadId threads else threads
    | .trackThread _ tid => threads.erase tid
    | .forgetThread tid => threads.erase tid
    | _ => threads) ∅

/-- There is room to count one more sample on a page. -/
def State.Room (s : State) (page : ℕ) : Prop :=
  (page ∈ s.pages ∨ s.pages.size < maxSamplePages) ∧ s.pages[page]?.getD 0 + 1 < u64Bound

/-- A sample is charged by the owner of its thread: not counted when that is another process,
counted when it is the target. -/
def ChargedByOwner (targetPid : ℕ) (owner : Option ℕ) (sample : SampledProfile) (s s' : State) :
    Prop :=
  (∀ pid, owner = some pid → pid ≠ targetPid → s'.pages = s.pages) ∧
    (owner = some targetPid →
      s'.pages = s.pages.alter (pageOf sample.instructionPointer) fun count =>
        some (count.getD 0 + 1))

/-- What the headers have to respect for that: no header names the target for a thread known to be
another process's, and a sample of the target finds room. -/
def HeadersAgree (targetPid : ℕ) (owner : Option ℕ) (headed : Finset ℕ) (headerPid : ℕ)
    (sample : SampledProfile) (s : State) : Prop :=
  (∀ pid, owner = some pid → pid ≠ targetPid →
      headerPid ≠ targetPid ∧ sample.threadId ∉ headed ∨
        ¬s.Room (pageOf sample.instructionPointer)) ∧
    (owner = some targetPid → s.Room (pageOf sample.instructionPointer))

/-- A condition on each decoded sample of a list of events and on the events before it. -/
def EachSample (P : List Event → ℕ → SampledProfile → ℕ → Prop) (events : List Event) : Prop :=
  ∀ before headerPid sample payloadLen after,
    events = before ++ .sample headerPid (some sample) payloadLen :: after →
      P before headerPid sample payloadLen

/-- Every sample of a run is charged by the owner of its thread. -/
def SamplesChargedByOwner (targetPid : ℕ) (threadOwners : OrdMap ℕ ℕ) (events : List Event) :
    Prop :=
  EachSample (fun before headerPid sample payloadLen =>
    ChargedByOwner targetPid (owners threadOwners before)[sample.threadId]? sample
      (run targetPid threadOwners before)
      (step (run targetPid threadOwners before)
        (.sample headerPid (some sample) payloadLen))) events

/-- The headers agree at every sample of a run. -/
def SamplesHeadersAgree (targetPid : ℕ) (threadOwners : OrdMap ℕ ℕ) (events : List Event) :
    Prop :=
  EachSample (fun before headerPid sample _ =>
    HeadersAgree targetPid (owners threadOwners before)[sample.threadId]?
      (headed targetPid before) headerPid sample (run targetPid threadOwners before)) events

/-! ### One sample -/

/-- The counts of a page table are `u64` values. -/
def State.Counts (s : State) : Prop := ∀ (page count : ℕ), s.pages[page]? = some count →
  count < u64Bound

theorem State.countPage_of_room {s : State} {page : ℕ} (h : s.Room page) :
    (s.countPage page).pages = s.pages.alter page fun count => some (count.getD 0 + 1) := by
  unfold State.countPage
  have hroom : ¬(page ∉ s.pages ∧ maxSamplePages ≤ s.pages.size) := by
    rintro ⟨hnew, hfull⟩
    rcases h.1 with hin | hlt
    · exact hnew hin
    · omega
  rw [if_neg hroom]
  refine OrdMap.ext fun k => ?_
  show (s.pages.alter page _)[k]? = _
  rw [OrdMap.getElem?_alter, OrdMap.getElem?_alter, saturatingAdd_of_lt h.2]

theorem State.countPage_of_not_room {s : State} {page : ℕ} (hs : s.Counts) (h : ¬s.Room page) :
    (s.countPage page).pages = s.pages := by
  unfold State.countPage
  split_ifs with hfull
  · rfl
  · have hspace : page ∈ s.pages ∨ s.pages.size < maxSamplePages := by
      by_cases hin : page ∈ s.pages
      · exact .inl hin
      · exact .inr (not_le.mp fun hle => hfull ⟨hin, hle⟩)
    have hmax : ¬s.pages[page]?.getD 0 + 1 < u64Bound := fun hlt => h ⟨hspace, hlt⟩
    refine OrdMap.ext fun k => ?_
    show (s.pages.alter page _)[k]? = _
    rw [OrdMap.getElem?_alter]
    split_ifs with hk
    · subst hk
      cases hcount : s.pages[page]? with
      | none =>
        rw [hcount] at hmax
        exact absurd (by norm_num [u64Bound]) hmax
      | some count =>
        have hlt := hs page count hcount
        rw [hcount, Option.getD_some] at hmax
        have hsat : saturatingAdd count 1 = count := by
          unfold saturatingAdd
          omega
        rw [Option.getD_some, hsat]
    · rfl

/-- Whether the recorder takes a sample for the target's. -/
def State.Takes (s : State) (headerPid : ℕ) (sample : SampledProfile) : Prop :=
  sample.threadId ∈ s.targetThreads ∨ headerPid = s.targetPid

/-- What a sample does to the page table. -/
theorem pages_step_sample (s : State) (headerPid : ℕ) (sample : SampledProfile)
    (payloadLen : ℕ) :
    (step s (.sample headerPid (some sample) payloadLen)).pages =
      if sample.threadId ∉ s.targetThreads ∧ headerPid ≠ s.targetPid then s.pages
      else (s.countPage (pageOf sample.instructionPointer)).pages := by
  simp only [step, State.recordSample, State.countPage, Option.isNone_some, Bool.false_eq_true,
    if_false]
  split_ifs <;> rfl

theorem pages_of_not_takes {s : State} {headerPid : ℕ} {sample : SampledProfile}
    (h : ¬s.Takes headerPid sample) (payloadLen : ℕ) :
    (step s (.sample headerPid (some sample) payloadLen)).pages = s.pages := by
  rw [pages_step_sample, if_pos (not_or.mp h)]

theorem pages_of_takes {s : State} {headerPid : ℕ} {sample : SampledProfile}
    (h : s.Takes headerPid sample) (payloadLen : ℕ) :
    (step s (.sample headerPid (some sample) payloadLen)).pages =
      (s.countPage (pageOf sample.instructionPointer)).pages := by
  rw [pages_step_sample, if_neg fun hnot => h.elim hnot.1 hnot.2]

theorem alter_ne (pages : OrdMap ℕ ℕ) (page : ℕ) :
    pages.alter page (fun count => some (count.getD 0 + 1)) ≠ pages := by
  intro heq
  have hpage := congrArg (fun m : OrdMap ℕ ℕ => m[page]?.getD 0) heq
  simp only [OrdMap.getElem?_alter, if_true, Option.getD_some] at hpage
  omega

/-! ### The recorder's set of threads -/

theorem targetPid_step (s : State) (e : Event) : (step s e).targetPid = s.targetPid := by
  cases e with
  | sample headerPid sample payloadLen =>
    cases sample with
    | none => rfl
    | some sample =>
      simp only [step, State.recordSample, State.countPage, Option.isNone_some, Bool.false_eq_true,
        if_false]
      split_ifs <;> rfl
  | trackThread pid tid =>
    simp only [step, State.trackThread]
    split_ifs <;> rfl
  | _ => rfl

/-- What the recorder knows after some events: its set of threads, and page counts that are
`u64` values. -/
structure Follows (targetPid : ℕ) (threadOwners : OrdMap ℕ ℕ) (events : List Event) (s : State) :
    Prop where
  target : s.targetPid = targetPid
  threads : ∀ tid, tid ∈ s.targetThreads ↔
    (owners threadOwners events)[tid]? = some targetPid ∨ tid ∈ headed targetPid events
  counts : s.Counts

theorem owners_concat (threadOwners : OrdMap ℕ ℕ) (events : List Event) (e : Event) :
    owners threadOwners (events ++ [e]) =
      match e with
      | .trackThread pid tid => (owners threadOwners events).insert tid pid
      | .forgetThread tid => (owners threadOwners events).erase tid
      | _ => owners threadOwners events := by
  rw [owners, List.foldl_append]
  rfl

theorem headed_concat (targetPid : ℕ) (events : List Event) (e : Event) :
    headed targetPid (events ++ [e]) =
      match e with
      | .sample headerPid (some sample) _ =>
        if headerPid = targetPid then insert sample.threadId (headed targetPid events)
        else headed targetPid events
      | .trackThread _ tid => (headed targetPid events).erase tid
      | .forgetThread tid => (headed targetPid events).erase tid
      | _ => headed targetPid events := by
  rw [headed, List.foldl_append]
  rfl

theorem run_concat (targetPid : ℕ) (threadOwners : OrdMap ℕ ℕ) (events : List Event)
    (e : Event) :
    run targetPid threadOwners (events ++ [e]) = step (run targetPid threadOwners events) e := by
  rw [run, List.foldl_append]
  rfl

theorem follows_start (targetPid : ℕ) (threadOwners : OrdMap ℕ ℕ) :
    Follows targetPid threadOwners [] (start targetPid threadOwners) where
  target := rfl
  threads tid := by
    rw [start, List.mem_toFinset, List.mem_map]
    simp only [headed, owners, List.foldl_nil, Finset.notMem_empty, or_false]
    constructor
    · rintro ⟨a, ha, rfl⟩
      obtain ⟨hmem, hpid⟩ := List.mem_filter.mp ha
      rw [← of_decide_eq_true hpid]
      exact Std.ExtTreeMap.mem_toList_iff_getElem?_eq_some.mp hmem
    · intro h
      exact ⟨(tid, targetPid), List.mem_filter.mpr
        ⟨Std.ExtTreeMap.mem_toList_iff_getElem?_eq_some.mpr h, decide_eq_true rfl⟩, rfl⟩
  counts page count h := by simp [start] at h

theorem State.Counts.countPage {s : State} (h : s.Counts) (page : ℕ) :
    (s.countPage page).Counts := by
  intro p count hcount
  unfold State.countPage at hcount
  split_ifs at hcount with hfull
  · exact h p count hcount
  · have halter : (s.pages.alter page fun count =>
        some (saturatingAdd (count.getD 0) 1))[p]? = some count := hcount
    rw [OrdMap.getElem?_alter] at halter
    split_ifs at halter with hp
    · cases halter
      unfold saturatingAdd u64Bound
      omega
    · exact h p count halter

theorem State.Counts.sample {s : State} (h : s.Counts) (headerPid : ℕ) (sample : SampledProfile)
    (payloadLen : ℕ) : (Profile.step s (.sample headerPid (some sample) payloadLen)).Counts := by
  by_cases htakes : s.Takes headerPid sample
  · unfold State.Counts
    rw [pages_of_takes htakes]
    exact h.countPage _
  · unfold State.Counts
    rw [pages_of_not_takes htakes]
    exact h

/-- A taken sample makes its thread the target's. -/
theorem targetThreads_step_sample (s : State) (headerPid : ℕ) (sample : SampledProfile)
    (payloadLen : ℕ) :
    (step s (.sample headerPid (some sample) payloadLen)).targetThreads =
      if sample.threadId ∉ s.targetThreads ∧ headerPid ≠ s.targetPid then s.targetThreads
      else insert sample.threadId s.targetThreads := by
  simp only [step, State.recordSample, State.countPage, Option.isNone_some, Bool.false_eq_true,
    if_false]
  split_ifs <;> rfl

theorem Follows.sample {targetPid : ℕ} {threadOwners : OrdMap ℕ ℕ} {events : List Event}
    {s : State} (h : Follows targetPid threadOwners events s) (headerPid : ℕ)
    (sample : SampledProfile) (payloadLen : ℕ) :
    Follows targetPid threadOwners (events ++ [.sample headerPid (some sample) payloadLen])
      (Profile.step s (.sample headerPid (some sample) payloadLen)) where
  target := by rw [targetPid_step, h.target]
  threads tid := by
    rw [targetThreads_step_sample, owners_concat, headed_concat, h.target]
    simp only
    by_cases hheader : headerPid = targetPid
    · rw [if_neg fun hnot => hnot.2 hheader, if_pos hheader, Finset.mem_insert,
        Finset.mem_insert, h.threads]
      tauto
    · rw [if_neg hheader]
      split_ifs with hnot
      · exact h.threads tid
      · -- the thread was the target's before
        have hknown : sample.threadId ∈ s.targetThreads := by
          by_contra hunknown
          exact hnot ⟨hunknown, hheader⟩
        rw [Finset.insert_eq_of_mem hknown, h.threads]
  counts := h.counts.sample headerPid sample payloadLen

theorem Follows.trackThread {targetPid : ℕ} {threadOwners : OrdMap ℕ ℕ} {events : List Event}
    {s : State} (h : Follows targetPid threadOwners events s) (pid tid : ℕ) :
    Follows targetPid threadOwners (events ++ [.trackThread pid tid])
      (Profile.step s (.trackThread pid tid)) where
  target := by rw [targetPid_step, h.target]
  threads j := by
    rw [owners_concat, headed_concat]
    simp only [OrdMap.getElem?_insert, Finset.mem_erase]
    unfold Profile.step State.trackThread
    simp only [h.target]
    -- an owner event adds the thread for the target and removes it for any other process
    by_cases hpid : pid = targetPid
    · rw [if_pos hpid]
      show j ∈ insert tid s.targetThreads ↔ _
      rw [Finset.mem_insert, h.threads]
      by_cases hj : tid = j
      · simp [hj, hpid]
      · simp [hj, Ne.symm hj]
    · rw [if_neg hpid]
      show j ∈ s.targetThreads.erase tid ↔ _
      rw [Finset.mem_erase, h.threads]
      by_cases hj : tid = j
      · simp [hj, hpid]
      · simp [hj, Ne.symm hj]
  counts := by
    show (s.trackThread pid tid).Counts
    unfold State.trackThread
    split_ifs <;> exact h.counts

theorem Follows.step {targetPid : ℕ} {threadOwners : OrdMap ℕ ℕ} {events : List Event} {s : State}
    (h : Follows targetPid threadOwners events s) (e : Event) :
    Follows targetPid threadOwners (events ++ [e]) (step s e) := by
  cases e with
  | sample headerPid sample payloadLen =>
    cases sample with
    | none =>
      refine ⟨h.target, fun tid => ?_, h.counts⟩
      rw [owners_concat, headed_concat]
      exact h.threads tid
    | some sample => exact h.sample headerPid sample payloadLen
  | trackThread pid tid => exact h.trackThread pid tid
  | forgetThread tid =>
    refine ⟨h.target, fun j => ?_, h.counts⟩
    rw [owners_concat, headed_concat]
    show j ∈ s.targetThreads.erase tid ↔ _
    simp only [Finset.mem_erase, h.threads, OrdMap.getElem?_erase]
    by_cases hj : tid = j
    · simp [hj]
    · simp [hj, Ne.symm hj]
  | takeWindow =>
    refine ⟨h.target, fun tid => ?_, fun page count hcount => ?_⟩
    · rw [owners_concat, headed_concat]
      exact h.threads tid
    · simp [Profile.step, State.drain] at hcount

theorem follows_run (targetPid : ℕ) (threadOwners : OrdMap ℕ ℕ) (events : List Event) :
    Follows targetPid threadOwners events (run targetPid threadOwners events) := by
  induction events using List.reverseRecOn with
  | nil => exact follows_start targetPid threadOwners
  | append_singleton events e ih =>
    rw [run_concat]
    exact ih.step e

/-- **What the recorder's set of threads consists of**: the threads whose most recent owner event
names the target, and those of which a sample since has named it. -/
theorem mem_targetThreads_iff (targetPid : ℕ) (threadOwners : OrdMap ℕ ℕ) (events : List Event)
    (tid : ℕ) :
    tid ∈ (run targetPid threadOwners events).targetThreads ↔
      (owners threadOwners events)[tid]? = some targetPid ∨ tid ∈ headed targetPid events :=
  (follows_run targetPid threadOwners events).threads tid

/-! ### Charging by owner -/

/-- One sample is charged by the owner of its thread exactly when the headers agree at it. -/
theorem Follows.chargedByOwner_iff {targetPid : ℕ} {threadOwners : OrdMap ℕ ℕ}
    {events : List Event} {s : State} (h : Follows targetPid threadOwners events s)
    (headerPid : ℕ) (sample : SampledProfile) (payloadLen : ℕ) :
    ChargedByOwner targetPid (owners threadOwners events)[sample.threadId]? sample s
        (Profile.step s (.sample headerPid (some sample) payloadLen)) ↔
      HeadersAgree targetPid (owners threadOwners events)[sample.threadId]?
        (headed targetPid events) headerPid sample s := by
  have htakes : s.Takes headerPid sample ↔
      ((owners threadOwners events)[sample.threadId]? = some targetPid ∨
        sample.threadId ∈ headed targetPid events) ∨ headerPid = targetPid := by
    rw [State.Takes, h.threads, h.target]
  refine and_congr (forall_congr' fun pid => forall_congr' fun howner =>
    forall_congr' fun hpid => ?_) (forall_congr' fun howner => ?_)
  · -- the thread is another process's
    have hother : (owners threadOwners events)[sample.threadId]? ≠ some targetPid := by
      rw [howner]
      simpa using hpid
    constructor
    · intro hpages
      by_cases htaken : s.Takes headerPid sample
      · refine .inr fun hroom => alter_ne s.pages (pageOf sample.instructionPointer) ?_
        rw [← State.countPage_of_room hroom, ← pages_of_takes htaken payloadLen, hpages]
      · have hnot := mt htakes.mpr htaken
        exact .inl ⟨fun hh => hnot (.inr hh), fun hh => hnot (.inl (.inr hh))⟩
    · rintro (⟨hheader, hheaded⟩ | hfull)
      · refine pages_of_not_takes (fun htaken => ?_) payloadLen
        rcases htakes.mp htaken with (htarget | hh) | hh
        · exact hother htarget
        · exact hheaded hh
        · exact hheader hh
      · by_cases htaken : s.Takes headerPid sample
        · rw [pages_of_takes htaken, State.countPage_of_not_room h.counts hfull]
        · exact pages_of_not_takes htaken payloadLen
  · -- the thread is the target's
    have htaken : s.Takes headerPid sample := htakes.mpr (.inl (.inl howner))
    rw [pages_of_takes htaken]
    constructor
    · intro hpages
      by_contra hfull
      rw [State.countPage_of_not_room h.counts hfull] at hpages
      exact alter_ne s.pages _ hpages.symm
    · exact State.countPage_of_room

/-- **Exactly when samples are counted by the owner of their thread.**  Along any events, every
sample is charged by the process its thread's most recent owner event names, if and only if at
every sample the headers agree: where the owner is another process, neither this sample's header
nor an earlier one's since the owner event names the target, or there is no room to count the
sample; and a sample of the target finds room. -/
theorem charged_iff (targetPid : ℕ) (threadOwners : OrdMap ℕ ℕ) (events : List Event) :
    SamplesChargedByOwner targetPid threadOwners events ↔
      SamplesHeadersAgree targetPid threadOwners events :=
  forall₃_congr fun before headerPid sample => forall₃_congr fun payloadLen _ _ =>
    (follows_run targetPid threadOwners before).chargedByOwner_iff headerPid sample payloadLen

/-- A thread of process 88 is sampled in a record whose header carries the target's pid 84: the
sample is counted for the target. -/
theorem known_owner_overruled :
    ¬SamplesChargedByOwner 84 ∅
      [.trackThread 88 100,
        .sample 84 (some { instructionPointer := 0x1000, threadId := 100 }) 20] := by
  intro h
  have hpages := (h [.trackThread 88 100] 84 ⟨0x1000, 100⟩ 20 [] rfl).1 88 (by decide) (by decide)
  have hpage := congrArg (fun m : OrdMap ℕ ℕ => m[0x1000]?) hpages
  revert hpage
  decide

end Taskman.Etw.Profile
