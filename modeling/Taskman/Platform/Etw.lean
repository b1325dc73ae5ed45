import Taskman.Binary.Bytes
import Taskman.Text.Basic

/-!
# Event trace records

What the trace consumers of this crate share: the fields of an `EVENT_RECORD` they read, the
plausibility check on client ids, and the prefix of the classic thread events.
-/

namespace Taskman.Etw

/-- The event classes (`ProviderId`) the consumers tell apart. -/
inductive EventClass where
  | diskIo
  | thread
  | imageLoad
  | perfInfo
  | systemProfile
  | other
  deriving DecidableEq, Repr

/-- The part of an `EVENT_RECORD` the callbacks read. -/
structure EventRecord where
  providerId : EventClass
  opcode : ℕ
  version : ℕ := 0
  flags : ℕ := 0
  /-- The process id of the event header. -/
  processId : ℕ := 0
  userData : Bytes

/-- `EVENT_HEADER_FLAG_32_BIT_HEADER`. -/
def flag32BitHeader : ℕ := 0x0020

/-- The record's payload, or `none` when there is none. -/
def EventRecord.payload (r : EventRecord) : Option Bytes :=
  if r.userData.isEmpty then none else some r.userData

/-- Pointer width of the process the record came from. -/
def EventRecord.pointerBytes (r : EventRecord) : ℕ :=
  if r.flags &&& flag32BitHeader ≠ 0 then 4 else 8

/-- Process and thread ids are handle-table ids: non-zero multiples of four. -/
def plausibleClientId (id : ℕ) : Bool := id != 0 && id % 4 == 0

/-- A thread has started. -/
def opcodeThreadStart : ℕ := 1

/-- A thread has ended. -/
def opcodeThreadStop : ℕ := 2

/-- A thread was there when the session began. -/
def opcodeThreadDcStart : ℕ := 3

/-- A thread was there when the session ended. -/
def opcodeThreadDcStop : ℕ := 4

/-- Decode the `(ProcessID, ThreadID)` prefix shared by the classic thread events. -/
def parseThreadEvent (payload : Bytes) : Option (ℕ × ℕ) :=
  if payload.length < 8 then none
  else do
    let pid ← payload.readLe? 0 4
    let tid ← payload.readLe? 4 4
    if plausibleClientId pid && plausibleClientId tid then some (pid, tid) else none

/-- A decoded thread event carries two plausible ids. -/
theorem plausible_of_parseThreadEvent {payload : Bytes} {pid tid : ℕ}
    (h : parseThreadEvent payload = some (pid, tid)) :
    plausibleClientId pid = true ∧ plausibleClientId tid = true := by
  unfold parseThreadEvent at h
  split_ifs at h with hlen
  simp only [Option.bind_eq_bind, Option.bind_eq_some_iff] at h
  obtain ⟨p, _, t, _, h⟩ := h
  obtain ⟨hpt, h⟩ := Option.ite_none_right_eq_some.mp h
  cases h
  exact Bool.and_eq_true_iff.mp hpt

end Taskman.Etw
