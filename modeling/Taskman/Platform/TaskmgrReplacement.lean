import Taskman.Core.Model
import Taskman.Platform.Registry
import Taskman.Text.Scan

/-!
# Replacing the Task Manager

Windows starts the command in one registry value in place of the Task Manager.  The program
registers itself there, removes its registration, and for one launch of the real Task Manager
deletes the value and writes it back.  It tells its own registrations from others by the form of
the command alone: a quoted path and a marker.

* `Replacement.ownedPath` : the path in an own command (`Replacement.ownedPath_eq_some_iff`);
* `Replacement.setDirectForExe`, `Replacement.removeForDeletedExe`,
  `Replacement.launchNativeTaskManagerDirect` : the three writers, with the failures of their
  registry calls;
* `Replacement.foreign_run` : **a foreign value survives every run**;
* `Replacement.registration_right_iff` : **a run does what it reports exactly while no own value is
  kept by a key that cannot be opened, no command is too long to be read back, and no own command
  that is suspended for a launch holds an unpaired surrogate**.
-/

namespace Taskman

namespace Replacement

/-- The argument that marks a command as our own. -/
def OWNER_MARKER : Text := "--taskmgr-replacement-launch".toList

/-- The longest data that are read. -/
def MAX_DATA : ℕ := 64 * 1024

/-- What the registration says for one executable. -/
inductive State where
  | disabled
  | enabled
  /-- The value is an own one, for another executable. -/
  | stale (command : Text)
  /-- The value is not an own one. -/
  | conflict (command : Text)
  deriving DecidableEq

/-- What the registry has in the place of the debugger. -/
inductive DebuggerValue where
  | absent
  | text (command : Text)
  | invalid
  deriving DecidableEq

/-- Paths of executables and what the program reads off them. -/
structure Paths (π : Type*) where
  /-- `to_string_lossy`. -/
  lossy : π → Text
  /-- A path holds no NUL. -/
  noNul : ∀ exe, '\x00' ∉ lossy exe
  /-- `file_name`, as a text. -/
  fileName : π → Option Text
  /-- `str::to_lowercase`. -/
  toLowercase : Text → Text

/-- How the calls of one operation end. -/
structure Calls where
  /-- `RegOpenKeyExW` before a deletion. -/
  openKey : Option RegFault := none
  delete : Option RegFault := none
  create : Option RegFault := none
  set : Option RegFault := none
  /-- The executable is a file. -/
  isFile : Bool := true
  /-- The launch of the Task Manager. -/
  launch : Except TmError Unit := .ok ()

/-! ### Commands -/

/-- The executable an own command names. -/
def ownedPath (value : Text) : Option Text := do
  let rest ← value.trim.stripSuffix OWNER_MARKER
  let quoted ← Text.stripPrefix (rest.rdropWhile Text.isWhitespace) ['"']
  let path ← quoted.stripSuffix ['"']
  if !path.isEmpty && !path.contains '"' then some path else none

/-- A command carries the marker. -/
def isOwnedCommand (value : Text) : Bool := (ownedPath value).isSome

/-- The command that starts a path in place of the Task Manager. -/
def commandFor (path : Text) : Text := '"' :: (path ++ '"' :: ' ' :: OWNER_MARKER)

section

variable {π : Type*} (paths : Paths π)

/-- The command of an executable. -/
def ownCommandFor (exe : π) : Text := commandFor (paths.lossy exe)

/-- `normalize_command`. -/
def normalizeCommand (s : Text) : Text :=
  paths.toLowercase (s.trim.map fun c => if c = '/' then '\\' else c)

/-- A command of our own names an executable that is to go. -/
def namesDeletedExe (value : Text) (exe : π) : Bool :=
  isOwnedCommand value &&
    match ownedPath value with
    | some path => normalizeCommand paths path == normalizeCommand paths (paths.lossy exe)
    | none => false

/-! ### The registry value -/

/-- `read_debugger`. -/
def readDebugger : Option RegValue → DebuggerValue
  | none => .absent
  | some v =>
    if v.kind ≠ REG_SZ ∨ ¬(2 ≤ v.data.length ∧ v.data.length ≤ MAX_DATA) ∨
        v.data.length % 2 ≠ 0 then .invalid
    else .text (Text.fromUtf16Lossy v.units)

/-- An error of the platform. -/
def platformError (context : String) (detail : Text) : TmError := .platform context.toList detail

/-- `write_debugger`. -/
def writeDebugger (calls : Calls) (command : Text) (v : Option RegValue) :
    Except TmError Unit × Option RegValue :=
  match calls.create with
  | some f => (.error (platformError "RegCreateKeyExW(IFEO)" f.display), v)
  | none =>
    match calls.set with
    | some f => (.error (platformError "RegSetValueExW(IFEO)" f.display), v)
    | none => (.ok (), some (.text command))

/-- `delete_debugger`. -/
def deleteDebugger (calls : Calls) (v : Option RegValue) : Except TmError Unit × Option RegValue :=
  match calls.openKey with
  | some _ => (.ok (), v)
  | none =>
    match calls.delete with
    | some f => (.error (platformError "RegDeleteValueW(IFEO)" f.display), v)
    | none => (.ok (), none)

/-- `state_for_exe`. -/
def stateForExe (v : Option RegValue) (exe : π) : State :=
  match readDebugger v with
  | .absent => .disabled
  | .invalid =>
    .conflict "the existing debugger registration is unreadable or malformed".toList
  | .text value =>
    if !isOwnedCommand value then .conflict value
    else if normalizeCommand paths value = normalizeCommand paths (ownCommandFor paths exe) then
      .enabled
    else .stale value

/-! ### The writers -/

/-- `validate_target`. -/
def validateTarget (calls : Calls) (exe : π) : Except TmError Unit :=
  if Text.toAsciiLowercase ((paths.fileName exe).getD []) = "taskmgr.exe".toList then
    .error (platformError "Task Manager replacement"
      "an executable named taskmgr.exe cannot replace the Task Manager".toList)
  else if (paths.lossy exe).isEmpty || (paths.lossy exe).contains '"' then
    .error (platformError "Task Manager replacement"
      "the executable path cannot be quoted as a debugger command".toList)
  else if !calls.isFile then
    .error (platformError "Task Manager replacement"
      (paths.lossy exe ++ " is not an executable file".toList))
  else .ok ()

/-- `set_direct_for_exe`. -/
def setDirectForExe (calls : Calls) (enabled : Bool) (exe : π) (v : Option RegValue) :
    Except TmError Unit × Option RegValue :=
  if enabled then
    match stateForExe paths v exe with
    | .conflict value =>
      (.error (platformError "Task Manager replacement"
        ("another debugger is already registered: ".toList ++ value)), v)
    | _ =>
      match validateTarget paths calls exe with
      | .error e => (.error e, v)
      | .ok () => writeDebugger calls (ownCommandFor paths exe) v
  else
    match stateForExe paths v exe with
    | .disabled => (.ok (), v)
    | .enabled | .stale _ => deleteDebugger calls v
    | .conflict value =>
      (.error (platformError "Task Manager replacement"
        ("refusing to remove another debugger: ".toList ++ value)), v)

/-- `remove_for_deleted_exe`. -/
def removeForDeletedExe (calls : Calls) (exe : π) (v : Option RegValue) :
    Except TmError Bool × Option RegValue :=
  match readDebugger v with
  | .text value =>
    if namesDeletedExe paths value exe then
      match deleteDebugger calls v with
      | (.ok (), v) => (.ok true, v)
      | (.error e, v) => (.error e, v)
    else (.ok false, v)
  | .invalid =>
    (.error (platformError "Task Manager replacement cleanup"
      "cannot verify the IFEO registration; program files were not removed".toList), v)
  | .absent => (.ok false, v)

/-- `launch_then_restore`. -/
def launchThenRestore (calls : Calls) (original : Text) (v : Option RegValue) :
    Except TmError Unit × Option RegValue :=
  match calls.launch, writeDebugger calls original v with
  | .ok (), (.ok (), v) => (.ok (), v)
  | .error launch, (.ok (), v) => (.error launch, v)
  | .ok (), (.error restore, v) =>
    (.error (platformError "Windows Task Manager"
      ("Task Manager was launched, but TaskMan's interception could not be restored: ".toList ++
        restore.display)), v)
  | .error launch, (.error restore, v) =>
    (.error (platformError "Windows Task Manager"
      ("launch failed: ".toList ++ launch.display ++
        "; restoring TaskMan's interception also failed: ".toList ++ restore.display)), v)

/-- `launch_native_task_manager_direct`. -/
def launchNativeTaskManagerDirect (calls : Calls) (v : Option RegValue) :
    Except TmError Unit × Option RegValue :=
  match readDebugger v with
  | .absent => (calls.launch, v)
  | .text value =>
    if isOwnedCommand value then
      match deleteDebugger calls v with
      | (.error e, v) => (.error e, v)
      | (.ok (), v) => launchThenRestore calls value v
    else
      (.error (platformError "Windows Task Manager"
        ("another IFEO debugger is registered for Taskmgr.exe: ".toList ++ value)), v)
  | .invalid =>
    (.error (platformError "Windows Task Manager"
      "the Taskmgr.exe IFEO debugger registration is unreadable or malformed".toList), v)

end

/-! ### Own commands -/

/-- An own command: a quoted path, white space, and the marker. -/
structure Owned (value path : Text) : Prop where
  form : ∃ space, value.trim = '"' :: (path ++ '"' :: (space ++ OWNER_MARKER)) ∧
    ∀ c ∈ space, Text.isWhitespace c
  nonempty : path ≠ []
  unquoted : '"' ∉ path

theorem ownedPath_eq_some_iff {value path : Text} :
    ownedPath value = some path ↔ Owned value path := by
  have hquote : Text.isWhitespace '"' = false := by decide
  simp only [ownedPath, Option.bind_eq_bind, Option.bind_eq_some_iff,
    Text.stripSuffix_eq_some_iff, Text.stripPrefix_eq_some_iff, Option.ite_none_right_eq_some,
    Option.some.injEq]
  constructor
  · rintro ⟨rest, hrest, quoted, hquoted, path', rfl, hpath, rfl⟩
    simp only [Bool.and_eq_true, Bool.not_eq_true', List.isEmpty_eq_false_iff,
      List.contains_eq_mem, decide_eq_false_iff_not] at hpath
    refine ⟨⟨rest.rtakeWhile Text.isWhitespace, ?_, fun c hc => List.mem_rtakeWhile_imp hc⟩,
      hpath.1, hpath.2⟩
    have hsplit := List.rdropWhile_append_rtakeWhile (p := Text.isWhitespace) (l := rest)
    rw [hquoted] at hsplit
    rw [hrest]
    conv_lhs => rw [← hsplit]
    simp
  · rintro ⟨⟨space, hform, hspace⟩, hne, hnot⟩
    refine ⟨'"' :: (path ++ '"' :: space), by simp [hform], path ++ ['"'], ?_, path, rfl, ?_, rfl⟩
    · have hall : space.rdropWhile Text.isWhitespace = [] :=
        List.rdropWhile_eq_nil_iff.mpr hspace
      rw [← List.cons_append, Text.rdropWhile_append_cons hquote, hall]
      simp
    · simp [hne, hnot]

theorem isOwnedCommand_iff {value : Text} : isOwnedCommand value ↔ ∃ path, Owned value path := by
  simp [isOwnedCommand, Option.isSome_iff_exists, ownedPath_eq_some_iff]

/-- A command that is printed is recognised. -/
theorem owned_commandFor {path : Text} (hne : path ≠ []) (hnot : '"' ∉ path) :
    Owned (commandFor path) path := by
  refine ⟨⟨[' '], ?_, by simp; decide⟩, hne, hnot⟩
  refine Text.trim_eq_self ⟨?_, ?_⟩
  · simp [commandFor]
    decide
  · have hlast : (commandFor path).getLast? = some 'h' := by
      rw [commandFor, List.getLast?_cons, List.getLast?_append, List.getLast?_cons]
      rfl
    rw [hlast]
    simp
    decide

/-- The value of the registry, as the text it holds up to the first NUL. -/
def command (v : Option RegValue) : Option (List ℕ) := v.map RegValue.units

/-- The value is malformed or not an own one. -/
def Foreign (v : Option RegValue) : Prop :=
  readDebugger v = .invalid ∨ ∃ value, readDebugger v = .text value ∧ isOwnedCommand value = false

/-- The value is an own one. -/
def OwnedValue (v : Option RegValue) : Prop :=
  ∃ value, readDebugger v = .text value ∧ isOwnedCommand value

theorem units_of_readDebugger {v : Option RegValue} {value : Text}
    (h : readDebugger v = .text value) :
    ∃ w, v = some w ∧ value = Text.fromUtf16Lossy w.units := by
  cases v with
  | none => cases h
  | some w =>
    rw [readDebugger] at h
    split_ifs at h with hbad
    exact ⟨w, rfl, (DebuggerValue.text.inj h).symm⟩

/-- A command that is written is read back, if it is short enough. -/
theorem readDebugger_text (value : Text) :
    readDebugger (some (.text value)) =
      if 2 * ((Text.encodeUtf16 value).length + 1) ≤ MAX_DATA then
        .text (value.takeWhile (· ≠ '\x00'))
      else .invalid := by
  have hkind : (RegValue.text value).kind = REG_SZ := rfl
  simp only [readDebugger, RegValue.length_data_text, RegValue.units_text, hkind,
    Text.fromUtf16Lossy_encodeUtf16]
  split_ifs with hbad hshort hshort
  · omega
  · rfl
  · rfl
  · omega

/-! ### What each writer does -/

section

variable {π : Type*} {paths : Paths π} {calls : Calls} {v : Option RegValue} {exe : π}

variable (paths exe) in
theorem stateForExe_foreign (h : Foreign v) : ∃ c, stateForExe paths v exe = .conflict c := by
  rcases h with h | ⟨value, h, hnot⟩
  · exact ⟨_, by rw [stateForExe, h]⟩
  · exact ⟨value, by simp [stateForExe, h, hnot]⟩

variable (paths exe) in
theorem stateForExe_owned (h : OwnedValue v) :
    stateForExe paths v exe = .enabled ∨ ∃ c, stateForExe paths v exe = .stale c := by
  obtain ⟨value, h, hown⟩ := h
  simp only [stateForExe, h, hown, Bool.not_true, Bool.false_eq_true, if_false]
  split_ifs
  · exact Or.inl rfl
  · exact Or.inr ⟨value, rfl⟩

theorem stateForExe_absent (h : readDebugger v = .absent) :
    stateForExe paths v exe = .disabled := by
  rw [stateForExe, h]

/-- A value is missing, an own one or a foreign one. -/
theorem absent_or_owned_or_foreign (v : Option RegValue) :
    readDebugger v = .absent ∨ OwnedValue v ∨ Foreign v := by
  rcases h : readDebugger v with _ | value | _
  · exact Or.inl rfl
  · cases hown : isOwnedCommand value with
    | true => exact Or.inr (Or.inl ⟨value, h, hown⟩)
    | false => exact Or.inr (Or.inr (Or.inr ⟨value, h, hown⟩))
  · exact Or.inr (Or.inr (Or.inl h))

theorem not_foreign_of_absent (h : readDebugger v = .absent) : ¬Foreign v := by
  rintro (h' | ⟨value, h', -⟩) <;> rw [h] at h' <;> cases h'

theorem not_ownedValue_of_absent (h : readDebugger v = .absent) : ¬OwnedValue v := by
  rintro ⟨value, h', -⟩
  rw [h] at h'
  cases h'

theorem OwnedValue.not_foreign (h : OwnedValue v) : ¬Foreign v := by
  obtain ⟨value, h, hown⟩ := h
  rintro (h' | ⟨other, h', hnot⟩)
  · rw [h] at h'
    cases h'
  · rw [h] at h'
    obtain rfl := DebuggerValue.text.inj h'
    rw [hown] at hnot
    cases hnot

theorem eq_none_of_absent (h : readDebugger v = .absent) : v = none := by
  cases v with
  | none => rfl
  | some w =>
    rw [readDebugger] at h
    split_ifs at h

theorem validateTarget_ok (h : validateTarget paths calls exe = .ok ()) :
    paths.lossy exe ≠ [] ∧ '"' ∉ paths.lossy exe := by
  unfold validateTarget at h
  split_ifs at h with hname hquote
  simpa using hquote

/-- A registration is read back as enabled exactly when its command is short enough. -/
theorem stateForExe_registered (h : validateTarget paths calls exe = .ok ()) :
    stateForExe paths (some (.text (ownCommandFor paths exe))) exe = .enabled ↔
      2 * ((Text.encodeUtf16 (ownCommandFor paths exe)).length + 1) ≤ MAX_DATA := by
  obtain ⟨hne, hquote⟩ := validateTarget_ok h
  have hown : isOwnedCommand (ownCommandFor paths exe) :=
    isOwnedCommand_iff.mpr ⟨_, owned_commandFor hne hquote⟩
  have hnul : (ownCommandFor paths exe).takeWhile (· ≠ '\x00') = ownCommandFor paths exe := by
    rw [List.takeWhile_eq_self_iff]
    intro c hc
    rw [decide_eq_true_iff]
    rintro rfl
    have hmarker : '\x00' ∉ OWNER_MARKER := by decide
    simp [ownCommandFor, commandFor, paths.noNul exe, hmarker] at hc
  rw [stateForExe, readDebugger_text, hnul]
  split_ifs with hshort
  · simp [hown, hshort]
  · simp [hshort]

theorem writeDebugger_ok {value : Text} (hcreate : calls.create = none) (hset : calls.set = none) :
    writeDebugger calls value v = (.ok (), some (.text value)) := by
  simp [writeDebugger, hcreate, hset]

/-- A write that fails leaves the value as it is. -/
theorem writeDebugger_error {value : Text} {e : TmError}
    (h : (writeDebugger calls value v).1 = .error e) : (writeDebugger calls value v).2 = v := by
  unfold writeDebugger at h ⊢
  cases hcreate : calls.create with
  | some f => rfl
  | none =>
    cases hset : calls.set with
    | some f => rfl
    | none => simp [hcreate, hset] at h

theorem writeDebugger_calls {value : Text} (h : (writeDebugger calls value v).1 = .ok ()) :
    calls.create = none ∧ calls.set = none := by
  unfold writeDebugger at h
  cases hcreate : calls.create with
  | some f => simp [hcreate] at h
  | none =>
    cases hset : calls.set with
    | some f => simp [hcreate, hset] at h
    | none => exact ⟨rfl, rfl⟩

theorem deleteDebugger_error {e : TmError} (h : (deleteDebugger calls v).1 = .error e) :
    (deleteDebugger calls v).2 = v := by
  unfold deleteDebugger at h ⊢
  cases hopen : calls.openKey with
  | some f => rfl
  | none =>
    cases hdelete : calls.delete with
    | some f => rfl
    | none => simp [hopen, hdelete] at h

/-- What a deletion that reports success has done. -/
theorem deleteDebugger_ok (h : (deleteDebugger calls v).1 = .ok ()) :
    (deleteDebugger calls v).2 = if calls.openKey = none then none else v := by
  unfold deleteDebugger at h ⊢
  cases hopen : calls.openKey with
  | some f => simp
  | none =>
    cases hdelete : calls.delete with
    | some f => simp [hopen, hdelete] at h
    | none => simp

variable (paths calls exe) in
theorem setDirectForExe_foreign (h : Foreign v) (enabled : Bool) :
    ∃ e, setDirectForExe paths calls enabled exe v = (.error e, v) := by
  obtain ⟨c, hc⟩ := stateForExe_foreign paths exe h
  cases enabled <;> exact ⟨_, by simp only [setDirectForExe, hc]; rfl⟩

theorem setDirectForExe_true (h : ¬Foreign v) :
    setDirectForExe paths calls true exe v =
      match validateTarget paths calls exe with
      | .error e => (.error e, v)
      | .ok () => writeDebugger calls (ownCommandFor paths exe) v := by
  have hstate : ∀ c, stateForExe paths v exe ≠ .conflict c := by
    intro c hc
    rcases absent_or_owned_or_foreign v with habsent | howned | hforeign
    · rw [stateForExe_absent habsent] at hc
      cases hc
    · rcases stateForExe_owned paths exe howned with h' | ⟨c', h'⟩ <;>
        rw [h'] at hc <;> cases hc
    · exact h hforeign
  rw [setDirectForExe, if_pos rfl]
  cases hs : stateForExe paths v exe with
  | conflict c => exact absurd hs (hstate c)
  | disabled => rfl
  | enabled => rfl
  | stale c => rfl

theorem setDirectForExe_false_absent (h : readDebugger v = .absent) :
    setDirectForExe paths calls false exe v = (.ok (), v) := by
  rw [setDirectForExe, if_neg Bool.false_ne_true, stateForExe_absent h]

theorem setDirectForExe_false_owned (h : OwnedValue v) :
    setDirectForExe paths calls false exe v = deleteDebugger calls v := by
  rw [setDirectForExe, if_neg Bool.false_ne_true]
  rcases stateForExe_owned paths exe h with h' | ⟨c, h'⟩ <;> rw [h']

/-! ### Runs -/

/-- One operation of a program. -/
inductive Op (π : Type*) where
  | set (enabled : Bool) (exe : π)
  | remove (exe : π)
  | launch

/-- The value after one operation. -/
def step (paths : Paths π) (calls : Calls) (v : Option RegValue) : Op π → Option RegValue
  | .set enabled exe => (setDirectForExe paths calls enabled exe v).2
  | .remove exe => (removeForDeletedExe paths calls exe v).2
  | .launch => (launchNativeTaskManagerDirect calls v).2

/-- The value after a run. -/
def run (paths : Paths π) (v : Option RegValue) (ops : List (Op π × Calls)) : Option RegValue :=
  ops.foldl (fun v op => step paths op.2 v op.1) v

/-- The value is an own one for the executable. -/
def Names (paths : Paths π) (v : Option RegValue) (exe : π) : Prop :=
  ∃ value path, readDebugger v = .text value ∧ Owned value path ∧
    normalizeCommand paths path = normalizeCommand paths (paths.lossy exe)

/-- The operation does what it reports. -/
def Reports (paths : Paths π) (calls : Calls) (v : Option RegValue) : Op π → Prop
  | .set enabled exe =>
    ((setDirectForExe paths calls enabled exe v).1 = .ok () →
      stateForExe paths (setDirectForExe paths calls enabled exe v).2 exe =
        if enabled then .enabled else .disabled) ∧
    ∀ e, (setDirectForExe paths calls enabled exe v).1 = .error e →
      (setDirectForExe paths calls enabled exe v).2 = v
  | .remove exe =>
    (removeForDeletedExe paths calls exe v).2 = v ∨
      (removeForDeletedExe paths calls exe v).2 = none ∧ Names paths v exe
  | .launch =>
    OwnedValue v → calls.create = none → calls.set = none →
      command (launchNativeTaskManagerDirect calls v).2 = command v

/-- The operation leaves a foreign value alone and does what it reports. -/
def Right (paths : Paths π) (calls : Calls) (v : Option RegValue) (op : Op π) : Prop :=
  (Foreign v → step paths calls v op = v) ∧ Reports paths calls v op

/-- The operation meets none of the cases that go wrong. -/
def Meets (paths : Paths π) (calls : Calls) (v : Option RegValue) : Op π → Prop
  | .set true exe =>
    ¬Foreign v → validateTarget paths calls exe = .ok () → calls.create = none →
      calls.set = none → 2 * ((Text.encodeUtf16 (ownCommandFor paths exe)).length + 1) ≤ MAX_DATA
  | .set false _ => OwnedValue v → calls.openKey = none
  | .remove _ => True
  | .launch =>
    OwnedValue v → calls.create = none → calls.set = none →
      (calls.openKey = none → calls.delete = none) →
        ∃ t, command v = some (Text.encodeUtf16 t)

/-- **A foreign value is left alone.** -/
theorem step_foreign (h : Foreign v) (op : Op π) : step paths calls v op = v := by
  cases op with
  | set enabled exe =>
    obtain ⟨e, he⟩ := setDirectForExe_foreign paths calls exe h enabled
    rw [step, he]
  | remove exe =>
    rcases h with h | ⟨value, h, hnot⟩
    · rw [step, removeForDeletedExe, h]
    · simp [step, removeForDeletedExe, h, namesDeletedExe, hnot]
  | launch =>
    rcases h with h | ⟨value, h, hnot⟩
    · rw [step, launchNativeTaskManagerDirect, h]
    · simp [step, launchNativeTaskManagerDirect, h, hnot]

theorem reports_enable_iff :
    Reports paths calls v (.set true exe) ↔ Meets paths calls v (.set true exe) := by
  by_cases hforeign : Foreign v
  · obtain ⟨e, he⟩ := setDirectForExe_foreign paths calls exe hforeign true
    simp [Reports, Meets, he, hforeign]
  · rw [Reports, Meets, setDirectForExe_true hforeign]
    cases hvalid : validateTarget paths calls exe with
    | error e => simp
    | ok u =>
      have hread := stateForExe_registered hvalid
      simp only [hforeign, not_false_eq_true, forall_const, if_true]
      constructor
      · intro h hcreate hset
        rw [writeDebugger_ok hcreate hset] at h
        exact hread.mp (h.1 rfl)
      · intro h
        refine ⟨fun hok => ?_, fun e => writeDebugger_error⟩
        obtain ⟨hcreate, hset⟩ := writeDebugger_calls hok
        rw [writeDebugger_ok hcreate hset]
        exact hread.mpr (h hcreate hset)

theorem reports_disable_iff :
    Reports paths calls v (.set false exe) ↔ Meets paths calls v (.set false exe) := by
  rcases absent_or_owned_or_foreign v with habsent | howned | hforeign
  · have hnot := not_ownedValue_of_absent habsent
    simp [Reports, Meets, setDirectForExe_false_absent habsent, stateForExe_absent habsent, hnot]
  · rw [Reports, Meets, setDirectForExe_false_owned howned]
    constructor
    · rintro ⟨hok, -⟩ -
      by_contra hopen
      have hdelete : deleteDebugger calls v = (.ok (), v) := by
        obtain ⟨f, hf⟩ := Option.ne_none_iff_exists'.mp hopen
        rw [deleteDebugger, hf]
      rw [hdelete] at hok
      have hstate := hok rfl
      rcases stateForExe_owned paths exe howned with h | ⟨c, h⟩ <;>
        simp [h] at hstate
    · intro hopen
      refine ⟨fun hok => ?_, fun e => deleteDebugger_error⟩
      rw [deleteDebugger_ok hok, if_pos (hopen howned)]
      exact stateForExe_absent rfl
  · obtain ⟨e, he⟩ := setDirectForExe_foreign paths calls exe hforeign false
    have hnot : ¬OwnedValue v := fun h => h.not_foreign hforeign
    simp [Reports, Meets, he, hnot]

/-- A deletion for a removed executable is of a value that names it. -/
theorem reports_remove : Reports paths calls v (.remove exe) := by
  rw [Reports, removeForDeletedExe]
  split
  · rename_i value hread
    split_ifs with hnames
    · rw [namesDeletedExe, Bool.and_eq_true] at hnames
      obtain ⟨hown, hnames⟩ := hnames
      obtain ⟨path, hpath⟩ := isOwnedCommand_iff.mp hown
      rw [ownedPath_eq_some_iff.mpr hpath] at hnames
      have hn : Names paths v exe := ⟨value, path, hread, hpath, beq_iff_eq.mp hnames⟩
      cases hopen : calls.openKey with
      | some f => simp [deleteDebugger, hopen]
      | none =>
        cases hdelete : calls.delete with
        | some f => simp [deleteDebugger, hopen, hdelete]
        | none => simp [deleteDebugger, hopen, hdelete, hn]
    · exact Or.inl rfl
  · exact Or.inl rfl
  · exact Or.inl rfl

/-- What is written back is the original command when it is a text. -/
theorem command_restored_iff {w : RegValue} :
    (RegValue.text (Text.fromUtf16Lossy w.units)).units = w.units ↔
      ∃ t, w.units = Text.encodeUtf16 t := by
  have hcut : (w.units ++ [0]).takeWhile (· ≠ 0) = w.units := by
    have hall : ∀ u ∈ w.units, decide (u ≠ 0) = true := by
      intro u hu
      rw [RegValue.units] at hu
      exact List.mem_takeWhile_imp (p := fun u => decide (u ≠ 0)) hu
    rw [List.takeWhile_append_of_pos hall]
    simp
  rw [RegValue.units_text]
  constructor
  · intro h
    exact ⟨_, h.symm⟩
  · rintro ⟨t, ht⟩
    rw [ht, Text.fromUtf16Lossy_encodeUtf16, ← Text.takeWhile_encodeUtf16, ← ht, hcut]

theorem reports_launch_iff :
    Reports paths calls v (.launch : Op π) ↔ Meets paths calls v (.launch : Op π) := by
  rw [Reports, Meets]
  refine forall_congr' fun howned => forall_congr' fun hcreate => forall_congr' fun hset => ?_
  obtain ⟨value, hread, hown⟩ := howned
  obtain ⟨w, rfl, rfl⟩ := units_of_readDebugger hread
  simp only [launchNativeTaskManagerDirect, hread, hown, if_true]
  by_cases hdeleted : calls.openKey = none → calls.delete = none
  · have hok : (deleteDebugger calls (some w)).1 = .ok () := by
      unfold deleteDebugger
      cases hopen : calls.openKey with
      | some f => rfl
      | none => rw [hdeleted hopen]
    obtain ⟨after, hafter⟩ : ∃ after, deleteDebugger calls (some w) = (.ok (), after) :=
      ⟨_, Prod.ext hok rfl⟩
    have hback : (launchThenRestore calls (Text.fromUtf16Lossy w.units) after).2 =
        some (.text (Text.fromUtf16Lossy w.units)) := by
      rw [launchThenRestore, writeDebugger_ok hcreate hset]
      cases calls.launch <;> rfl
    rw [hafter, forall_prop_of_true hdeleted]
    simp only [hback, command, Option.map_some, Option.some.injEq]
    exact command_restored_iff
  · obtain ⟨hopen, hdelete⟩ := Classical.not_imp.mp hdeleted
    obtain ⟨f, hf⟩ := Option.ne_none_iff_exists'.mp hdelete
    simp [deleteDebugger, hopen, hf]

/-- **One operation.** -/
theorem right_iff (op : Op π) : Right paths calls v op ↔ Meets paths calls v op := by
  rw [Right, and_iff_right fun h => step_foreign h op]
  cases op with
  | set enabled exe =>
    cases enabled with
    | true => exact reports_enable_iff
    | false => exact reports_disable_iff
  | remove exe => exact iff_of_true reports_remove trivial
  | launch => exact reports_launch_iff

/-- **A foreign value survives every run.** -/
theorem foreign_run (paths : Paths π) (h : Foreign v) (ops : List (Op π × Calls)) :
    run paths v ops = v := by
  induction ops with
  | nil => rfl
  | cons op ops ih => rw [run, List.foldl_cons, step_foreign h, ← run, ih]

/-- **A run does what it reports exactly while it meets none of the cases that go wrong.** -/
theorem registration_right_iff (paths : Paths π) (v : Option RegValue)
    (ops : List (Op π × Calls)) :
    (∀ before op after, ops = before ++ op :: after →
        Right paths op.2 (run paths v before) op.1) ↔
      ∀ before op after, ops = before ++ op :: after →
        Meets paths op.2 (run paths v before) op.1 := by
  simp only [right_iff]

/-- Paths of one executable. -/
def onePath : Paths Unit where
  lossy := fun _ => "C:\\taskman.exe".toList
  noNul := fun _ => by decide
  fileName := fun _ => some "taskman.exe".toList
  toLowercase := Text.toAsciiLowercase

/-- A registration whose key cannot be opened for writing is reported as removed and stays. -/
theorem disable_denied :
    (setDirectForExe onePath { openKey := some ⟨5, by decide⟩ } false ()
        (some (.text (ownCommandFor onePath ())))).1 = .ok () ∧
      stateForExe onePath (setDirectForExe onePath { openKey := some ⟨5, by decide⟩ } false ()
        (some (.text (ownCommandFor onePath ())))).2 () = .enabled := by
  decide +kernel

end

end Replacement

end Taskman
