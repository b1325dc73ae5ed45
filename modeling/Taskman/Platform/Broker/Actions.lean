import Taskman.Platform.Broker.Dispatch

/-!
# The brokered actions of the GUI

`BrokeredActions` sends an action to the core service and performs it under the user's own token
only when the service is not available.  The calls it makes are an environment: the client of the
broker, the local implementation, and the note that a process's attributes have changed.

* `unitOrLocal`, `valueOrLocal`, `inspectOrLocal` : the ways to fall back;
* `Operation.run` : the operations that have a broker request;
* `NeverFallsBack` : a rejection is what the caller gets;
* `no_fallback` : **where nothing identifies the target nothing is sent, and the operations that
  never fall back**;
* `listProcessThreads_refused` : a list that is read locally first, by design.
-/

namespace Taskman

namespace BrokeredActions

open Broker

/-! ### Calls -/

/-- How a call of the broker fails: it cannot be reached, or it refuses. -/
inductive BrokerCallError where
  | unavailable (detail : Text)
  | rejected (detail : Text)
  deriving DecidableEq

/-- The states a thread can be in. -/
inductive ThreadState where
  | initialized
  | ready
  | running
  | standby
  | terminated
  | waiting
  | transition
  | deferredReady
  | other (raw : ℕ)
  deriving DecidableEq

/-- A thread as it is listed. -/
structure ProcessThread where
  tid : ℕ
  startAddress : Option UInt64
  priority : ℤ
  basePriority : ℤ
  contextSwitches : ℕ
  kernelTime100ns : ℕ
  userTime100ns : ℕ
  createdEpochS : Option ℤ
  state : ThreadState
  waitReason : ℕ
  cycles : Option ℕ
  deriving DecidableEq

/-- The threads of a process, with its base priority. -/
structure ProcessThreads where
  processBasePriority : ℤ
  threads : List ProcessThread
  deriving DecidableEq

/-- The local implementations that an action may fall back to. -/
inductive LocalCall where
  | controlService (name : Text) (action : ServiceAction)
  | controlUserSession (sessionId : ℕ) (action : UserSessionAction)
  | killProcess (pid : ℕ) (start : Option ℤ) (tree : Bool)
  | suspendProcessChecked (pid : ℕ) (start : Option ℤ) (suspend : Bool)
  | setPriorityChecked (pid : ℕ) (start : Option ℤ) (priority : Broker.PriorityClass)
  | getAffinityMaskChecked (pid : ℕ) (start : Option ℤ)
  | setAffinityMaskChecked (pid : ℕ) (start : Option ℤ) (mask : UInt64)
  | setEfficiencyModeChecked (pid : ℕ) (start : Option ℤ) (on : Bool)
  | setUacVirtualizationChecked (pid : ℕ) (start : Option ℤ) (enabled : Bool)
  | processSecurityInfoChecked (pid : ℕ) (start : Option ℤ)
  | listProcessModules (pid : ℕ) (start : Option ℤ)
  | processModuleCodeSamples (pid : ℕ) (start : Option ℤ)
  | listProcessThreads (pid : ℕ) (start : Option ℤ)
  | unloadProcessModule (pid : ℕ) (start : Option ℤ) (baseAddress : UInt64) (path : Text)
  | setTaskManagerReplacement (enabled : Bool)
  | repairTaskManagerReplacement

/-- What a local implementation answers when it succeeds. -/
@[reducible] def LocalCall.Value (P : Payloads) : LocalCall → Type
  | getAffinityMaskChecked _ _ => UInt64
  | processSecurityInfoChecked _ _ => P.security
  | listProcessModules _ _ => List ProcessModule
  | processModuleCodeSamples _ _ => Option ProcessModuleCodeWindow
  | listProcessThreads _ _ => ProcessThreads
  | unloadProcessModule _ _ _ _ => ModuleUnloadOutcome
  | repairTaskManagerReplacement => Bool
  | _ => Unit

/-- What an operation may call: the broker, or the local implementation. -/
inductive ActionCall where
  /-- `BrokerClient::call`. -/
  | broker (request : BrokerRequest)
  | onLocal (call : LocalCall)
  /-- The local `task_manager_replacement_state`, which cannot fail. -/
  | localReplacementState
  /-- `process_ops::note_attrs_changed`. -/
  | noteAttrsChanged (pid : ℕ)

/-- What each call answers. -/
@[reducible] def ActionCall.Answer (P : Payloads) : ActionCall → Type
  | broker _ => Except BrokerCallError (BrokerValue P)
  | onLocal call => Except TmError (call.Value P)
  | localReplacementState => TaskManagerReplacementState
  | noteAttrsChanged _ => Unit

/-- A call goes to the broker. -/
def ActionCall.IsBroker : ActionCall → Bool
  | broker _ => true
  | _ => false

/-- A call goes to a local implementation. -/
def ActionCall.IsLocal : ActionCall → Bool
  | onLocal _ | localReplacementState => true
  | _ => false

/-- An operation, as a program over these calls. -/
abbrev ActionM (P : Payloads) (α : Type) := Program TmError ActionCall (ActionCall.Answer P) α

/-- A call with its answer. -/
abbrev ActionEvent (P : Payloads) := Program.Event ActionCall (ActionCall.Answer P)

variable {P : Payloads}

/-! ### The ways to fall back -/

/-- `BrokerClient::call`. -/
def send (request : BrokerRequest) : ActionM P (Except BrokerCallError (BrokerValue P)) :=
  Program.perform (ActionCall.broker request)

/-- The local implementation; its error is returned. -/
def locally (call : LocalCall) : ActionM P (call.Value P) := do
  let answer ← Program.perform (ActionCall.onLocal call)
  Program.ofExcept answer

/-- What the caller gets of a rejection. -/
def rejection (detail : Text) : TmError := .platform "core service".toList detail

/-- The error for an answer of the wrong type. -/
def unexpected (what : String) : TmError := platformError "core service" what

/-- `unit_or_local` -/
def unitOrLocal (request : BrokerRequest) (call : ActionM P Unit) : ActionM P Unit := do
  match ← send request with
  | .ok .unit => pure ()
  | .ok _ => .fail (unexpected "unexpected response type")
  | .error (.unavailable _) => call
  | .error (.rejected detail) => .fail (rejection detail)

/-- `value_or_local` -/
def valueOrLocal {α : Type} (request : BrokerRequest) (decode : BrokerValue P → Option α)
    (call : ActionM P α) : ActionM P α := do
  match ← send request with
  | .ok value =>
    match decode value with
    | some a => pure a
    | none => .fail (unexpected "unexpected response type")
  | .error (.unavailable _) => call
  | .error (.rejected detail) => .fail (rejection detail)

/-- The two reads that try the local implementation after a rejection as well, and report the
rejection if that fails too. -/
def inspectOrLocal (request : BrokerRequest) (what : String) (call : LocalCall)
    (decode : BrokerValue P → Option (call.Value P)) : ActionM P (call.Value P) := do
  match ← send request with
  | .ok value =>
    match decode value with
    | some a => pure a
    | none => .fail (unexpected what)
  | .error (.unavailable _) => locally call
  | .error (.rejected detail) =>
    let answer ← Program.perform (ActionCall.onLocal call)
    match (answer : Except TmError (call.Value P)) with
    | .ok a => pure a
    | .error _ => .fail (rejection detail)

/-- `noting_attrs`: a successful control action leaves the cached attributes stale. -/
def notingAttrs (pid : ℕ) (action : ActionM P Unit) : ActionM P Unit := do
  action
  Program.perform (ActionCall.noteAttrsChanged pid)

/-! ### The operations -/

/-- Start, stop or restart a service. -/
def controlService (name : Text) (action : ServiceAction) : ActionM P Unit :=
  unitOrLocal (.controlService name action) (locally (.controlService name action))

/-- Disconnect a session or log it off. -/
def controlUserSession (sessionId : ℕ) (action : UserSessionAction) : ActionM P Unit :=
  unitOrLocal (.controlUserSession sessionId action)
    (locally (.controlUserSession sessionId action))

-- calls with a pid only cannot safely cross a privilege boundary: the pid may have been recycled
/-- End a process, or its tree; without a creation time only locally. -/
def killProcess (pid : ℕ) (expected : Option ℤ) (tree : Bool) : ActionM P Unit :=
  match expected with
  | none => locally (.killProcess pid none tree)
  | some start =>
    unitOrLocal (.killProcess pid (some start) tree) (locally (.killProcess pid (some start) tree))

/-- End a process, whatever it is now. -/
def killSingle (pid : ℕ) : ActionM P Unit := killProcess pid none false

/-- Suspend or resume a process of a known creation time. -/
def suspendProcessChecked (pid : ℕ) (expected : Option ℤ) (suspend : Bool) : ActionM P Unit :=
  match expected with
  | none => locally (.suspendProcessChecked pid none suspend)
  | some start =>
    unitOrLocal (.suspendProcess pid (some start) suspend)
      (locally (.suspendProcessChecked pid (some start) suspend))

/-- Suspend or resume a process, whatever it is now. -/
def suspendProcess (pid : ℕ) (suspend : Bool) : ActionM P Unit :=
  suspendProcessChecked pid none suspend

/-- Set the priority of a process of a known creation time. -/
def setPriorityChecked (pid : ℕ) (expected : Option ℤ) (priority : Broker.PriorityClass) :
    ActionM P Unit :=
  match expected with
  | none => locally (.setPriorityChecked pid none priority)
  | some start =>
    notingAttrs pid
      (unitOrLocal (.setPriority pid (some start) priority)
        (locally (.setPriorityChecked pid (some start) priority)))

/-- Set the priority of a process, whatever it is now. -/
def setPriority (pid : ℕ) (priority : Broker.PriorityClass) : ActionM P Unit :=
  setPriorityChecked pid none priority

/-- Read the affinity mask of a process of a known creation time. -/
def getAffinityMaskChecked (pid : ℕ) (expected : Option ℤ) : ActionM P UInt64 :=
  match expected with
  | none => locally (.getAffinityMaskChecked pid none)
  | some start =>
    valueOrLocal (.getAffinity pid (some start))
      (fun value => match value with
        | .affinityMask mask => some mask
        | _ => none)
      (locally (.getAffinityMaskChecked pid (some start)))

/-- Read the affinity mask of a process, whatever it is now. -/
def getAffinityMask (pid : ℕ) : ActionM P UInt64 := getAffinityMaskChecked pid none

/-- Set the affinity mask of a process of a known creation time. -/
def setAffinityMaskChecked (pid : ℕ) (expected : Option ℤ) (mask : UInt64) : ActionM P Unit :=
  match expected with
  | none => locally (.setAffinityMaskChecked pid none mask)
  | some start =>
    unitOrLocal (.setAffinity pid (some start) mask)
      (locally (.setAffinityMaskChecked pid (some start) mask))

/-- Set the affinity mask of a process, whatever it is now. -/
def setAffinityMask (pid : ℕ) (mask : UInt64) : ActionM P Unit :=
  setAffinityMaskChecked pid none mask

/-- Turn the efficiency mode of a process of a known creation time on or off. -/
def setEfficiencyModeChecked (pid : ℕ) (expected : Option ℤ) (on : Bool) : ActionM P Unit :=
  match expected with
  | none => locally (.setEfficiencyModeChecked pid none on)
  | some start =>
    notingAttrs pid
      (unitOrLocal (.setEfficiencyMode pid (some start) on)
        (locally (.setEfficiencyModeChecked pid (some start) on)))

/-- Turn the efficiency mode of a process, whatever it is now, on or off. -/
def setEfficiencyMode (pid : ℕ) (on : Bool) : ActionM P Unit :=
  setEfficiencyModeChecked pid none on

/-- Turn the UAC virtualization of a process of a known creation time on or off. -/
def setUacVirtualizationChecked (pid : ℕ) (expected : Option ℤ) (enabled : Bool) :
    ActionM P Unit :=
  match expected with
  | none => locally (.setUacVirtualizationChecked pid none enabled)
  | some start =>
    notingAttrs pid
      (unitOrLocal (.setUacVirtualization pid (some start) enabled)
        (locally (.setUacVirtualizationChecked pid (some start) enabled)))

/-- `expected_start_epoch_s.filter(|value| *value > 0)` -/
def positiveStart (expected : Option ℤ) : Option ℤ := expected.filter (0 < ·)

/-- Read the security information of a process of a known creation time. -/
def processSecurityInfoChecked (pid : ℕ) (expected : Option ℤ) : ActionM P P.security :=
  match positiveStart expected with
  | none => locally (.processSecurityInfoChecked pid expected)
  | some start =>
    inspectOrLocal (.processSecurityInfo pid (some start))
      "unexpected process-security response type"
      (.processSecurityInfoChecked pid (some start))
      (fun value => match value with
        | .processSecurity info => some info
        | _ => none)

/-- List the modules of a process. -/
def listProcessModules (pid : ℕ) (expected : Option ℤ) : ActionM P (List ProcessModule) :=
  match positiveStart expected with
  | none => locally (.listProcessModules pid expected)
  | some start =>
    inspectOrLocal (.processModules pid (some start)) "unexpected process-modules response type"
      (.listProcessModules pid (some start))
      (fun value => match value with
        | .processModules modules => some modules
        | _ => none)

/-- Read the code samples of a process; only the broker has them. -/
def processModuleCodeSamples (pid : ℕ) (expected : Option ℤ) :
    ActionM P (Option ProcessModuleCodeWindow) :=
  match positiveStart expected with
  | none => .fail (unexpected "a valid sampled process creation time is required")
  | some start => do
    match ← send (.processModuleCodeSamples pid (some start)) with
    | .ok (.processModuleCodeSamples window) => pure window
    | .ok _ => .fail (unexpected "unexpected module code-sample response type")
    | .error (.unavailable _) => locally (.processModuleCodeSamples pid (some start))
    | .error (.rejected detail) => .fail (rejection detail)

/-- The two assignments of the loop. -/
def fillMissing (thread : ProcessThread) (detail : ProcessThreadDetail) : ProcessThread :=
  let thread := if thread.startAddress.isNone then
      { thread with startAddress := detail.startAddress } else thread
  if thread.cycles.isNone then { thread with cycles := detail.cycles } else thread

/-- The evidence for one thread, and whether any was filled in; a recycled id must not inherit
another thread's. -/
def mergeThread (details : List ProcessThreadDetail) (thread : ProcessThread) :
    ProcessThread × Bool :=
  if thread.startAddress.isSome && thread.cycles.isSome then (thread, false) else
  match thread.createdEpochS with
  | none => (thread, false)
  | some created =>
    match details.find? fun detail =>
        detail.tid == thread.tid && detail.createdEpochS == some created with
    | none => (thread, false)
    | some detail =>
      let before := (thread.startAddress, thread.cycles)
      let thread := fillMissing thread detail
      (thread, (thread.startAddress, thread.cycles) ≠ before)

/-- The loop over the threads, with its count. -/
def mergeThreads (details : List ProcessThreadDetail) :
    List ProcessThread → List ProcessThread × ℕ
  | [] => ([], 0)
  | thread :: threads =>
    let (thread, changed) := mergeThread details thread
    let (threads, filled) := mergeThreads details threads
    (thread :: threads, if changed then filled + 1 else filled)

/-- `merge_process_thread_details`, with its count of the threads that were filled. -/
def mergeProcessThreadDetails (threads : ProcessThreads) (details : List ProcessThreadDetail) :
    ProcessThreads × ℕ :=
  let (merged, filled) := mergeThreads details threads.threads
  ({ threads with threads := merged }, filled)

/-- List the threads of a process, and ask the broker for what is missing. -/
def listProcessThreads (pid : ℕ) (expected : Option ℤ) : ActionM P ProcessThreads := do
  let threads ← locally (.listProcessThreads pid expected)
  let missing := threads.threads.countP fun thread =>
    thread.startAddress.isNone || thread.cycles.isNone
  if missing = 0 then pure threads else
  match positiveStart expected with
  | none => pure threads
  | some start =>
    match ← send (.processThreadDetails pid (some start)) with
    | .ok (.processThreadDetails details) => pure (mergeProcessThreadDetails threads details).1
    | .ok _ => .fail (unexpected "unexpected thread-details response type")
    -- the local list remains trustworthy without privileged evidence
    | .error (.unavailable _) => pure threads
    | .error (.rejected _) => pure threads

/-- Unload a module; only from a process of a known creation time. -/
def unloadProcessModule (pid : ℕ) (expected : Option ℤ) (baseAddress : UInt64) (path : Text) :
    ActionM P ModuleUnloadOutcome :=
  match positiveStart expected with
  | none =>
    .fail (platformError "unload module" "a valid sampled process creation time is required")
  | some start =>
    valueOrLocal (.unloadModule pid (some start) baseAddress path)
      (fun value => match value with
        | .moduleUnload stillMapped verified _ =>
          some ⟨if verified then some stillMapped else none⟩
        | _ => none)
      (locally (.unloadProcessModule pid (some start) baseAddress path))

/-- Whether the program stands in for the task manager. -/
def taskManagerReplacementState : ActionM P TaskManagerReplacementState := do
  match ← send .taskManagerReplacementState with
  | .ok (.taskManagerReplacementState state) => pure state
  | _ => Program.perform ActionCall.localReplacementState

/-- Make the program stand in for the task manager, or no longer. -/
def setTaskManagerReplacement (enabled : Bool) : ActionM P Unit :=
  unitOrLocal (.setTaskManagerReplacement enabled) (locally (.setTaskManagerReplacement enabled))

/-- Register the program again; whether anything was repaired. -/
def repairTaskManagerReplacement : ActionM P Bool := do
  match ← send (.setTaskManagerReplacement true) with
  | .ok .unit => pure true
  | .ok _ => .fail (unexpected "unexpected response type")
  | .error (.unavailable _) => locally .repairTaskManagerReplacement
  | .error (.rejected detail) => .fail (rejection detail)

/-- The operations of `BrokeredActions` that have a broker request. -/
inductive Operation where
  | controlService (name : Text) (action : ServiceAction)
  | controlUserSession (sessionId : ℕ) (action : UserSessionAction)
  | killProcess (pid : ℕ) (expected : Option ℤ) (tree : Bool)
  | killSingle (pid : ℕ)
  | suspendProcess (pid : ℕ) (suspend : Bool)
  | suspendProcessChecked (pid : ℕ) (expected : Option ℤ) (suspend : Bool)
  | setPriority (pid : ℕ) (priority : Broker.PriorityClass)
  | setPriorityChecked (pid : ℕ) (expected : Option ℤ) (priority : Broker.PriorityClass)
  | getAffinityMask (pid : ℕ)
  | getAffinityMaskChecked (pid : ℕ) (expected : Option ℤ)
  | setAffinityMask (pid : ℕ) (mask : UInt64)
  | setAffinityMaskChecked (pid : ℕ) (expected : Option ℤ) (mask : UInt64)
  | setEfficiencyMode (pid : ℕ) (on : Bool)
  | setEfficiencyModeChecked (pid : ℕ) (expected : Option ℤ) (on : Bool)
  | setUacVirtualizationChecked (pid : ℕ) (expected : Option ℤ) (enabled : Bool)
  | processSecurityInfoChecked (pid : ℕ) (expected : Option ℤ)
  | listProcessModules (pid : ℕ) (expected : Option ℤ)
  | processModuleCodeSamples (pid : ℕ) (expected : Option ℤ)
  | listProcessThreads (pid : ℕ) (expected : Option ℤ)
  | unloadProcessModule (pid : ℕ) (expected : Option ℤ) (baseAddress : UInt64) (path : Text)
  | taskManagerReplacementState
  | setTaskManagerReplacement (enabled : Bool)
  | repairTaskManagerReplacement

/-- What each operation gives. -/
@[reducible] def Operation.Result (P : Payloads) : Operation → Type
  | getAffinityMask _ | getAffinityMaskChecked _ _ => UInt64
  | processSecurityInfoChecked _ _ => P.security
  | listProcessModules _ _ => List ProcessModule
  | processModuleCodeSamples _ _ => Option ProcessModuleCodeWindow
  | listProcessThreads _ _ => ProcessThreads
  | unloadProcessModule _ _ _ _ => ModuleUnloadOutcome
  | taskManagerReplacementState => TaskManagerReplacementState
  | repairTaskManagerReplacement => Bool
  | _ => Unit

/-- Each operation as a program. -/
def Operation.run : (op : Operation) → ActionM P (op.Result P)
  | controlService name action => BrokeredActions.controlService name action
  | controlUserSession sessionId action => BrokeredActions.controlUserSession sessionId action
  | killProcess pid expected tree => BrokeredActions.killProcess pid expected tree
  | killSingle pid => BrokeredActions.killSingle pid
  | suspendProcess pid suspend => BrokeredActions.suspendProcess pid suspend
  | suspendProcessChecked pid expected suspend =>
    BrokeredActions.suspendProcessChecked pid expected suspend
  | setPriority pid priority => BrokeredActions.setPriority pid priority
  | setPriorityChecked pid expected priority =>
    BrokeredActions.setPriorityChecked pid expected priority
  | getAffinityMask pid => BrokeredActions.getAffinityMask pid
  | getAffinityMaskChecked pid expected => BrokeredActions.getAffinityMaskChecked pid expected
  | setAffinityMask pid mask => BrokeredActions.setAffinityMask pid mask
  | setAffinityMaskChecked pid expected mask =>
    BrokeredActions.setAffinityMaskChecked pid expected mask
  | setEfficiencyMode pid on => BrokeredActions.setEfficiencyMode pid on
  | setEfficiencyModeChecked pid expected on =>
    BrokeredActions.setEfficiencyModeChecked pid expected on
  | setUacVirtualizationChecked pid expected enabled =>
    BrokeredActions.setUacVirtualizationChecked pid expected enabled
  | processSecurityInfoChecked pid expected =>
    BrokeredActions.processSecurityInfoChecked pid expected
  | listProcessModules pid expected => BrokeredActions.listProcessModules pid expected
  | processModuleCodeSamples pid expected =>
    BrokeredActions.processModuleCodeSamples pid expected
  | listProcessThreads pid expected => BrokeredActions.listProcessThreads pid expected
  | unloadProcessModule pid expected baseAddress path =>
    BrokeredActions.unloadProcessModule pid expected baseAddress path
  | taskManagerReplacementState => BrokeredActions.taskManagerReplacementState
  | setTaskManagerReplacement enabled => BrokeredActions.setTaskManagerReplacement enabled
  | repairTaskManagerReplacement => BrokeredActions.repairTaskManagerReplacement

/-- The operation comes with what identifies its target, or has no process for its target. -/
def Operation.HasIdentity : Operation → Bool
  | killSingle _ | suspendProcess _ _ | setPriority _ _ | getAffinityMask _ | setAffinityMask _ _
  | setEfficiencyMode _ _ => false
  | killProcess _ expected _ | suspendProcessChecked _ expected _ | setPriorityChecked _ expected _
  | getAffinityMaskChecked _ expected | setAffinityMaskChecked _ expected _
  | setEfficiencyModeChecked _ expected _ | setUacVirtualizationChecked _ expected _ =>
    expected.isSome
  | processSecurityInfoChecked _ expected | listProcessModules _ expected
  | processModuleCodeSamples _ expected | listProcessThreads _ expected
  | unloadProcessModule _ expected _ _ => (positiveStart expected).isSome
  | controlService _ _ | controlUserSession _ _ | taskManagerReplacementState
  | setTaskManagerReplacement _ | repairTaskManagerReplacement => true

/-- The operations that do as the documentation says after a rejection. -/
def Operation.Strict : Operation → Bool
  | processSecurityInfoChecked _ _ | listProcessModules _ _ | listProcessThreads _ _
  | taskManagerReplacementState => false
  | _ => true

/-! ### What every operation keeps to -/

/-- The answers after which an operation falls back. -/
abbrev Falls (P : Payloads) := Except BrokerCallError (BrokerValue P) → Prop

/-- The broker is unavailable. -/
def Unavailable : Falls P
  | .error (.unavailable _) => True
  | _ => False

/-- The broker is asked first, for a target that is identified; the local implementation is called
where it is not, or right after an answer that the operation falls back on. -/
def Guard (falls : Falls P) (identified : Bool) (calls : List (ActionEvent P)) :
    ActionCall → Prop
  | .broker _ => identified = true ∧ calls = []
  | .onLocal _ | .localReplacementState =>
    identified = false ∨
      ∃ request answer, calls = [⟨.broker request, answer⟩] ∧ falls answer
  | .noteAttrsChanged _ => True

/-- A rejection is what the caller gets. -/
def Relayed {α : Type} (calls : List (ActionEvent P)) (result : Except TmError α) : Prop :=
  ∀ request detail, ⟨.broker request, .error (.rejected detail)⟩ ∈ calls →
    result = .error (rejection detail)

/-- No request of a run was refused by the broker. -/
def Unrejected (calls : List (ActionEvent P)) : Prop :=
  ∀ request detail, ⟨.broker request, .error (.rejected detail)⟩ ∉ calls

theorem Unrejected.relayed {α : Type} {calls : List (ActionEvent P)} (h : Unrejected calls)
    (result : Except TmError α) : Relayed calls result :=
  fun request detail hm => absurd hm (h request detail)

theorem unrejected_nil : Unrejected ([] : List (ActionEvent P)) :=
  fun _ _ => List.not_mem_nil

theorem unrejected_singleton {request : BrokerRequest}
    {answer : Except BrokerCallError (BrokerValue P)}
    (h : ∀ detail, answer ≠ .error (.rejected detail)) :
    Unrejected [(⟨.broker request, answer⟩ : ActionEvent P)] := by
  intro request' detail hm
  cases List.mem_singleton.mp hm
  exact h detail rfl

/-- A call of something else than the broker adds no rejection. -/
theorem Unrejected.append {calls : List (ActionEvent P)} (h : Unrejected calls) {call : ActionCall}
    (hcall : call.IsBroker = false) (x : call.Answer P) :
    Unrejected (calls ++ [⟨call, x⟩]) := by
  intro request detail hm
  rcases List.mem_append.mp hm with hm | hm
  · exact h request detail hm
  · cases List.mem_singleton.mp hm
    cases hcall

section Parts

variable {falls : Falls P} {identified : Bool} {calls : List (ActionEvent P)} {α : Type}

open Program

theorem safe_locally {call : LocalCall} (h : Guard falls identified calls (.onLocal call))
    (hcalls : Unrejected calls) :
    (locally call).Safe (Guard falls identified) Relayed calls := by
  rw [locally, safe_bind, safe_perform]
  refine ⟨h, fun x => ?_⟩
  rw [Continue, safe_ofExcept]
  exact (hcalls.append rfl x).relayed _

theorem safe_locally_unidentified (call : LocalCall) :
    (locally call).Safe (Guard falls false) (Relayed (P := P)) [] :=
  safe_locally (.inl rfl) unrejected_nil

theorem safe_locally_unavailable (call : LocalCall) (request : BrokerRequest) (detail : Text) :
    (locally call).Safe (Guard Unavailable identified) (Relayed (P := P))
      [⟨.broker request, .error (.unavailable detail)⟩] := by
  refine safe_locally (.inr ⟨request, _, rfl, trivial⟩) (unrejected_singleton fun d h => ?_)
  cases h

theorem relayed_rejection (request : BrokerRequest) (detail : Text) :
    Relayed [(⟨.broker request, .error (.rejected detail)⟩ : ActionEvent P)]
      (.error (rejection detail) : Except TmError α) := by
  intro request' detail' hm
  cases List.mem_singleton.mp hm
  rfl

theorem relayed_ok (request : BrokerRequest) (value : BrokerValue P) (result : Except TmError α) :
    Relayed [(⟨.broker request, .ok value⟩ : ActionEvent P)] result :=
  (unrejected_singleton fun _ h => by cases h).relayed _

theorem safe_send {Q : List (ActionEvent P) → Except TmError α → Prop} (request : BrokerRequest)
    {f : Except BrokerCallError (BrokerValue P) → ActionM P α}
    (hf : ∀ answer, (f answer).Safe (Guard falls true) Q [⟨.broker request, answer⟩]) :
    (send request >>= f).Safe (Guard falls true) Q [] := by
  rw [safe_bind]
  exact ⟨⟨rfl, rfl⟩, hf⟩

theorem safe_unitOrLocal (request : BrokerRequest) {call : ActionM P Unit}
    (hcall : ∀ detail, call.Safe (Guard Unavailable true) Relayed
      [⟨.broker request, .error (.unavailable detail)⟩]) :
    (unitOrLocal request call).Safe (Guard Unavailable true) Relayed [] := by
  refine safe_send request fun answer => ?_
  match answer with
  | .ok value => cases value <;> exact relayed_ok _ _ _
  | .error (.unavailable detail) => exact hcall detail
  | .error (.rejected detail) => exact relayed_rejection _ _

theorem safe_valueOrLocal (request : BrokerRequest) (decode : BrokerValue P → Option α)
    {call : ActionM P α} (hcall : ∀ detail, call.Safe (Guard Unavailable true) Relayed
      [⟨.broker request, .error (.unavailable detail)⟩]) :
    (valueOrLocal request decode call).Safe (Guard Unavailable true) Relayed [] := by
  refine safe_send request fun answer => ?_
  match answer with
  | .ok value =>
    dsimp only
    cases decode value <;> exact relayed_ok _ _ _
  | .error (.unavailable detail) => exact hcall detail
  | .error (.rejected detail) => exact relayed_rejection _ _

/-- The note about a process's attributes changes neither what was asked nor what is returned. -/
theorem safe_notingAttrs (pid : ℕ) {action : ActionM P Unit}
    (h : action.Safe (Guard falls identified) Relayed calls) :
    (notingAttrs pid action).Safe (Guard falls identified) Relayed calls := by
  rw [notingAttrs, safe_bind]
  refine h.mono fun calls' result hresult => ?_
  cases result with
  | error e => exact hresult
  | ok u =>
    refine safe_perform.mpr ⟨trivial, fun x => ?_⟩
    have hunrejected : Unrejected calls' := fun request detail hm => by
      cases hresult request detail hm
    exact (hunrejected.append rfl x).relayed _

end Parts

/-- **Operations that fall back only on an unavailable broker.** -/
theorem safe_run {op : Operation} (h : op.Strict) :
    (op.run : ActionM P _).Safe (Guard Unavailable op.HasIdentity) Relayed [] := by
  cases op with
  | controlService name action => exact safe_unitOrLocal _ (safe_locally_unavailable _ _)
  | controlUserSession sessionId action => exact safe_unitOrLocal _ (safe_locally_unavailable _ _)
  | killSingle pid => exact safe_locally_unidentified _
  | suspendProcess pid suspend => exact safe_locally_unidentified _
  | setPriority pid priority => exact safe_locally_unidentified _
  | getAffinityMask pid => exact safe_locally_unidentified _
  | setAffinityMask pid mask => exact safe_locally_unidentified _
  | setEfficiencyMode pid on => exact safe_locally_unidentified _
  -- without an expected start there is no identity, and nothing is sent
  | killProcess pid expected tree =>
    cases expected with
    | none => exact safe_locally_unidentified _
    | some start => exact safe_unitOrLocal _ (safe_locally_unavailable _ _)
  | suspendProcessChecked pid expected suspend =>
    cases expected with
    | none => exact safe_locally_unidentified _
    | some start => exact safe_unitOrLocal _ (safe_locally_unavailable _ _)
  | setAffinityMaskChecked pid expected mask =>
    cases expected with
    | none => exact safe_locally_unidentified _
    | some start => exact safe_unitOrLocal _ (safe_locally_unavailable _ _)
  | getAffinityMaskChecked pid expected =>
    cases expected with
    | none => exact safe_locally_unidentified _
    | some start => exact safe_valueOrLocal _ _ (safe_locally_unavailable _ _)
  | setPriorityChecked pid expected priority =>
    cases expected with
    | none => exact safe_locally_unidentified _
    | some start => exact safe_notingAttrs _ (safe_unitOrLocal _ (safe_locally_unavailable _ _))
  | setEfficiencyModeChecked pid expected on =>
    cases expected with
    | none => exact safe_locally_unidentified _
    | some start => exact safe_notingAttrs _ (safe_unitOrLocal _ (safe_locally_unavailable _ _))
  | setUacVirtualizationChecked pid expected enabled =>
    cases expected with
    | none => exact safe_locally_unidentified _
    | some start => exact safe_notingAttrs _ (safe_unitOrLocal _ (safe_locally_unavailable _ _))
  -- a start that is not positive identifies nothing either
  | processModuleCodeSamples pid expected =>
    show (BrokeredActions.processModuleCodeSamples pid expected).Safe
      (Guard Unavailable (positiveStart expected).isSome) Relayed []
    unfold BrokeredActions.processModuleCodeSamples
    cases positiveStart expected with
    | none => exact unrejected_nil.relayed _
    | some start =>
      refine safe_send _ fun answer => ?_
      match answer with
      | .ok value => cases value <;> exact relayed_ok _ _ _
      | .error (.unavailable detail) => exact safe_locally_unavailable _ _ detail
      | .error (.rejected detail) => exact relayed_rejection _ _
  | unloadProcessModule pid expected baseAddress path =>
    show (BrokeredActions.unloadProcessModule pid expected baseAddress path).Safe
      (Guard Unavailable (positiveStart expected).isSome) Relayed []
    unfold BrokeredActions.unloadProcessModule
    cases positiveStart expected with
    | none => exact unrejected_nil.relayed _
    | some start => exact safe_valueOrLocal _ _ (safe_locally_unavailable _ _)
  | setTaskManagerReplacement enabled => exact safe_unitOrLocal _ (safe_locally_unavailable _ _)
  | repairTaskManagerReplacement =>
    refine safe_send _ fun answer => ?_
    match answer with
    | .ok value => cases value <;> exact relayed_ok _ _ _
    | .error (.unavailable detail) => exact safe_locally_unavailable _ _ detail
    | .error (.rejected detail) => exact relayed_rejection _ _
  | _ => cases h

/-- An operation that gets no value from the broker. -/
def NoValue : Falls P
  | .error _ => True
  | _ => False

/-- An operation that gets no state from the broker. -/
def NoState : Falls P
  | .ok (.taskManagerReplacementState _) => False
  | _ => True

/-- The result is left open. -/
abbrev Any {α : Type} (_ : List (ActionEvent P)) (_ : Except TmError α) : Prop := True

theorem safe_inspectOrLocal (request : BrokerRequest) (what : String) (call : LocalCall)
    (decode : BrokerValue P → Option (call.Value P)) :
    (inspectOrLocal request what call decode).Safe (Guard NoValue true) Any [] := by
  refine safe_send request fun answer => ?_
  match answer with
  | .ok value =>
    dsimp only
    cases decode value <;> trivial
  | .error (.unavailable detail) =>
    show (locally call).Safe _ _ _
    rw [locally, Program.safe_bind, Program.safe_perform]
    refine ⟨.inr ⟨request, _, rfl, trivial⟩, fun x => ?_⟩
    cases x <;> trivial
  | .error (.rejected detail) =>
    dsimp only
    rw [Program.safe_bind, Program.safe_perform]
    refine ⟨.inr ⟨request, _, rfl, trivial⟩, fun x => ?_⟩
    cases x <;> trivial

theorem safe_processSecurityInfoChecked (pid : ℕ) (expected : Option ℤ) :
    (processSecurityInfoChecked pid expected).Safe
      (Guard NoValue (positiveStart expected).isSome) (Any (P := P)) [] := by
  unfold processSecurityInfoChecked
  cases positiveStart expected with
  | none => exact (safe_locally_unidentified _).mono fun _ _ _ => trivial
  | some start => exact safe_inspectOrLocal _ _ (.processSecurityInfoChecked pid (some start)) _

theorem safe_listProcessModules (pid : ℕ) (expected : Option ℤ) :
    (listProcessModules pid expected).Safe
      (Guard NoValue (positiveStart expected).isSome) (Any (P := P)) [] := by
  unfold listProcessModules
  cases positiveStart expected with
  | none => exact (safe_locally_unidentified _).mono fun _ _ _ => trivial
  | some start => exact safe_inspectOrLocal _ _ (.listProcessModules pid (some start)) _

theorem safe_taskManagerReplacementState :
    taskManagerReplacementState.Safe (Guard NoState true) (Any (P := P)) [] := by
  refine safe_send _ fun answer => ?_
  match answer with
  | .ok value =>
    cases value with
    | taskManagerReplacementState state => trivial
    | _ => exact ⟨.inr ⟨_, _, rfl, trivial⟩, fun _ => trivial⟩
  | .error error => exact ⟨.inr ⟨_, _, rfl, trivial⟩, fun _ => trivial⟩

/-! ### What the calls of a run say -/

section Runs

variable {falls : Falls P} {identified : Bool} {calls : List (ActionEvent P)} {α : Type}

/-- Every call met the guard when it was made. -/
def Guarded (falls : Falls P) (identified : Bool) (calls : List (ActionEvent P)) : Prop :=
  ∀ before event after, calls = before ++ event :: after →
    Guard falls identified before event.1

theorem Guarded.unsent (h : Guarded falls false calls) : ∀ e ∈ calls, e.1.IsBroker = false := by
  intro e he
  obtain ⟨before, after, rfl⟩ := List.append_of_mem he
  have hguard := h before e after rfl
  cases hcall : e.1 with
  | broker request =>
    rw [hcall] at hguard
    cases hguard.1
  | _ => rfl

theorem Guarded.asked (h : Guarded falls identified calls) {request : BrokerRequest}
    {answer : Except BrokerCallError (BrokerValue P)} (hm : ⟨.broker request, answer⟩ ∈ calls) :
    identified = true ∧ ∃ after, calls = ⟨.broker request, answer⟩ :: after := by
  obtain ⟨before, after, rfl⟩ := List.append_of_mem hm
  obtain ⟨hidentified, rfl⟩ := h before _ after rfl
  exact ⟨hidentified, after, rfl⟩

/-- A local call comes after an answer that the operation falls back on. -/
theorem Guarded.fellBack (h : Guarded falls identified calls) {e : ActionEvent P} (he : e ∈ calls)
    (hlocal : e.1.IsLocal) :
    identified = false ∨ ∃ request answer, ⟨.broker request, answer⟩ ∈ calls ∧ falls answer := by
  obtain ⟨before, after, rfl⟩ := List.append_of_mem he
  have hguard := h before e after rfl
  have hcases : identified = false ∨
      ∃ request answer, before = [⟨.broker request, answer⟩] ∧ falls answer := by
    cases hcall : e.1 with
    | onLocal call =>
      rw [hcall] at hguard
      exact hguard
    | localReplacementState =>
      rw [hcall] at hguard
      exact hguard
    | broker request =>
      rw [hcall] at hlocal
      cases hlocal
    | noteAttrsChanged pid =>
      rw [hcall] at hlocal
      cases hlocal
  rcases hcases with hfalse | ⟨request, answer, rfl, hfalls⟩
  · exact .inl hfalse
  · exact .inr ⟨request, answer, List.mem_append_left _ (List.mem_singleton_self _), hfalls⟩

/-- After an answer that it does not fall back on, an operation calls nothing locally. -/
theorem Guarded.not_local (h : Guarded falls identified calls) {request : BrokerRequest}
    {answer : Except BrokerCallError (BrokerValue P)} (hm : ⟨.broker request, answer⟩ ∈ calls)
    (hfalls : ¬ falls answer) : ∀ e ∈ calls, e.1.IsLocal = false := by
  intro e he
  by_contra hlocal
  obtain ⟨hidentified, after, hcalls⟩ := h.asked hm
  rcases h.fellBack he (Bool.not_eq_false _ ▸ hlocal) with hfalse | ⟨_, _, hm', hfalls'⟩
  · rw [hidentified] at hfalse
    cases hfalse
  · obtain ⟨-, after', hcalls'⟩ := h.asked hm'
    rw [hcalls] at hcalls'
    cases (List.cons.inj hcalls').1
    exact hfalls hfalls'

end Runs

/-- A rejection is what the caller gets, and no local implementation is called; one is called only
where nothing identifies the target or the broker is unavailable. -/
structure NeverFallsBack {α : Type} (identified : Bool) (calls : List (ActionEvent P))
    (result : Except TmError α) : Prop where
  rejected : ∀ request detail, ⟨.broker request, .error (.rejected detail)⟩ ∈ calls →
    (∀ e ∈ calls, e.1.IsLocal = false) ∧ result = .error (rejection detail)
  unavailable : ∀ e ∈ calls, e.1.IsLocal → identified = false ∨
    ∃ request detail, ⟨.broker request, .error (.unavailable detail)⟩ ∈ calls

theorem neverFallsBack {α : Type} {identified : Bool} {calls : List (ActionEvent P)}
    {result : Except TmError α} (h : Guarded Unavailable identified calls)
    (hresult : Relayed calls result) : NeverFallsBack identified calls result where
  rejected request detail hm := ⟨h.not_local hm id, hresult request detail hm⟩
  unavailable e he hlocal := by
    rcases h.fellBack he hlocal with hfalse | ⟨request, answer, hm, hfalls⟩
    · exact .inl hfalse
    · match answer with
      | .error (.unavailable detail) => exact .inr ⟨request, detail, hm⟩
      | .error (.rejected detail) => exact hfalls.elim
      | .ok value => exact hfalls.elim

/-! ### The list of threads -/

/-- The list of threads is read locally first, and stays as it is when the broker refuses. -/
def ReadFirst (pid : ℕ) (expected : Option ℤ) (calls : List (ActionEvent P))
    (result : Except TmError ProcessThreads) : Prop :=
  ∃ answer after, calls = ⟨.onLocal (.listProcessThreads pid expected), answer⟩ :: after ∧
    ∀ request detail, ⟨.broker request, .error (.rejected detail)⟩ ∈ calls → result = answer

theorem safe_listProcessThreads (pid : ℕ) (expected : Option ℤ) :
    (listProcessThreads pid expected).Safe
      (fun _ call => call.IsBroker → (positiveStart expected).isSome)
      (ReadFirst (P := P) pid expected) [] := by
  rw [listProcessThreads, locally, Program.safe_bind, Program.safe_bind, Program.safe_perform]
  refine ⟨(nomatch ·), fun answer => ?_⟩
  rw [Program.Continue, Program.safe_ofExcept]
  have hlocal : ∀ result : Except TmError ProcessThreads, ReadFirst (P := P) pid expected
      [⟨.onLocal (.listProcessThreads pid expected), answer⟩] result := by
    refine fun result => ⟨answer, [], rfl, fun request detail hm => ?_⟩
    cases List.mem_singleton.mp hm
  cases answer with
  | error e => exact hlocal _
  | ok threads =>
    rw [Program.Continue]
    dsimp only
    split_ifs with hmissing
    · exact hlocal _
    · cases hs : positiveStart expected with
      | none => exact hlocal _
      | some start =>
        dsimp only
        rw [Program.safe_bind]
        refine ⟨fun _ => rfl, fun reply => ?_⟩
        have hread : ∀ result : Except TmError ProcessThreads,
            ((∃ detail, reply = .error (.rejected detail)) → result = .ok threads) →
            ReadFirst (P := P) pid expected
              [⟨.onLocal (.listProcessThreads pid expected), .ok threads⟩,
                ⟨.broker (.processThreadDetails pid (some start)), reply⟩] result := by
          refine fun result hresult => ⟨.ok threads, _, rfl, fun request detail hm => ?_⟩
          rcases List.mem_cons.mp hm with hm | hm
          · cases hm
          · cases List.mem_singleton.mp hm
            exact hresult ⟨detail, rfl⟩
        cases reply with
        | ok value =>
          have hnone : ¬ ∃ detail, Except.ok value = .error (BrokerCallError.rejected detail) := by
            rintro ⟨_, h⟩
            cases h
          cases value <;> exact hread _ fun h => absurd h hnone
        | error refusal =>
          cases refusal with
          | unavailable detail => exact hread _ fun _ => rfl
          | rejected detail => exact hread _ fun _ => rfl

/-! ### All operations -/

variable {σ : Type*} (handler : σ → (call : ActionCall) → call.Answer P × σ) (s : σ)

/-- **Nothing is sent for a target that nothing identifies**, whatever the broker and the local
implementations answer. -/
theorem unsent (op : Operation) (h : op.HasIdentity = false) :
    ∀ e ∈ (op.run.run handler s).1, e.1.IsBroker = false := by
  by_cases hstrict : op.Strict
  · have hguarded := (Program.run_of_safe (safe_run hstrict) handler s).2
    rw [h] at hguarded
    exact Guarded.unsent hguarded
  · cases op with
    | processSecurityInfoChecked pid expected =>
      have hguarded :=
        (Program.run_of_safe (safe_processSecurityInfoChecked pid expected) handler s).2
      rw [show (positiveStart expected).isSome = false from h] at hguarded
      exact Guarded.unsent hguarded
    | listProcessModules pid expected =>
      have hguarded := (Program.run_of_safe (safe_listProcessModules pid expected) handler s).2
      rw [show (positiveStart expected).isSome = false from h] at hguarded
      exact Guarded.unsent hguarded
    | taskManagerReplacementState => cases h
    | listProcessThreads pid expected =>
      intro e he
      obtain ⟨before, after, hsplit⟩ := List.append_of_mem he
      have hguard := (Program.run_of_safe (safe_listProcessThreads pid expected) handler s).2
        before e after hsplit
      by_contra hbroker
      have hidentified := hguard (Bool.not_eq_false _ ▸ hbroker)
      rw [show (positiveStart expected).isSome = false from h] at hidentified
      cases hidentified
    | _ => exact absurd rfl hstrict

/-- **A rejection never falls back**, in each operation but the two inspections, the replacement
state and the list of threads. -/
theorem no_fallback :
    (∀ op : Operation, op.HasIdentity = false →
      ∀ e ∈ (op.run.run handler s).1, e.1.IsBroker = false) ∧
    (∀ op : Operation, op.Strict →
      NeverFallsBack op.HasIdentity (op.run.run handler s).1 (op.run.run handler s).2.1) ∧
    (∀ pid expected request value,
      ⟨.broker request, .ok value⟩ ∈
        ((processSecurityInfoChecked pid expected).run handler s).1 →
      ∀ e ∈ ((processSecurityInfoChecked pid expected).run handler s).1, e.1.IsLocal = false) ∧
    (∀ pid expected request value,
      ⟨.broker request, .ok value⟩ ∈ ((listProcessModules pid expected).run handler s).1 →
      ∀ e ∈ ((listProcessModules pid expected).run handler s).1, e.1.IsLocal = false) ∧
    (∀ request state,
      ⟨.broker request, .ok (.taskManagerReplacementState state)⟩ ∈
        (taskManagerReplacementState.run handler s).1 →
      ∀ e ∈ (taskManagerReplacementState.run handler s).1, e.1.IsLocal = false) ∧
    ∀ pid expected, ReadFirst pid expected ((listProcessThreads pid expected).run handler s).1
      ((listProcessThreads pid expected).run handler s).2.1 := by
  refine ⟨unsent handler s, fun op hstrict => ?_, fun pid expected request value hm => ?_,
    fun pid expected request value hm => ?_, fun request state hm => ?_, fun pid expected => ?_⟩
  · obtain ⟨hresult, hguarded⟩ := Program.run_of_safe (safe_run hstrict) handler s
    exact neverFallsBack hguarded hresult
  · have hguarded :=
      (Program.run_of_safe (safe_processSecurityInfoChecked pid expected) handler s).2
    exact Guarded.not_local hguarded hm id
  · have hguarded := (Program.run_of_safe (safe_listProcessModules pid expected) handler s).2
    exact Guarded.not_local hguarded hm id
  · have hguarded := (Program.run_of_safe safe_taskManagerReplacementState handler s).2
    exact Guarded.not_local hguarded hm id
  · exact (Program.run_of_safe (safe_listProcessThreads pid expected) handler s).1

/-- A local list with one thread that could not be opened. -/
def partialThreads : ProcessThreads where
  processBasePriority := 8
  threads := [{
    tid := 7
    startAddress := none
    priority := 8
    basePriority := 8
    contextSwitches := 1
    kernelTime100ns := 0
    userTime100ns := 0
    createdEpochS := some 5
    state := .waiting
    waitReason := 0
    cycles := none }]

/-- A broker that refuses everything, next to local implementations that succeed. -/
def refusing (_ : Unit) : (call : ActionCall) → call.Answer ⟨Unit, Unit, Unit, Unit⟩ × Unit
  | .broker _ => (.error (.rejected "no".toList), ())
  | .localReplacementState => (.disabled, ())
  | .noteAttrsChanged _ => ((), ())
  | .onLocal call =>
    (match call with
      | .getAffinityMaskChecked _ _ => .ok 1
      | .processSecurityInfoChecked _ _ => .ok ()
      | .listProcessModules _ _ => .ok []
      | .processModuleCodeSamples _ _ => .ok none
      | .listProcessThreads _ _ => .ok partialThreads
      | .unloadProcessModule _ _ _ _ => .ok ⟨none⟩
      | .repairTaskManagerReplacement => .ok true
      | .controlService _ _ => .ok ()
      | .controlUserSession _ _ => .ok ()
      | .killProcess _ _ _ => .ok ()
      | .suspendProcessChecked _ _ _ => .ok ()
      | .setPriorityChecked _ _ _ => .ok ()
      | .setAffinityMaskChecked _ _ _ => .ok ()
      | .setEfficiencyModeChecked _ _ _ => .ok ()
      | .setUacVirtualizationChecked _ _ _ => .ok ()
      | .setTaskManagerReplacement _ => .ok (), ())

/-- The threads of a process that the broker refuses to read: the local list was read before it was
asked, and is what the caller gets. -/
theorem listProcessThreads_refused :
    (listProcessThreads 100 (some 5)).run refusing () =
      ([⟨.onLocal (.listProcessThreads 100 (some 5)), .ok partialThreads⟩,
        ⟨.broker (.processThreadDetails 100 (some 5)), .error (.rejected "no".toList)⟩],
        .ok partialThreads, ()) :=
  rfl

end BrokeredActions

end Taskman
