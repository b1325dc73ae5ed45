import Taskman.Core.Model
import Taskman.LTS.Program

/-!
# The broker's request gate

`dispatch` serves one request of a client: it checks the request and calls the backend.  The
backend is an environment that answers calls; the calls that only read are queries, the others are
actions.

* `checkedTarget` : the check of a process that an action is about to change;
* `dispatch` : one arm for each request;
* `Action.Allowed` : when an action may be called, given the calls before it;
* `dispatch_gate` : **no action is called that is not allowed, and a rejected request has called
  none but the one whose own error it reports**;
* `dispatch_failed_action` : a rejection after an action was called.
-/

namespace Taskman

namespace Broker

/-! ### Requests and answers -/

/-- What can be done to a service. -/
inductive ServiceAction where
  | start
  | stop
  | restart
  deriving DecidableEq

/-- What can be done to a session. -/
inductive UserSessionAction where
  | disconnect
  | logoff
  deriving DecidableEq

/-- The priority classes of a process. -/
inductive PriorityClass where
  | realtime
  | high
  | aboveNormal
  | normal
  | belowNormal
  | low
  | unknown
  deriving DecidableEq

/-- Who stands in for the task manager. -/
inductive TaskManagerReplacementState where
  | unsupported
  | disabled
  | enabled
  | stale (value : Text)
  | conflict (value : Text)
  deriving DecidableEq

/-- What a client can ask for. -/
inductive BrokerRequest where
  | ping
  | killProcess (pid : ℕ) (expectedStartEpochS : Option ℤ) (tree : Bool)
  | suspendProcess (pid : ℕ) (expectedStartEpochS : Option ℤ) (suspend : Bool)
  | setPriority (pid : ℕ) (expectedStartEpochS : Option ℤ) (priority : PriorityClass)
  | getAffinity (pid : ℕ) (expectedStartEpochS : Option ℤ)
  | setAffinity (pid : ℕ) (expectedStartEpochS : Option ℤ) (mask : UInt64)
  | setEfficiencyMode (pid : ℕ) (expectedStartEpochS : Option ℤ) (enabled : Bool)
  | setUacVirtualization (pid : ℕ) (expectedStartEpochS : Option ℤ) (enabled : Bool)
  | processSecurityInfo (pid : ℕ) (expectedStartEpochS : Option ℤ)
  | processIdentity (pid : ℕ) (expectedStartEpochS : Option ℤ)
  | processModules (pid : ℕ) (expectedStartEpochS : Option ℤ)
  | processModuleCodeSamples (pid : ℕ) (expectedStartEpochS : Option ℤ)
  | processThreadDetails (pid : ℕ) (expectedStartEpochS : Option ℤ)
  | unloadModule (pid : ℕ) (expectedStartEpochS : Option ℤ) (baseAddress : UInt64)
      (expectedPath : Text)
  | controlService (name : Text) (action : ServiceAction)
  | controlUserSession (sessionId : ℕ) (action : UserSessionAction)
  | taskManagerReplacementState
  | setTaskManagerReplacement (enabled : Bool)
  | processNetworkCounters
  | processDiskCounters
  deriving DecidableEq

/-- A module of a process. -/
structure ProcessModule where
  name : Text
  path : Text
  baseAddress : UInt64
  sizeBytes : UInt64
  deriving DecidableEq

/-- The samples that fell into a module. -/
structure ProcessModuleCodeSamples where
  baseAddress : UInt64
  samples : ℕ
  deriving DecidableEq

/-- The samples of a process over a window, module by module. -/
structure ProcessModuleCodeWindow where
  windowMs : ℕ
  eventsSeen : ℕ
  eventsDecoded : ℕ
  eventsLost : Option ℕ
  targetSamples : ℕ
  attributedSamples : ℕ
  trackedThreads : ℕ
  modules : List ProcessModuleCodeSamples
  deriving DecidableEq

/-- One thread of the kernel's list, with the fields the broker passes on. -/
structure ProcessThreadDetail where
  tid : ℕ
  createdEpochS : Option ℤ
  startAddress : Option UInt64
  cycles : Option ℕ
  deriving DecidableEq

/-- Whether a module is still mapped after its release, where this is known. -/
structure ModuleUnloadOutcome where
  stillMapped : Option Bool
  deriving DecidableEq

/-- The answers the broker hands on as they are. -/
structure Payloads where
  network : Type
  disk : Type
  security : Type
  identity : Type

/-- What a request is answered with. -/
inductive BrokerValue (P : Payloads) where
  | pong (version : Text)
  | unit
  | affinityMask (mask : UInt64)
  | taskManagerReplacementState (state : TaskManagerReplacementState)
  | processNetwork (sample : P.network)
  | processDisk (sample : P.disk)
  | processSecurity (info : P.security)
  | processIdentity (identity : P.identity)
  | processModules (modules : List ProcessModule)
  | processModuleCodeSamples (window : Option ProcessModuleCodeWindow)
  | processThreadDetails (details : List ProcessThreadDetail)
  | moduleUnload (stillMapped verified : Bool) (released : ℕ)

/-! ### The backend -/

/-- The calls that only read. -/
inductive Query where
  | openProcess (pid : ℕ)
  | isProcessCritical (pid : ℕ)
  | processNetworkSample
  | processDiskSample
  | processSecurityInfo (pid : ℕ) (start : Option ℤ)
  | processIdentityChecked (pid : ℕ) (start : Option ℤ)
  | listProcessModulesWithFallback (pid : ℕ) (start : Option ℤ)
  | sampleProcessModuleCode (pid : ℕ) (start : ℤ) (modules : List ProcessModule)
  | listProcessThreads (pid : ℕ) (start : Option ℤ)
  | getAffinityMaskChecked (pid : ℕ) (start : Option ℤ)
  | systemAffinityMask
  | expectedInstalledGuiPath
  | taskManagerReplacementStateFor (gui : Text)

/-- The calls that change something. -/
inductive Action where
  | killProcessExcluding (pid : ℕ) (start : Option ℤ) (tree : Bool) (protectedPid : Option ℕ)
  | suspendProcessChecked (pid : ℕ) (start : Option ℤ) (suspend : Bool)
  | setPriorityChecked (pid : ℕ) (start : Option ℤ) (priority : PriorityClass)
  | setAffinityMaskChecked (pid : ℕ) (start : Option ℤ) (mask : UInt64)
  | setEfficiencyModeChecked (pid : ℕ) (start : Option ℤ) (enabled : Bool)
  | setUacVirtualizationChecked (pid : ℕ) (start : Option ℤ) (enabled : Bool)
  | unloadProcessModule (pid : ℕ) (start : Option ℤ) (baseAddress : UInt64) (path : Text)
  | controlService (name : Text) (action : ServiceAction)
  | controlUserSession (sessionId : ℕ) (action : UserSessionAction)
  | setTaskManagerReplacementDirectFor (enabled : Bool) (gui : Text)

/-- What a dispatch calls: it asks something, or does something. -/
inductive BrokerCall where
  | query (q : Query)
  | act (a : Action)

/-- What each question is answered with. -/
@[reducible] def Query.Answer (P : Payloads) : Query → Type
  | openProcess _ => Except TmError Unit
  | isProcessCritical _ => Except Text Bool
  | processNetworkSample => P.network
  | processDiskSample => P.disk
  | processSecurityInfo _ _ => Except TmError P.security
  | processIdentityChecked _ _ => Except TmError P.identity
  | listProcessModulesWithFallback _ _ => Except TmError (List ProcessModule)
  | sampleProcessModuleCode _ _ _ => Except TmError (Option ProcessModuleCodeWindow)
  | listProcessThreads _ _ => Except TmError (List ProcessThreadDetail)
  | getAffinityMaskChecked _ _ => Except TmError UInt64
  | systemAffinityMask => Except TmError UInt64
  | expectedInstalledGuiPath => Except TmError Text
  | taskManagerReplacementStateFor _ => TaskManagerReplacementState

/-- What a successful action answers. -/
@[reducible] def Action.Value : Action → Type
  | unloadProcessModule _ _ _ _ => ModuleUnloadOutcome
  | _ => Unit

/-- What each call answers. -/
@[reducible] def BrokerCall.Answer (P : Payloads) : BrokerCall → Type
  | query q => q.Answer P
  | act a => Except TmError a.Value

/-- A program of the broker. -/
abbrev BrokerM (P : Payloads) (α : Type) := Program TmError BrokerCall (BrokerCall.Answer P) α

/-- A call with its answer. -/
abbrev BrokerEvent (P : Payloads) := Program.Event BrokerCall (BrokerCall.Answer P)

/-- What `dispatch` takes from its process and from the JSON library: the length of an encoding, or
the text of the error. -/
structure DispatchEnv where
  version : Text
  processId : ℕ
  modulesJson : List ProcessModule → Except Text ℕ
  threadsJson : List ProcessThreadDetail → Except Text ℕ

/-! ### The code -/

/-- The name of the service itself, which it does not control for a client. -/
def serviceName : Text := "TaskmanCore".toList

/-- The longest response. -/
def maxResponseBytes : ℕ := 512 * 1024

/-- The most modules of a response. -/
def maxModulesPerResponse : ℕ := 1024

/-- The most threads of a response. -/
def maxThreadDetailsPerResponse : ℕ := 4096

/-- `TmError::platform` -/
def platformError (context detail : String) : TmError :=
  .platform context.toList detail.toList

/-- `str::len`, in bytes. -/
def utf8Len (t : Text) : ℕ := (t.map Char.utf8Size).sum

/-- `valid_service_name`; the bytes of a character outside ASCII are not allowed ones. -/
def validServiceName (name : Text) : Bool :=
  !name.isEmpty && decide (utf8Len name ≤ 256) &&
    name.all fun c => c.isAlphanum || c == '_' || c == '-' || c == '.' || c == ' '

/-- `eq_ignore_ascii_case` -/
def eqIgnoreAsciiCase (a b : Text) : Bool := Text.toAsciiLowercase a == Text.toAsciiLowercase b

variable {P : Payloads}

/-- A query whose error is returned. -/
def ask (q : Query) {α : Type} (h : q.Answer P = Except TmError α) : BrokerM P α := do
  let answer ← Program.perform (.query q)
  Program.ofExcept (cast h answer)

/-- An action; its error is returned. -/
def act (a : Action) : BrokerM P a.Value := do
  let answer ← Program.perform (.act a)
  Program.ofExcept answer

/-- `expected_start_epoch_s.filter(|value| *value > 0)`, which a request must have. -/
def sampledStart (context : String) (expected : Option ℤ) : BrokerM P ℤ :=
  match expected.filter (0 < ·) with
  | some start => pure start
  | none => .fail (platformError context "a valid sampled process creation time is required")

/-- `refuse_critical_process` -/
def refuseCriticalProcess (pid : ℕ) : BrokerM P Unit := do
  ask (.openProcess pid) rfl
  if pid ≤ 4 then .fail (platformError "process safety" "system process is protected") else
  let answer ← Program.perform (.query (.isProcessCritical pid))
  match (answer : Except Text Bool) with
  | .error error => .fail (.platform "IsProcessCritical".toList error)
  | .ok true =>
    .fail (platformError "process safety" "critical Windows process is protected")
  | .ok false => pure ()

/-- `checked_target` -/
def checkedTarget (env : DispatchEnv) (pid : ℕ) (expected : Option ℤ) (requestingGuiPid : ℕ) :
    BrokerM P Unit := do
  let _ ← sampledStart "broker target" expected
  if pid ≤ 4 ∨ pid = env.processId ∨ pid = requestingGuiPid then
    .fail (platformError "broker target"
      "system, broker, and requesting GUI processes are protected")
  else refuseCriticalProcess pid

/-- The two bounds of an answer that lists `what`: its entries and its encoding. -/
def bounded (context what : String) (limit : ℕ) {α : Type} (json : List α → Except Text ℕ)
    (entries : List α) : BrokerM P Unit := do
  if entries.length > limit then
    .fail (platformError context (what ++ " exceeds the bounded broker entry limit"))
  else
    match json entries with
    | .error error => .fail (.platform context.toList error)
    | .ok encodedLen =>
      if encodedLen > maxResponseBytes - 1024 then
        .fail (platformError context (what ++ " exceeds the bounded broker response limit"))
      else pure ()

/-- `dispatch` -/
def dispatch (env : DispatchEnv) (request : BrokerRequest) (requestingGuiPid : ℕ) :
    BrokerM P (BrokerValue P) :=
  match request with
  | .ping => pure (.pong env.version)
  | .processNetworkCounters => do
    let sample ← Program.perform (.query .processNetworkSample)
    pure (.processNetwork sample)
  | .processDiskCounters => do
    let sample ← Program.perform (.query .processDiskSample)
    pure (.processDisk sample)
  | .processSecurityInfo pid expected => do
    let start ← sampledStart "broker process security" expected
    let info ← ask (.processSecurityInfo pid (some start)) rfl
    pure (.processSecurity info)
  | .processIdentity pid expected => do
    let start ← sampledStart "broker process identity" expected
    let identity ← ask (.processIdentityChecked pid (some start)) rfl
    pure (.processIdentity identity)
  | .processModules pid expected => do
    let start ← sampledStart "broker process modules" expected
    let modules ← ask (.listProcessModulesWithFallback pid (some start)) rfl
    bounded "broker process modules" "module inventory" maxModulesPerResponse env.modulesJson
      modules
    pure (.processModules modules)
  | .processModuleCodeSamples pid expected => do
    let start ← sampledStart "broker module code samples" expected
    let modules ← ask (.listProcessModulesWithFallback pid (some start)) rfl
    if modules.length > maxModulesPerResponse then
      .fail (platformError "broker module code samples"
        "module inventory exceeds the bounded broker entry limit")
    else
      let window ← ask (.sampleProcessModuleCode pid start modules) rfl
      if window.any fun window => decide (window.modules.length > maxModulesPerResponse) then
        .fail (platformError "broker module code samples"
          "module sample entries exceed the bounded broker entry limit")
      else pure (.processModuleCodeSamples window)
  | .processThreadDetails pid expected => do
    let start ← sampledStart "broker thread details" expected
    let threads ← ask (.listProcessThreads pid (some start)) rfl
    let details := threads.filter fun thread =>
      thread.startAddress.isSome || thread.cycles.isSome
    bounded "broker thread details" "thread evidence" maxThreadDetailsPerResponse env.threadsJson
      details
    pure (.processThreadDetails details)
  | .killProcess pid expected tree => do
    checkedTarget env pid expected requestingGuiPid
    let _ ← act (.killProcessExcluding pid expected tree (some requestingGuiPid))
    pure .unit
  | .suspendProcess pid expected suspend => do
    checkedTarget env pid expected requestingGuiPid
    let _ ← act (.suspendProcessChecked pid expected suspend)
    pure .unit
  | .setPriority pid expected priority => do
    checkedTarget env pid expected requestingGuiPid
    let _ ← act (.setPriorityChecked pid expected priority)
    pure .unit
  | .getAffinity pid expected => do
    checkedTarget env pid expected requestingGuiPid
    let mask ← ask (.getAffinityMaskChecked pid expected) rfl
    pure (.affinityMask mask)
  | .setAffinity pid expected mask => do
    checkedTarget env pid expected requestingGuiPid
    if mask = 0 then .fail (platformError "broker affinity" "mask cannot be zero") else
    let systemMask ← ask .systemAffinityMask rfl
    if mask &&& ~~~systemMask ≠ 0 then
      .fail (platformError "broker affinity"
        "mask contains processors outside the active system group")
    else
      let _ ← act (.setAffinityMaskChecked pid expected mask)
      pure .unit
  | .setEfficiencyMode pid expected enabled => do
    checkedTarget env pid expected requestingGuiPid
    let _ ← act (.setEfficiencyModeChecked pid expected enabled)
    pure .unit
  | .setUacVirtualization pid expected enabled => do
    checkedTarget env pid expected requestingGuiPid
    let _ ← act (.setUacVirtualizationChecked pid expected enabled)
    pure .unit
  | .unloadModule pid expected baseAddress expectedPath => do
    checkedTarget env pid expected requestingGuiPid
    if baseAddress = 0 ∨ expectedPath.isEmpty ∨ utf8Len expectedPath > 32768 then
      .fail (platformError "broker module" "invalid module identity")
    else
      let outcome ← act (.unloadProcessModule pid expected baseAddress expectedPath)
      let stillMapped : Option Bool := ModuleUnloadOutcome.stillMapped outcome
      pure (.moduleUnload (stillMapped.getD true) stillMapped.isSome 1)
  | .controlService name action => do
    if !validServiceName name || eqIgnoreAsciiCase name serviceName then
      .fail (platformError "broker service" "invalid service name")
    else
      let _ ← act (.controlService name action)
      pure .unit
  | .controlUserSession sessionId action => do
    if sessionId = 0 then .fail (platformError "broker session" "invalid session id") else
    let _ ← act (.controlUserSession sessionId action)
    pure .unit
  | .taskManagerReplacementState => do
    let gui ← ask .expectedInstalledGuiPath rfl
    let state ← Program.perform (.query (.taskManagerReplacementStateFor gui))
    pure (.taskManagerReplacementState state)
  | .setTaskManagerReplacement enabled => do
    let gui ← ask .expectedInstalledGuiPath rfl
    let _ ← act (.setTaskManagerReplacementDirectFor enabled gui)
    pure .unit

/-! ### When an action may be called -/

/-- The process was checked: it was sampled with a creation time, it is neither a system process
nor the broker nor the requesting client, and the system has said that it is not critical. -/
structure Verified (env : DispatchEnv) (requestingGuiPid : ℕ) (before : List (BrokerEvent P))
    (pid : ℕ) (start : Option ℤ) : Prop where
  sampled : ∃ t, start = some t ∧ 0 < t
  notReserved : 4 < pid
  notBroker : pid ≠ env.processId
  notClient : pid ≠ requestingGuiPid
  notCritical : ⟨.query (.isProcessCritical pid), .ok false⟩ ∈ before

/-- The action may be called after the calls `before`. -/
def Action.Allowed (env : DispatchEnv) (requestingGuiPid : ℕ) (before : List (BrokerEvent P)) :
    Action → Prop
  | killProcessExcluding pid start _ protectedPid =>
    Verified env requestingGuiPid before pid start ∧ protectedPid = some requestingGuiPid
  | suspendProcessChecked pid start _ => Verified env requestingGuiPid before pid start
  | setPriorityChecked pid start _ => Verified env requestingGuiPid before pid start
  | setAffinityMaskChecked pid start _ => Verified env requestingGuiPid before pid start
  | setEfficiencyModeChecked pid start _ => Verified env requestingGuiPid before pid start
  | setUacVirtualizationChecked pid start _ => Verified env requestingGuiPid before pid start
  | unloadProcessModule pid start _ _ => Verified env requestingGuiPid before pid start
  | controlService name _ => eqIgnoreAsciiCase name serviceName = false
  | controlUserSession sessionId _ => sessionId ≠ 0
  | setTaskManagerReplacementDirectFor _ _ => True

/-- The guard of a call: queries are free. -/
def Guard (env : DispatchEnv) (requestingGuiPid : ℕ) (before : List (BrokerEvent P)) :
    BrokerCall → Prop
  | .query _ => True
  | .act a => a.Allowed env requestingGuiPid before

/-- No action has been called. -/
def NoAction (calls : List (BrokerEvent P)) : Prop :=
  ∀ a answer, ⟨.act a, answer⟩ ∉ calls

/-- What a rejection says about the calls made: an action among them failed with this very error. -/
def Answered {α : Type} (calls : List (BrokerEvent P)) (result : Except TmError α) : Prop :=
  ∀ e, result = .error e → ∀ a answer, ⟨.act a, answer⟩ ∈ calls → answer = .error e

theorem noAction_nil : NoAction ([] : List (BrokerEvent P)) :=
  fun _ _ h => absurd h List.not_mem_nil

theorem NoAction.query {calls : List (BrokerEvent P)} (h : NoAction calls) {q : Query}
    (x : BrokerCall.Answer P (.query q)) : NoAction (calls ++ [⟨.query q, x⟩]) := by
  intro a answer hm
  rcases List.mem_append.mp hm with hm | hm
  · exact h a answer hm
  · cases List.mem_singleton.mp hm

theorem NoAction.answered {α : Type} {calls : List (BrokerEvent P)} (h : NoAction calls)
    (result : Except TmError α) : Answered calls result :=
  fun _ _ a answer hm => absurd hm (h a answer)

theorem answered_ok {α : Type} (calls : List (BrokerEvent P)) (value : α) :
    Answered calls (.ok value : Except TmError α) := by
  intro e he
  cases he

/-- The only action called reports its own error. -/
theorem NoAction.answered_error {α : Type} {calls : List (BrokerEvent P)} (h : NoAction calls)
    (a : Action) (e : TmError) :
    Answered (calls ++ [⟨.act a, .error e⟩]) (.error e : Except TmError α) := by
  intro e' he a' answer hm
  cases he
  rcases List.mem_append.mp hm with hm | hm
  · exact absurd hm (h a' answer)
  · cases List.mem_singleton.mp hm
    rfl

theorem Verified.query {env : DispatchEnv} {gui pid : ℕ} {start : Option ℤ}
    {calls : List (BrokerEvent P)} (h : Verified env gui calls pid start) {q : Query}
    (x : BrokerCall.Answer P (.query q)) :
    Verified env gui (calls ++ [⟨.query q, x⟩]) pid start :=
  ⟨h.sampled, h.notReserved, h.notBroker, h.notClient, List.mem_append_left _ h.notCritical⟩

/-! ### The parts of an arm -/

section Parts

variable {env : DispatchEnv} {gui : ℕ} {calls : List (BrokerEvent P)} {α β : Type}

open Program

/-- An action that is allowed ends the arm. -/
theorem safe_act {a : Action} (h : NoAction calls) (ha : a.Allowed env gui calls)
    (f : a.Value → BrokerValue P) :
    (act a >>= fun value => pure (f value)).Safe (Guard env gui) Answered calls := by
  rw [safe_bind, act, safe_bind, safe_perform]
  refine ⟨ha, fun x => ?_⟩
  rw [Continue, safe_ofExcept]
  cases x with
  | ok value => exact answered_ok _ _
  | error e => exact h.answered_error a e

/-- A query leaves no action behind it. -/
theorem safe_ask {q : Query} (hq : q.Answer P = Except TmError α) (h : NoAction calls)
    {f : α → BrokerM P β}
    (hf : ∀ value x, (f value).Safe (Guard env gui) Answered (calls ++ [⟨.query q, x⟩])) :
    (ask q hq >>= f).Safe (Guard env gui) Answered calls := by
  rw [safe_bind, ask, safe_bind, safe_perform]
  refine ⟨trivial, fun x => ?_⟩
  rw [Continue, safe_ofExcept]
  cases cast hq x with
  | ok value => exact hf value x
  | error e => exact (h.query x).answered _

theorem safe_query {q : Query} {f : BrokerCall.Answer P (.query q) → BrokerM P β}
    (hf : ∀ x, (f x).Safe (Guard env gui) Answered (calls ++ [⟨.query q, x⟩])) :
    (perform (.query q) >>= f).Safe (Guard env gui) Answered calls := by
  rw [safe_bind, safe_perform]
  exact ⟨trivial, fun x => hf x⟩

/-- The creation time of a request is positive, or the request is rejected. -/
theorem safe_sampledStart (context : String) (expected : Option ℤ) (h : NoAction calls)
    {f : ℤ → BrokerM P β}
    (hf : ∀ start, expected = some start → 0 < start →
      (f start).Safe (Guard env gui) Answered calls) :
    (sampledStart context expected >>= f).Safe (Guard env gui) Answered calls := by
  rw [safe_bind, sampledStart]
  cases he : expected.filter (0 < ·) with
  | none => exact h.answered _
  | some start =>
    obtain ⟨hsome, hpos⟩ := Option.filter_eq_some_iff.mp he
    exact hf start hsome (of_decide_eq_true hpos)

/-- The bounds of an answer call nothing. -/
theorem safe_bounded (context what : String) (limit : ℕ) (json : List α → Except Text ℕ)
    (entries : List α) (h : NoAction calls) {f : Unit → BrokerM P β}
    (hf : (f ()).Safe (Guard env gui) Answered calls) :
    (bounded context what limit json entries >>= f).Safe (Guard env gui) Answered calls := by
  rw [safe_bind]
  unfold bounded
  split_ifs with hlen
  · exact h.answered _
  · cases json entries with
    | error error => exact h.answered _
    | ok encodedLen =>
      dsimp only
      split_ifs
      · exact h.answered _
      · exact hf

/-- Past the check for critical processes the system has answered that it is not one. -/
theorem safe_refuseCriticalProcess (pid : ℕ) (h : NoAction calls) {f : Unit → BrokerM P β}
    (hf : ∀ calls', NoAction calls' → ⟨.query (.isProcessCritical pid), .ok false⟩ ∈ calls' →
      (f ()).Safe (Guard env gui) Answered calls') :
    (refuseCriticalProcess pid >>= f).Safe (Guard env gui) Answered calls := by
  rw [refuseCriticalProcess, bind_assoc]
  refine safe_ask rfl h fun _ opened => ?_
  have hopened := h.query opened
  split_ifs with hpid
  · exact hopened.answered _
  · rw [bind_assoc]
    refine safe_query fun x => ?_
    have hasked := hopened.query x
    match x with
    | .error error => exact hasked.answered _
    | .ok true => exact hasked.answered _
    | .ok false => exact hf _ hasked (List.mem_append_right _ List.mem_cons_self)

/-- **Past `checked_target` the target is verified.** -/
theorem safe_checkedTarget (pid : ℕ) (expected : Option ℤ) {f : Unit → BrokerM P β}
    (hf : ∀ calls', NoAction calls' → Verified env gui calls' pid expected →
      (f ()).Safe (Guard env gui) Answered calls') :
    (checkedTarget env pid expected gui >>= f).Safe (Guard env gui) Answered [] := by
  rw [checkedTarget, bind_assoc]
  refine safe_sampledStart _ expected noAction_nil fun start hstart hpos => ?_
  split_ifs with hpid
  · exact noAction_nil.answered _
  · simp only [not_or, not_le] at hpid
    refine safe_refuseCriticalProcess pid noAction_nil fun calls' hcalls hcritical => ?_
    exact hf calls' hcalls ⟨⟨start, hstart, hpos⟩, hpid.1, hpid.2.1, hpid.2.2, hcritical⟩

end Parts

/-- **Every arm keeps the gate.** -/
theorem safe_dispatch (env : DispatchEnv) (request : BrokerRequest) (gui : ℕ) :
    (dispatch env request gui : BrokerM P _).Safe (Guard env gui) Answered [] := by
  cases request with
  | ping => exact answered_ok _ _
  | processNetworkCounters => exact safe_query fun x => answered_ok _ _
  | processDiskCounters => exact safe_query fun x => answered_ok _ _
  -- reads sample the start of the target; none of them acts
  | processSecurityInfo pid expected =>
    refine safe_sampledStart _ expected noAction_nil fun start _ _ => ?_
    exact safe_ask rfl noAction_nil fun info x => answered_ok _ _
  | processIdentity pid expected =>
    refine safe_sampledStart _ expected noAction_nil fun start _ _ => ?_
    exact safe_ask rfl noAction_nil fun identity x => answered_ok _ _
  | processModules pid expected =>
    refine safe_sampledStart _ expected noAction_nil fun start _ _ => ?_
    refine safe_ask rfl noAction_nil fun modules x => ?_
    exact safe_bounded _ _ _ _ _ (noAction_nil.query x) (answered_ok _ _)
  | processModuleCodeSamples pid expected =>
    refine safe_sampledStart _ expected noAction_nil fun start _ _ => ?_
    refine safe_ask rfl noAction_nil fun modules x => ?_
    have hlisted := noAction_nil.query x
    split_ifs
    · exact hlisted.answered _
    · refine safe_ask rfl hlisted fun window y => ?_
      split_ifs
      · exact (hlisted.query y).answered _
      · exact answered_ok _ _
  | processThreadDetails pid expected =>
    refine safe_sampledStart _ expected noAction_nil fun start _ _ => ?_
    refine safe_ask rfl noAction_nil fun threads x => ?_
    exact safe_bounded _ _ _ _ _ (noAction_nil.query x) (answered_ok _ _)
  -- these act on their target, after its identity was checked
  | killProcess pid expected tree =>
    refine safe_checkedTarget pid expected fun calls h hv => safe_act h ?_ _
    exact ⟨hv, rfl⟩
  | suspendProcess pid expected suspend =>
    refine safe_checkedTarget pid expected fun calls h hv => safe_act h ?_ _
    exact hv
  | setPriority pid expected priority =>
    refine safe_checkedTarget pid expected fun calls h hv => safe_act h ?_ _
    exact hv
  | getAffinity pid expected =>
    refine safe_checkedTarget pid expected fun calls h hv => ?_
    exact safe_ask rfl h fun mask x => answered_ok _ _
  | setAffinity pid expected mask =>
    refine safe_checkedTarget pid expected fun calls h hv => ?_
    split_ifs
    · exact h.answered _
    · refine safe_ask rfl h fun systemMask x => ?_
      split_ifs
      · exact (h.query x).answered _
      · refine safe_act (h.query x) ?_ _
        exact hv.query x
  | setEfficiencyMode pid expected enabled =>
    refine safe_checkedTarget pid expected fun calls h hv => safe_act h ?_ _
    exact hv
  | setUacVirtualization pid expected enabled =>
    refine safe_checkedTarget pid expected fun calls h hv => safe_act h ?_ _
    exact hv
  | unloadModule pid expected baseAddress expectedPath =>
    refine safe_checkedTarget pid expected fun calls h hv => ?_
    split_ifs
    · exact h.answered _
    · refine safe_act h ?_ _
      exact hv
  -- what is aimed at no process is checked by its own rule
  | controlService name action =>
    simp only [dispatch]
    split_ifs with hname
    · exact noAction_nil.answered _
    · simp only [Bool.or_eq_true, not_or, Bool.not_eq_true] at hname
      refine safe_act noAction_nil ?_ _
      exact hname.2
  | controlUserSession sessionId action =>
    simp only [dispatch]
    split_ifs with hid
    · exact noAction_nil.answered _
    · refine safe_act noAction_nil ?_ _
      exact hid
  | taskManagerReplacementState =>
    refine safe_ask rfl noAction_nil fun gui x => ?_
    exact safe_query fun y => answered_ok _ _
  | setTaskManagerReplacement enabled =>
    refine safe_ask rfl noAction_nil fun gui x => ?_
    refine safe_act (noAction_nil.query x) ?_ _
    exact trivial

/-- **The broker's request gate**, for every request, client, broker process and backend: each
action called was allowed when it was called, and a rejected request has called no action except
one whose own error it reports. -/
theorem dispatch_gate {σ : Type*} (env : DispatchEnv) (request : BrokerRequest) (gui : ℕ)
    (backend : σ → (c : BrokerCall) → c.Answer P × σ) (s : σ) :
    (∀ before a answer after,
      ((dispatch env request gui).run backend s).1 = before ++ ⟨.act a, answer⟩ :: after →
        a.Allowed env gui before) ∧
    (∀ e, ((dispatch env request gui).run backend s).2.1 = .error e →
      ∀ a answer, ⟨.act a, answer⟩ ∈ ((dispatch env request gui).run backend s).1 →
        answer = .error e) := by
  obtain ⟨hresult, hcalls⟩ := Program.run_of_safe (safe_dispatch env request gui) backend s
  exact ⟨fun before a answer after heq => hcalls before ⟨.act a, answer⟩ after heq, hresult⟩

/-! ### A rejection after an action -/

/-- The error of a system call that is denied. -/
def denied : TmError := platformError "NtSuspendProcess" "access denied"

/-- A backend whose checks pass and whose actions all fail. -/
def deniedBackend (_ : Unit) : (c : BrokerCall) → c.Answer ⟨Unit, Unit, Unit, Unit⟩ × Unit
  | .query (.openProcess _) => (.ok (), ())
  | .query (.isProcessCritical _) => (.ok false, ())
  | .query .processNetworkSample => ((), ())
  | .query .processDiskSample => ((), ())
  | .query (.processSecurityInfo _ _) => (.ok (), ())
  | .query (.processIdentityChecked _ _) => (.ok (), ())
  | .query (.listProcessModulesWithFallback _ _) => (.ok [], ())
  | .query (.sampleProcessModuleCode _ _ _) => (.ok none, ())
  | .query (.listProcessThreads _ _) => (.ok [], ())
  | .query (.getAffinityMaskChecked _ _) => (.ok 1, ())
  | .query .systemAffinityMask => (.ok 1, ())
  | .query .expectedInstalledGuiPath => (.ok [], ())
  | .query (.taskManagerReplacementStateFor _) => (.disabled, ())
  | .act _ => (.error denied, ())

/-- A broker that knows all processes by the creation time 0. -/
def deniedEnv : DispatchEnv := ⟨"1".toList, 20, fun _ => .ok 0, fun _ => .ok 0⟩

/-- The target is verified and its suspension is called; the system denies it, and the request is
answered with this error. -/
theorem dispatch_failed_action :
    ((dispatch deniedEnv (.suspendProcess 100 (some 5) true) 50).run deniedBackend ()).2.1 =
      .error denied ∧
    ⟨.act (.suspendProcessChecked 100 (some 5) true), .error denied⟩ ∈
      ((dispatch deniedEnv (.suspendProcess 100 (some 5) true) 50).run deniedBackend ()).1 :=
  ⟨rfl, List.mem_cons_of_mem _ (List.mem_cons_of_mem _ List.mem_cons_self)⟩

end Broker

end Taskman
