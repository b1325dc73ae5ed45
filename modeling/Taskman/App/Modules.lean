import Taskman.App.Processes.Page
import Taskman.Core.Settings
import Taskman.LTS.Machine
import Taskman.Platform.Broker.Dispatch

/-!
# The module list of a process

Two workers read the modules of a process: a refresh, at the pace of the page, and an unload, which
reads the list again after every release.  The UI thread starts at most one of the two at a time; an
unload that is confirmed while a refresh runs waits for it.  A refresh that fails leaves a list that
is shown and says why it is old; an unload that cannot read the list blanks it, and one that can
leaves the old notice.

Every step below is one frame's work of the UI thread, the end of a refresh, or one release of an
unload.  Instants are in ns.

* `ModulesPage.step` : one step;
* `ModulesPage.Serialized` : the workers take turns, a confirmed unload is started once, and the
  list is the newest one, with a notice exactly while it is an older one;
* `ModulesPage.Careful` : no unload fails to read a list that is shown, or reads one while the
  notice is up;
* `ModulesPage.serialized_iff` : **a run is serialized exactly when all its steps are careful**.
-/

namespace Taskman

/-- `UpdateSpeed::interval`, in ns. -/
def UpdateSpeed.interval : UpdateSpeed → ℕ
  | .high => 500000000
  | .normal => 1000000000
  | .low => 4000000000
  | .paused => 3600000000000

namespace ModulesPage

open Broker

/-! ### When a page queries -/

/-- How often a properties page queries again: not at all while updates are paused. -/
def pageInterval (speed : UpdateSpeed) (floor : ℕ) : Option ℕ :=
  if speed ≠ .paused then some (max speed.interval floor) else none

/-- Once when first shown, then every interval, and whenever the user asks. -/
structure Pace where
  started : Option ℕ := none
  requested : Bool := false
  deriving DecidableEq

/-- It is time for the next refresh. -/
def Pace.due (pace : Pace) (now : ℕ) (every : Option ℕ) : Bool :=
  pace.requested ||
    match pace.started, every with
    | none, _ => true
    | some _, none => false
    | some started, some every => decide (every ≤ now - started)

/-- A query started now; it also answers any pending request. -/
def Pace.markStarted (_ : Pace) (now : ℕ) : Pace := { started := some now, requested := false }

/-- Ask for a refresh. -/
def Pace.request (pace : Pace) : Pace := { pace with requested := true }

/-! ### The page -/

/-- The shortest time between two refreshes, in nanoseconds. -/
def REFRESH_FLOOR : ℕ := 2000000000

/-- The most releases of an unload. -/
def MAX_FORCE_UNLOAD_RELEASES : ℕ := 64

/-- What the page shows of the modules. -/
inductive LoadState where
  | loading
  | ready (modules : List ProcessModule)
  | error (error : Text)
  deriving DecidableEq

/-- What the page shows of the code samples. -/
inductive CodeSamplesState where
  | loading
  | ready (window : ProcessModuleCodeWindow)
  | unavailable (error : Option Text)
  deriving DecidableEq

/-- The messages of the page. -/
inductive Toast where
  | processExited
  | moduleBusy
  | actionFailed
  | moduleUnloaded (name : Text)
  | failed (error : Text)
  | forceStillMapped (releases : ℕ) (name : Text)
  | forceRefreshFailed (releases : ℕ) (error : Text)
  deriving DecidableEq

/-- The worker of an unload. -/
structure Unload where
  module : ProcessModule
  /-- How often it has been through its loop. -/
  turns : ℕ := 0
  releases : ℕ := 0
  observedStillMapped : Option Bool := none
  deriving DecidableEq

/-- The page, the workers it has started, and what they have done so far. -/
structure State where
  load : LoadState := .loading
  codeSamples : CodeSamplesState := .loading
  /-- Why the newest refresh failed while an older list is shown. -/
  stale : Option Text := none
  generation : ℕ := 0
  sampledAt : Option ℕ := none
  codeSampledAt : Option ℕ := none
  fetch : Bool := false
  pace : Pace := {}
  unload : Bool := false
  /-- Confirmed while a refresh was running; starts when it finishes. -/
  queuedUnload : Option ProcessModule := none
  toasts : List Toast := []
  /-- The running refresh, and whether it reads code samples too. -/
  fetchWorker : Option Bool := none
  unloadWorker : Option Unload := none
  /-- The enumerations that have ended, the newest last. -/
  enumerated : List (Except Text (List ProcessModule)) := []
  /-- The modules of the unloads that were started. -/
  started : List ProcessModule := []

/-- An unload is running or waiting for a refresh to finish. -/
def State.unloading (s : State) : Bool := s.unload || s.queuedUnload.isSome

/-- Show a message. -/
def State.toast (s : State) (t : Toast) : State := { s with toasts := s.toasts ++ [t] }

/-- `compare_modules`, by name. -/
def compareModules (host : PageHost) (a b : ProcessModule) : Ordering :=
  (Processes.cmpIgnoreCase host a.name b.name).then (compare a.baseAddress b.baseAddress)

/-- Fold one enumeration into the page.  A failure replaces only a list that is not there yet; over
a shown list it is returned as the stale notice. -/
def mergeFetch (host : PageHost) (load : LoadState) (result : Except Text (List ProcessModule)) :
    LoadState × Option Text :=
  match result, load with
  | .ok modules, _ => (.ready (sortBy (compareModules host) modules), none)
  | .error error, .ready shown => (.ready shown, some error)
  | .error error, _ => (.error error, none)

/-- What an enumeration does to the list and the notice. -/
def State.merge (host : PageHost) (s : State) (result : Except Text (List ProcessModule)) :
    State :=
  { s with
    load := (mergeFetch host s.load result).1
    stale := (mergeFetch host s.load result).2
    enumerated := s.enumerated ++ [result] }

/-- Start a refresh, unless an unload or a refresh is under way; the thread may be refused. -/
def beginFetch (host : PageHost) (s : State) (now : ℕ) (profileVisible : Bool)
    (refusal : Option Text) : State :=
  if s.unloading || s.fetch then s
  else
    match refusal with
    | none =>
      { s with pace := s.pace.markStarted now, fetch := true, fetchWorker := some profileVisible }
    | some error =>
      let s := { s with pace := s.pace.markStarted now }.merge host (.error error)
      if profileVisible then
        { s with codeSamples := .unavailable (some error), codeSampledAt := none }
      else s

/-- What becomes of an unload that is confirmed. -/
inductive UnloadGate where
  | start
  /-- A background refresh is running; start right after it. -/
  | queue
  | busy
  deriving DecidableEq

/-- An unload waits for a refresh, and there is only one at a time. -/
def unloadGate (fetchBusy unloading : Bool) : UnloadGate :=
  if unloading then .busy else if fetchBusy then .queue else .start

/-- Start an unload that was confirmed; the thread may be refused. -/
def beginUnload (s : State) (module : ProcessModule) (live spawned : Bool) : State :=
  if !live then s.toast .processExited
  else
    match unloadGate s.fetch s.unloading with
    | .busy => s.toast .moduleBusy
    | .queue => { s with queuedUnload := some module }
    | .start =>
      if s.unload then s.toast .moduleBusy
      else if spawned then
        { s with
          unload := true
          unloadWorker := some { module := module }
          started := s.started ++ [module] }
      else s.toast .actionFailed

/-- What a frame sees of the app, and whether the threads it starts are refused. -/
structure Tick where
  now : ℕ
  speed : UpdateSpeed := .normal
  profileVisible : Bool := false
  /-- The platform can list modules. -/
  capable : Bool := true
  /-- The process is still running. -/
  live : Bool := true
  /-- The thread of an unload is not refused. -/
  spawned : Bool := true
  refusal : Option Text := none

/-- Start the unload that waits, once no refresh runs. -/
def State.release (s : State) (t : Tick) : State :=
  if s.fetch then s
  else
    match s.queuedUnload with
    | some module => beginUnload { s with queuedUnload := none } module t.live t.spawned
    | none => s

/-- Keep the list current while a page that reads it is on screen. -/
def tick (host : PageHost) (s : State) (t : Tick) : State :=
  if !t.capable then s
  else
    let s := s.release t
    if !s.unloading && s.pace.due t.now (pageInterval t.speed REFRESH_FLOOR) then
      beginFetch host s t.now t.profileVisible t.refusal
    else s

/-- The end of a refresh, which began at `sampled` and ends at `now`. -/
def fetched (host : PageHost) (s : State) (profileVisible : Bool) (sampled now : ℕ)
    (result : Except Text (List ProcessModule))
    (code : Except Text (Option ProcessModuleCodeWindow)) : State :=
  let s := { s.merge host result with fetch := false, fetchWorker := none }
  match result with
  | .error _ => s
  | .ok _ =>
    let s := { s with sampledAt := some sampled, generation := s.generation + 1 }
    if profileVisible then
      match code with
      | .ok (some window) =>
        { s with codeSamples := .ready window, codeSampledAt := some now }
      | .ok none => { s with codeSamples := .unavailable none, codeSampledAt := none }
      | .error error => { s with codeSamples := .unavailable (some error), codeSampledAt := none }
    else s

/-- The exact base and path are still mapped. -/
def Unload.stillMapped (w : Unload) (modules : List ProcessModule) : Bool :=
  modules.any fun candidate =>
    candidate.baseAddress == w.module.baseAddress &&
      eqIgnoreAsciiCase candidate.path w.module.path

/-- What an unload reports at its end. -/
def Unload.message (name : Text) (releases : ℕ) (observed : Option Bool)
    (actionError refreshError : Option Text) : Toast :=
  if observed = some false then .moduleUnloaded name
  else
    match actionError, refreshError with
    | some error, _ => .failed error
    | none, some error => .forceRefreshFailed releases error
    | none, none => if observed = some true then .forceStillMapped releases name else .actionFailed

/-- The error of a result. -/
def errorOf {α : Type} : Except Text α → Option Text
  | .ok _ => none
  | .error error => some error

/-- What an unload shows of the list it reads. -/
def loadOf : Except Text (List ProcessModule) → LoadState
  | .ok modules => .ready modules
  | .error error => .error error

/-- Whether the module is still mapped, from the list, or else from the release itself; if both
fail, it is what the turn before saw. -/
def Unload.observed (w : Unload) (action : Except Text ModuleUnloadOutcome) :
    Except Text (List ProcessModule) → Option Bool
  | .ok modules => some (w.stillMapped modules)
  | .error _ =>
    match action with
    | .ok outcome => outcome.stillMapped
    | .error _ => w.observedStillMapped

/-- The releases that have succeeded. -/
def Unload.released (w : Unload) : Except Text ModuleUnloadOutcome → ℕ
  | .ok _ => w.releases + 1
  | .error _ => w.releases

/-- One turn of the loop of an unload: a release, and the list after it.  It goes on only if the
release succeeded and the list shows the module still mapped. -/
def unloadTurn (s : State) (w : Unload) (action : Except Text ModuleUnloadOutcome)
    (listed : Except Text (List ProcessModule)) : State :=
  let s := { s with load := loadOf listed, enumerated := s.enumerated ++ [listed] }
  if (errorOf action).isNone && (errorOf listed).isNone && w.observed action listed == some true &&
      decide (w.turns + 1 < MAX_FORCE_UNLOAD_RELEASES) then
    { s with
      unloadWorker := some
        { w with
          turns := w.turns + 1
          releases := w.released action
          observedStillMapped := w.observed action listed } }
  else
    { s with
      unload := false
      unloadWorker := none
      toasts := s.toasts ++ [Unload.message w.module.name (w.released action)
        (w.observed action listed) (errorOf action) (errorOf listed)] }

/-! ### Runs -/

/-- What happens to the page and its workers. -/
inductive Event where
  /-- A frame that shows the page. -/
  | tick (t : Tick)
  /-- F5. -/
  | refresh
  /-- An unload is confirmed. -/
  | confirm (module : ProcessModule) (live spawned : Bool)
  /-- The refresh ends. -/
  | fetched (sampled now : ℕ) (result : Except Text (List ProcessModule))
      (code : Except Text (Option ProcessModuleCodeWindow))
  /-- The unload takes a turn. -/
  | turn (action : Except Text ModuleUnloadOutcome) (listed : Except Text (List ProcessModule))

/-- One step; a worker takes one only while it runs. -/
def step (host : PageHost) (s : State) : Event → Option State
  | .tick t => some (tick host s t)
  | .refresh => some { s with pace := s.pace.request }
  | .confirm module live spawned => some (beginUnload s module live spawned)
  | .fetched sampled now result code =>
    s.fetchWorker.map fun profileVisible => fetched host s profileVisible sampled now result code
  | .turn action listed => s.unloadWorker.map fun w => unloadTurn s w action listed

/-- The newest list that was read. -/
def newestOk (enumerated : List (Except Text (List ProcessModule))) :
    Option (List ProcessModule) :=
  (enumerated.filterMap Except.toOption).getLast?

/-- The notice is drawn over a list. -/
def State.notice (s : State) : Option Text :=
  match s.load with
  | .ready _ => s.stale
  | _ => none

/-- No list that was read is replaced by an error, and the notice says of a list that is shown
whether the newest enumeration failed. -/
structure Shown (s : State) : Prop where
  kept : (newestOk s.enumerated).isSome → ∃ shown, s.load = .ready shown
  notice : ∀ error, s.notice = some error ↔
    s.enumerated.getLast? = some (.error error) ∧ ∃ shown, s.load = .ready shown

/-- A frame in which no refresh runs. -/
def Releases (s : State) : Event → Prop
  | .tick t => t.capable = true ∧ s.fetchWorker = none
  | _ => False

/-- What a run of the page keeps to. -/
structure Serialized (host : PageHost) (events : List Event) : Prop where
  /-- A refresh and an unload never run at the same time. -/
  apart : Machine.Throughout (step host)
    (fun s => s.fetchWorker = none ∨ s.unloadWorker = none) {} events
  /-- An unload that is confirmed while a refresh runs waits, and no other one starts, as long as no
  frame finds the refresh ended. -/
  waits : ∀ pre module spawned mid s s', pre ++ .confirm module true spawned :: mid <+: events →
    Machine.exec (step host) {} pre = some s → s.fetchWorker.isSome → s.queuedUnload = none →
      Machine.exec (step host) s (.confirm module true spawned :: mid) = some s' →
        Machine.Along (step host) (fun s e => ¬ Releases s e) s
          (.confirm module true spawned :: mid) →
            s'.queuedUnload = some module ∧ s'.unloadWorker = none ∧ s'.started = s.started
  /-- The frame that does starts it, if the process still lives and the thread is not refused;
  either way it waits no longer. -/
  starts : ∀ pre t module s s', pre ++ [.tick t] <+: events →
    Machine.exec (step host) {} pre = some s → s.queuedUnload = some module →
      Releases s (.tick t) → step host s (.tick t) = some s' →
        s'.queuedUnload = none ∧
          s'.started = s.started ++ (if t.live && t.spawned then [module] else []) ∧
            (t.live && t.spawned → s'.unloadWorker = some { module := module })
  /-- The list shown is that of the newest successful enumeration. -/
  newest : Machine.Throughout (step host)
    (fun s => ∀ shown, s.load = .ready shown →
      ∃ modules, newestOk s.enumerated = some modules ∧ shown.Perm modules) {} events
  shown : Machine.Throughout (step host) Shown {} events

/-- A turn of an unload reads the list while no notice is up, or fails to while no list is shown. -/
def Careful (s : State) : Event → Prop
  | .turn _ (.ok _) => s.stale = none
  | .turn _ (.error _) => ∀ shown, s.load ≠ .ready shown
  | _ => True

instance (load : LoadState) : Decidable (∀ shown, load ≠ .ready shown) :=
  match load with
  | .ready shown => isFalse fun h => h shown rfl
  | .loading => isTrue nofun
  | .error _ => isTrue nofun

instance (s : State) (e : Event) : Decidable (Careful s e) :=
  match e with
  | .turn _ (.ok _) => inferInstanceAs (Decidable (s.stale = none))
  | .turn _ (.error _) => inferInstanceAs (Decidable (∀ shown, s.load ≠ .ready shown))
  | .tick _ => isTrue trivial
  | .refresh => isTrue trivial
  | .confirm _ _ _ => isTrue trivial
  | .fetched _ _ _ _ => isTrue trivial

/-! ### What the steps do -/

section Steps

variable {host : PageHost} {s s' : State}

@[simp]
theorem newestOk_append_ok (es : List (Except Text (List ProcessModule)))
    (modules : List ProcessModule) : newestOk (es ++ [.ok modules]) = some modules := by
  simp [newestOk, List.filterMap_append, Except.toOption]

@[simp]
theorem newestOk_append_error (es : List (Except Text (List ProcessModule))) (error : Text) :
    newestOk (es ++ [.error error]) = newestOk es := by
  simp [newestOk, List.filterMap_append, Except.toOption]

/-- What a confirmed unload comes to. -/
theorem beginUnload_cases (s : State) (module : ProcessModule) (live spawned : Bool) :
    (∃ t, beginUnload s module live spawned = s.toast t) ∨
      (s.fetch = true ∧ s.unloading = false ∧
        beginUnload s module live spawned = { s with queuedUnload := some module }) ∨
      (s.fetch = false ∧ s.unloading = false ∧
        beginUnload s module live spawned =
          { s with
            unload := true
            unloadWorker := some { module := module }
            started := s.started ++ [module] }) := by
  cases live with
  | false => exact Or.inl ⟨_, rfl⟩
  | true =>
    cases hunloading : s.unloading with
    | true => exact Or.inl ⟨.moduleBusy, by simp [beginUnload, unloadGate, hunloading]⟩
    | false =>
      have hunload : s.unload = false := (Bool.or_eq_false_iff.mp hunloading).1
      cases hfetch : s.fetch with
      | true =>
        exact Or.inr (Or.inl ⟨rfl, rfl, by simp [beginUnload, unloadGate, hunloading, hfetch]⟩)
      | false =>
        cases spawned with
        | true =>
          exact Or.inr (Or.inr
            ⟨rfl, rfl, by simp [beginUnload, unloadGate, hunloading, hfetch, hunload]⟩)
        | false =>
          exact Or.inl
            ⟨.actionFailed, by simp [beginUnload, unloadGate, hunloading, hfetch, hunload]⟩

theorem beginUnload_queue {module : ProcessModule} {spawned : Bool} (hfetch : s.fetch = true)
    (hunloading : s.unloading = false) :
    beginUnload s module true spawned = { s with queuedUnload := some module } := by
  simp [beginUnload, unloadGate, hfetch, hunloading]

/-- It starts at once where no worker runs. -/
theorem beginUnload_start {module : ProcessModule} {live spawned : Bool}
    (hfetch : s.fetch = false) (hunloading : s.unloading = false) :
    beginUnload s module live spawned =
      if live && spawned then
        { s with
          unload := true
          unloadWorker := some { module := module }
          started := s.started ++ [module] }
      else s.toast (if live then .actionFailed else .processExited) := by
  have hunload : s.unload = false := (Bool.or_eq_false_iff.mp hunloading).1
  cases live with
  | false => rfl
  | true => cases spawned <;> simp [beginUnload, unloadGate, hfetch, hunloading, hunload]

/-! ### The workers take turns -/

/-- The busy flags are those of the workers, which take turns, and a list that is shown is the
newest one. -/
structure Inv (s : State) : Prop where
  fetch : s.fetch = s.fetchWorker.isSome
  unload : s.unload = s.unloadWorker.isSome
  apart : s.fetchWorker = none ∨ s.unloadWorker = none
  queued : s.queuedUnload.isSome → s.unloadWorker = none
  newest : ∀ shown, s.load = .ready shown →
    ∃ modules, newestOk s.enumerated = some modules ∧ shown.Perm modules

theorem inv_init : Inv {} where
  fetch := rfl
  unload := rfl
  apart := Or.inl rfl
  queued := nofun
  newest := nofun

theorem Inv.toast (h : Inv s) (t : Toast) : Inv (s.toast t) :=
  ⟨h.fetch, h.unload, h.apart, h.queued, h.newest⟩

theorem Inv.free (h : Inv s) (hunloading : s.unloading = false) :
    s.unloadWorker = none ∧ s.queuedUnload = none := by
  obtain ⟨hunload, hqueued⟩ := Bool.or_eq_false_iff.mp hunloading
  rw [h.unload] at hunload
  exact ⟨Option.isSome_eq_false_iff.mp hunload |> Option.isNone_iff_eq_none.mp,
    Option.isSome_eq_false_iff.mp hqueued |> Option.isNone_iff_eq_none.mp⟩

theorem Inv.beginUnload (h : Inv s) (module : ProcessModule) (live spawned : Bool) :
    Inv (beginUnload s module live spawned) := by
  rcases beginUnload_cases s module live spawned with
    ⟨t, heq⟩ | ⟨-, hfree, heq⟩ | ⟨hfetch, hfree, heq⟩
  · rw [heq]
    exact h.toast t
  · rw [heq]
    exact ⟨h.fetch, h.unload, h.apart, fun _ => (h.free hfree).1, h.newest⟩
  · rw [heq]
    have hnone : s.fetchWorker = none := by
      rw [h.fetch] at hfetch
      simpa using hfetch
    exact ⟨h.fetch, rfl, Or.inl hnone, fun hsome => by simp [(h.free hfree).2] at hsome, h.newest⟩

theorem Inv.release (h : Inv s) (t : Tick) : Inv (s.release t) := by
  unfold State.release
  split
  · exact h
  · split
    · have hnone : Inv { s with queuedUnload := none } :=
        ⟨h.fetch, h.unload, h.apart, nofun, h.newest⟩
      exact hnone.beginUnload _ _ _
    · exact h

/-- A merged enumeration leaves the newest list. -/
theorem newest_merge (h : Inv s) (result : Except Text (List ProcessModule)) :
    ∀ shown, (s.merge host result).load = .ready shown →
      ∃ modules, newestOk (s.merge host result).enumerated = some modules ∧
        shown.Perm modules := by
  intro shown hshown
  cases result with
  | ok modules =>
    refine ⟨modules, newestOk_append_ok _ _, ?_⟩
    obtain rfl : sortBy (compareModules host) modules = shown := LoadState.ready.inj hshown
    exact sortBy_perm _ _
  | error error =>
    have hload : s.load = .ready shown := by
      cases hs : s.load with
      | ready modules => simpa [State.merge, mergeFetch, hs] using hshown
      | loading | error _ => simp [State.merge, mergeFetch, hs] at hshown
    obtain ⟨modules, hnewest, hperm⟩ := h.newest shown hload
    exact ⟨modules, (newestOk_append_error _ _).trans hnewest, hperm⟩

theorem Inv.beginFetch (h : Inv s) (now : ℕ) (profileVisible : Bool) (refusal : Option Text) :
    Inv (beginFetch host s now profileVisible refusal) := by
  unfold ModulesPage.beginFetch
  split
  · exact h
  · rename_i hidle
    obtain ⟨hunloading, -⟩ := Bool.or_eq_false_iff.mp (Bool.eq_false_iff.mpr hidle)
    split
    · exact ⟨rfl, h.unload, Or.inr (h.free hunloading).1, h.queued, h.newest⟩
    · rename_i error
      have hpace : Inv { s with pace := s.pace.markStarted now } :=
        ⟨h.fetch, h.unload, h.apart, h.queued, h.newest⟩
      split
      · exact ⟨h.fetch, h.unload, h.apart, h.queued, newest_merge hpace (.error error)⟩
      · exact ⟨h.fetch, h.unload, h.apart, h.queued, newest_merge hpace (.error error)⟩

theorem Inv.tick (h : Inv s) (t : Tick) : Inv (tick host s t) := by
  unfold ModulesPage.tick
  split
  · exact h
  · dsimp only
    split
    · exact (h.release t).beginFetch _ _ _
    · exact h.release t

theorem Inv.fetched (h : Inv s) (worker : Bool) (sampled now : ℕ)
    (result : Except Text (List ProcessModule))
    (code : Except Text (Option ProcessModuleCodeWindow)) :
    Inv (fetched host s worker sampled now result code) := by
  have hnewest := @newest_merge host s h result
  have hbase : Inv { s.merge host result with fetch := false, fetchWorker := none } :=
    ⟨rfl, h.unload, Or.inl rfl, h.queued, hnewest⟩
  unfold ModulesPage.fetched
  cases result with
  | error error => exact hbase
  | ok modules =>
    dsimp only
    split
    · split <;> exact ⟨rfl, h.unload, Or.inl rfl, h.queued, hnewest⟩
    · exact ⟨rfl, h.unload, Or.inl rfl, h.queued, hnewest⟩

/-- What a turn of an unload comes to: the list is what it read, and the worker goes on or ends. -/
theorem unloadTurn_cases (hunload : s.unload = true) (w : Unload)
    (action : Except Text ModuleUnloadOutcome) (listed : Except Text (List ProcessModule)) :
    ∃ worker toasts, unloadTurn s w action listed =
      { s with
        load := loadOf listed
        enumerated := s.enumerated ++ [listed]
        unload := worker.isSome
        unloadWorker := worker
        toasts := toasts } := by
  unfold unloadTurn
  dsimp only
  split
  · exact ⟨some _, s.toasts, by rw [Option.isSome_some, ← hunload]⟩
  · exact ⟨none, _, rfl⟩

theorem Inv.turn (h : Inv s) {w : Unload} (hworker : s.unloadWorker = some w)
    (action : Except Text ModuleUnloadOutcome) (listed : Except Text (List ProcessModule)) :
    Inv (unloadTurn s w action listed) := by
  have hunload : s.unload = true := by rw [h.unload, hworker, Option.isSome_some]
  obtain ⟨worker, toasts, heq⟩ := unloadTurn_cases hunload w action listed
  have hfetch : s.fetchWorker = none := h.apart.resolve_right (by simp [hworker])
  have hqueued : s.queuedUnload.isSome → worker = none := fun hsome => by
    rw [h.queued hsome] at hworker
    cases hworker
  rw [heq]
  refine ⟨h.fetch, rfl, Or.inl hfetch, hqueued, fun shown hshown => ?_⟩
  cases listed with
  | ok modules =>
    obtain rfl : modules = shown := LoadState.ready.inj hshown
    exact ⟨modules, newestOk_append_ok _ _, List.Perm.refl _⟩
  | error error => cases hshown

theorem Inv.step (h : Inv s) {e : Event} (hstep : step host s e = some s') : Inv s' := by
  cases e with
  | tick t =>
    cases hstep
    exact h.tick t
  | refresh =>
    cases hstep
    exact ⟨h.fetch, h.unload, h.apart, h.queued, h.newest⟩
  | confirm module live spawned =>
    cases hstep
    exact h.beginUnload module live spawned
  | fetched sampled now result code =>
    obtain ⟨worker, -, rfl⟩ := Option.map_eq_some_iff.mp hstep
    exact h.fetched worker sampled now result code
  | turn action listed =>
    obtain ⟨w, hworker, rfl⟩ := Option.map_eq_some_iff.mp hstep
    exact h.turn hworker action listed

/-! ### The list and the notice -/

/-- The list, the notice and the enumerations are what they were. -/
structure SameList (s s' : State) : Prop where
  load : s'.load = s.load
  stale : s'.stale = s.stale
  enumerated : s'.enumerated = s.enumerated

theorem SameList.shown_iff (h : SameList s s') : Shown s' ↔ Shown s := by
  have hnotice : s'.notice = s.notice := by rw [State.notice, State.notice, h.load, h.stale]
  constructor
  · rintro ⟨hkept, hiff⟩
    rw [h.enumerated, h.load] at hkept
    rw [h.enumerated, h.load, hnotice] at hiff
    exact ⟨hkept, hiff⟩
  · rintro ⟨hkept, hiff⟩
    rw [← h.enumerated, ← h.load] at hkept
    rw [← h.enumerated, ← h.load, ← hnotice] at hiff
    exact ⟨hkept, hiff⟩

theorem Shown.congr (h : Shown s) (hload : s'.load = s.load) (hstale : s'.stale = s.stale)
    (henumerated : s'.enumerated = s.enumerated) : Shown s' :=
  (SameList.shown_iff ⟨hload, hstale, henumerated⟩).mpr h

theorem sameList_beginUnload (s : State) (module : ProcessModule) (live spawned : Bool) :
    SameList s (beginUnload s module live spawned) := by
  rcases beginUnload_cases s module live spawned with ⟨t, heq⟩ | ⟨-, -, heq⟩ | ⟨-, -, heq⟩
  · rw [heq]
    exact ⟨rfl, rfl, rfl⟩
  · rw [heq]
    exact ⟨rfl, rfl, rfl⟩
  · rw [heq]
    exact ⟨rfl, rfl, rfl⟩

theorem sameList_release (s : State) (t : Tick) : SameList s (s.release t) := by
  unfold State.release
  split
  · exact ⟨rfl, rfl, rfl⟩
  · split
    · obtain ⟨hload, hstale, henumerated⟩ :=
        sameList_beginUnload { s with queuedUnload := none } _ t.live t.spawned
      exact ⟨hload, hstale, henumerated⟩
    · exact ⟨rfl, rfl, rfl⟩

theorem shown_init : Shown {} where
  kept := nofun
  notice := by simp [State.notice]

/-- **A refresh keeps to it**: one that fails leaves the list, and says so. -/
theorem Shown.merge (h : Shown s) (result : Except Text (List ProcessModule)) :
    Shown (s.merge host result) := by
  cases result with
  | ok modules =>
    exact ⟨fun _ => ⟨_, rfl⟩, fun error => by simp [State.notice, State.merge, mergeFetch]⟩
  | error error =>
    cases hload : s.load with
    | ready shown =>
      exact ⟨fun _ => ⟨shown, by simp [State.merge, mergeFetch, hload]⟩,
        fun e => by simp [State.notice, State.merge, mergeFetch, hload]⟩
    | loading | error _ =>
      refine ⟨fun hok => ?_, fun e => by simp [State.notice, State.merge, mergeFetch, hload]⟩
      obtain ⟨shown, hshown⟩ := h.kept (by simpa [State.merge] using hok)
      rw [hload] at hshown
      cases hshown

theorem Shown.beginFetch (h : Shown s) (now : ℕ) (profileVisible : Bool)
    (refusal : Option Text) : Shown (beginFetch host s now profileVisible refusal) := by
  unfold ModulesPage.beginFetch
  split
  · exact h
  · split
    · exact h.congr rfl rfl rfl
    · rename_i error
      have hpace : Shown { s with pace := s.pace.markStarted now } := h.congr rfl rfl rfl
      have hmerge : Shown ({ s with pace := s.pace.markStarted now }.merge host (.error error)) :=
        hpace.merge (.error error)
      split
      · exact hmerge.congr rfl rfl rfl
      · exact hmerge

theorem Shown.tick (h : Shown s) (t : Tick) : Shown (tick host s t) := by
  unfold ModulesPage.tick
  split
  · exact h
  · have hrelease : Shown (s.release t) := (sameList_release s t).shown_iff.mpr h
    dsimp only
    split
    · exact hrelease.beginFetch _ _ _
    · exact hrelease

theorem Shown.fetched (h : Shown s) (worker : Bool) (sampled now : ℕ)
    (result : Except Text (List ProcessModule))
    (code : Except Text (Option ProcessModuleCodeWindow)) :
    Shown (fetched host s worker sampled now result code) := by
  have hmerge : Shown (s.merge host result) := h.merge result
  unfold ModulesPage.fetched
  cases result with
  | error error => exact hmerge.congr rfl rfl rfl
  | ok modules =>
    dsimp only
    split
    · split <;> exact hmerge.congr rfl rfl rfl
    · exact hmerge.congr rfl rfl rfl

/-- **A turn of an unload keeps to it exactly if it is careful.** -/
theorem shown_turn_iff (h : Shown s) (hinv : Inv s) {w : Unload} (hworker : s.unloadWorker = some w)
    (action : Except Text ModuleUnloadOutcome) (listed : Except Text (List ProcessModule)) :
    Shown (unloadTurn s w action listed) ↔ Careful s (.turn action listed) := by
  have hunload : s.unload = true := by rw [hinv.unload, hworker, Option.isSome_some]
  obtain ⟨worker, toasts, heq⟩ := unloadTurn_cases hunload w action listed
  rw [heq]
  cases listed with
  | ok modules =>
    constructor
    · intro hshown
      cases hstale : s.stale with
      | none => exact hstale
      | some error =>
        obtain ⟨hlast, -⟩ := (hshown.notice error).mp hstale
        simp at hlast
    · intro hstale
      refine ⟨fun _ => ⟨modules, rfl⟩, fun error => ?_⟩
      have hnone : s.stale = none := hstale
      simp [State.notice, loadOf, hnone]
  | error error =>
    constructor
    · intro hshown shown hload
      obtain ⟨modules, hnewest, -⟩ := hinv.newest shown hload
      obtain ⟨shown', hshown'⟩ := hshown.kept (by simp [hnewest])
      cases hshown'
    · intro hnot
      refine ⟨fun hok => ?_, fun e => by simp [State.notice, loadOf]⟩
      obtain ⟨shown, hload⟩ := h.kept (by simpa using hok)
      exact absurd hload (hnot shown)

theorem shown_step_iff (h : Shown s) (hinv : Inv s) {e : Event} (hstep : step host s e = some s') :
    Shown s' ↔ Careful s e := by
  cases e with
  | tick t =>
    cases hstep
    exact iff_of_true (h.tick t) trivial
  | refresh =>
    cases hstep
    exact iff_of_true (h.congr rfl rfl rfl) trivial
  | confirm module live spawned =>
    cases hstep
    exact iff_of_true ((sameList_beginUnload s module live spawned).shown_iff.mpr h) trivial
  | fetched sampled now result code =>
    obtain ⟨worker, -, rfl⟩ := Option.map_eq_some_iff.mp hstep
    exact iff_of_true (h.fetched worker sampled now result code) trivial
  | turn action listed =>
    obtain ⟨w, hworker, rfl⟩ := Option.map_eq_some_iff.mp hstep
    exact shown_turn_iff h hinv hworker action listed

/-! ### An unload that waits -/

/-- An unload of this module waits, and these are the ones that were started. -/
structure Waiting (module : ProcessModule) (started : List ProcessModule) (s : State) : Prop where
  queued : s.queuedUnload = some module
  started : s.started = started

theorem beginUnload_of_queued (module : ProcessModule) {other : ProcessModule}
    (hqueued : s.queuedUnload = some other) (live spawned : Bool) :
    ∃ t, beginUnload s module live spawned = s.toast t := by
  have hunloading : s.unloading = true := by simp [State.unloading, hqueued]
  rcases beginUnload_cases s module live spawned with h | ⟨-, hfree, -⟩ | ⟨-, hfree, -⟩
  · exact h
  · rw [hunloading] at hfree
    cases hfree
  · rw [hunloading] at hfree
    cases hfree

/-- It waits until a frame finds the refresh ended. -/
theorem Waiting.step {module : ProcessModule} {started : List ProcessModule} {e : Event}
    (h : Waiting module started s) (hinv : Inv s) (hnot : ¬ Releases s e)
    (hstep : step host s e = some s') : Waiting module started s' := by
  cases e with
  | tick t =>
    cases hstep
    unfold ModulesPage.tick
    split
    · exact h
    · rename_i hcapable
      have hfetch : s.fetch = true := by
        rw [hinv.fetch, Option.isSome_iff_ne_none]
        exact fun hnone => hnot ⟨by simpa using hcapable, hnone⟩
      have hrelease : s.release t = s := if_pos hfetch
      have hunloading : s.unloading = true := by simp [State.unloading, h.queued]
      dsimp only
      rw [hrelease, hunloading]
      exact h
  | refresh =>
    cases hstep
    exact ⟨h.queued, h.started⟩
  | confirm other live spawned =>
    cases hstep
    obtain ⟨t, heq⟩ := beginUnload_of_queued other h.queued live spawned
    rw [heq]
    exact ⟨h.queued, h.started⟩
  | fetched sampled now result code =>
    obtain ⟨worker, -, rfl⟩ := Option.map_eq_some_iff.mp hstep
    unfold ModulesPage.fetched
    cases result with
    | error error => exact ⟨h.queued, h.started⟩
    | ok modules =>
      dsimp only
      split
      · split <;> exact ⟨h.queued, h.started⟩
      · exact ⟨h.queued, h.started⟩
  | turn action listed =>
    obtain ⟨w, hworker, rfl⟩ := Option.map_eq_some_iff.mp hstep
    rw [hinv.queued (by simp [h.queued])] at hworker
    cases hworker

/-- Starting a refresh leaves the unloads alone. -/
theorem beginFetch_unloads (host : PageHost) (s : State) (now : ℕ) (profileVisible : Bool)
    (refusal : Option Text) :
    (beginFetch host s now profileVisible refusal).queuedUnload = s.queuedUnload ∧
      (beginFetch host s now profileVisible refusal).unloadWorker = s.unloadWorker ∧
        (beginFetch host s now profileVisible refusal).started = s.started := by
  unfold beginFetch
  split
  · exact ⟨rfl, rfl, rfl⟩
  · split
    · exact ⟨rfl, rfl, rfl⟩
    · split <;> exact ⟨rfl, rfl, rfl⟩

/-- After the unload that waits has been seen to, a frame leaves the unloads alone. -/
theorem tick_unloads (host : PageHost) (s : State) (t : Tick) (hcapable : t.capable = true) :
    (tick host s t).queuedUnload = (s.release t).queuedUnload ∧
      (tick host s t).unloadWorker = (s.release t).unloadWorker ∧
        (tick host s t).started = (s.release t).started := by
  unfold tick
  rw [if_neg (by simp [hcapable])]
  dsimp only
  split
  · exact beginFetch_unloads _ _ _ _ _
  · exact ⟨rfl, rfl, rfl⟩

/-- The frame that finds the refresh ended starts it. -/
theorem Waiting.release {module : ProcessModule} {started : List ProcessModule} {t : Tick}
    (h : Waiting module started s) (hinv : Inv s) (hreleases : Releases s (.tick t)) :
    (tick host s t).queuedUnload = none ∧
      (tick host s t).started = started ++ (if t.live && t.spawned then [module] else []) ∧
        (t.live && t.spawned → (tick host s t).unloadWorker = some { module := module }) := by
  obtain ⟨hcapable, hnone⟩ := hreleases
  have hfetch : s.fetch = false := by rw [hinv.fetch, hnone, Option.isSome_none]
  have hunload : s.unload = false := by
    rw [hinv.unload, hinv.queued (by simp [h.queued]), Option.isSome_none]
  have hunloading : { s with queuedUnload := none }.unloading = false := by
    simp [State.unloading, hunload]
  have hrelease : s.release t = if t.live && t.spawned then
      { s with
        queuedUnload := none
        unload := true
        unloadWorker := some { module := module }
        started := s.started ++ [module] }
      else { s with queuedUnload := none }.toast
        (if t.live then .actionFailed else .processExited) := by
    rw [State.release, if_neg (by simp [hfetch]), h.queued]
    exact beginUnload_start hfetch hunloading
  obtain ⟨hqueued, hworker, hstarted⟩ := tick_unloads host s t hcapable
  rw [hqueued, hworker, hstarted, hrelease, ← h.started]
  cases t.live && t.spawned with
  | true => exact ⟨rfl, rfl, fun _ => rfl⟩
  | false => exact ⟨rfl, (List.append_nil _).symm, nofun⟩

end Steps

/-! ### Runs of the page -/

section Runs

variable {host : PageHost} {events : List Event} {s : State}

theorem inv_of_exec (hrun : Machine.exec (step host) {} events = some s) : Inv s :=
  Machine.invariant (fun _ _ _ hinv hstep => hinv.step hstep) inv_init hrun

/-- A confirmed unload waits while the refresh runs. -/
theorem waiting_of_exec {module : ProcessModule} {spawned : Bool} {mid : List Event} {s' : State}
    (hinv : Inv s) (hfetch : s.fetchWorker.isSome) (hnone : s.queuedUnload = none)
    (hrun : Machine.exec (step host) s (.confirm module true spawned :: mid) = some s')
    (halong : Machine.Along (step host) (fun s e => ¬ Releases s e) s
      (.confirm module true spawned :: mid)) : Waiting module s.started s' ∧ Inv s' := by
  have hworker : s.unloadWorker = none :=
    hinv.apart.resolve_left (Option.isSome_iff_ne_none.mp hfetch)
  have hunloading : s.unloading = false := by
    rw [State.unloading, hinv.unload, hworker, hnone]
    rfl
  have hbegin : beginUnload s module true spawned = { s with queuedUnload := some module } :=
    beginUnload_queue (hinv.fetch.trans hfetch) hunloading
  obtain ⟨t, ht, hrest⟩ := Machine.exec_cons_eq_some.mp hrun
  obtain rfl := Option.some.inj ht
  refine Machine.invariant_of_along (C := fun s e => ¬ Releases s e)
    (I := fun u => Waiting module s.started u ∧ Inv u)
    (fun u e u' hu hnot hstep => ⟨hu.1.step hu.2 hnot hstep, hu.2.step hstep⟩) ?_
    (halong.2 _ rfl) hrest
  rw [hbegin]
  exact ⟨⟨rfl, rfl⟩, ⟨hinv.fetch, hinv.unload, hinv.apart, fun _ => hworker, hinv.newest⟩⟩

/-- **A run is serialized exactly when all its steps are careful.** -/
theorem serialized_iff (host : PageHost) (events : List Event) (s : State)
    (hrun : Machine.exec (step host) {} events = some s) :
    Serialized host events ↔ Machine.Along (step host) Careful {} events := by
  have hshown : Machine.Throughout (step host) Shown {} events ↔
      Machine.Along (step host) Careful {} events :=
    Machine.throughout_iff_along (fun _ _ _ hinv hstep => hinv.step hstep)
      (fun _ _ _ hinv h hstep => shown_step_iff h hinv hstep) inv_init shown_init hrun
  rw [← hshown]
  refine ⟨fun h => h.shown, fun h => ?_⟩
  exact
    { apart := fun pre u _ hu => (inv_of_exec hu).apart
      waits := by
        intro pre module spawned mid u u' _ hu hfetch hnone hrun' halong
        obtain ⟨hwaiting, hinv⟩ :=
          waiting_of_exec (inv_of_exec hu) hfetch hnone hrun' halong
        exact ⟨hwaiting.queued, hinv.queued (by simp [hwaiting.queued]), hwaiting.started⟩
      starts := by
        intro pre t module u u' _ hu hqueued hreleases hstep
        obtain rfl := Option.some.inj hstep
        exact Waiting.release ⟨hqueued, rfl⟩ (inv_of_exec hu) hreleases
      newest := fun pre u _ hu => (inv_of_exec hu).newest
      shown := h }

/-- A module of a process. -/
def hook : ProcessModule :=
  { name := "hook.dll".toList, path := "C:/hook.dll".toList, baseAddress := 4096,
    sizeBytes := 4096 }

/-- An unload is confirmed while the list is read again; it waits for the list, and the module is
gone after its release. -/
def queuedRelease : List Event :=
  [.tick { now := 0 }, .fetched 0 1 (.ok [hook]) (.ok none), .refresh, .tick { now := 9000 },
    .confirm hook true true, .fetched 9000 9001 (.ok [hook]) (.ok none), .tick { now := 9002 },
    .turn (.ok ⟨none⟩) (.ok [])]

/-- That run is serialized. -/
theorem serialized_iff_queuedRelease : Serialized Processes.asciiHost queuedRelease := by
  obtain ⟨s, hs⟩ := Option.isSome_iff_exists.mp
    (show (Machine.exec (step Processes.asciiHost) {} queuedRelease).isSome by decide +kernel)
  exact (serialized_iff Processes.asciiHost queuedRelease s hs).mpr (by decide +kernel)

/-- A list is read, an unload is confirmed, and the list cannot be read after its release. -/
def unreadableAfterRelease : List Event :=
  [.tick { now := 0 }, .fetched 0 1 (.ok [hook]) (.ok none), .confirm hook true true,
    .turn (.ok ⟨none⟩) (.error "busy".toList)]

/-- The list that was shown is replaced by the error. -/
theorem list_replaced_by_error :
    ¬ ∀ (host : PageHost) (events : List Event) (s : State),
      Machine.exec (step host) {} events = some s → Serialized host events := by
  intro hlaw
  have hrun : ∃ s, Machine.exec (step Processes.asciiHost) {} unreadableAfterRelease = some s ∧
      s.load = .error "busy".toList ∧ (newestOk s.enumerated).isSome :=
    ⟨_, rfl, rfl, rfl⟩
  obtain ⟨s, hs, hload, hsome⟩ := hrun
  have hshown := (hlaw Processes.asciiHost unreadableAfterRelease s hs).shown
    unreadableAfterRelease s List.prefix_rfl hs
  obtain ⟨shown, hready⟩ := hshown.kept hsome
  rw [hload] at hready
  cases hready

end Runs

end ModulesPage

end Taskman
