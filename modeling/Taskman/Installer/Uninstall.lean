import Taskman.Core.Model
import Taskman.LTS.Fallible
import Mathlib.Data.Finset.Basic

/-!
# Uninstalling

`uninstall` removes the service, the shortcuts, the program files and last the entry in Add/Remove
Programs, whose command is the setup executable in the install directory.  Setup may run from there:
then it is moved out of the directory first, and back if the directory cannot be removed.

Every call of the system may fail.  How each of them goes is data of a run (`Outcomes`); what they
do when they succeed is what happens to the `Computer`.

* `Uninstall.uninstall` : all the steps;
* `Uninstall.Kept` : a failed uninstall leaves the entry and its executable, or says that it could
  not;
* `Uninstall.Gone` : a successful one leaves neither the service nor the files nor the entry;
* `Uninstall.promised_iff` : **what is promised holds exactly where setup runs from the install
  directory or its executable survives a removal that fails, and the entry is removed after a
  removal that succeeds**.

Progress messages are left out, and so is what the steps before the removal of the service do.
-/

namespace Taskman.Uninstall

/-- A path, as its components. -/
abbrev Path := List Text

/-- The program. -/
def APP_EXE : Text := "taskman.exe".toList

/-- The installed setup. -/
def SETUP_EXE : Text := "taskman-setup.exe".toList

/-- The directory the program is installed in. -/
def INSTALL_DIR_NAME : Text := "TaskMan".toList

/-- Whether `path` is `tree` or lies below it, regardless of case. -/
def isWithin (toLowercase : Text → Text) (path tree : Path) : Bool :=
  (tree.map toLowercase).isPrefixOf (path.map toLowercase)

/-- The part of `path` below `tree`, in lower case. -/
def below (toLowercase : Text → Text) (path tree : Path) : Path :=
  (path.drop tree.length).map toLowercase

/-- A path as text. -/
def display (path : Path) : Text := List.intercalate ['\\'] path

/-- The states of a service. -/
inductive ServiceState where
  | stopped
  | startPending
  | stopPending
  | running
  | continuePending
  | pausePending
  | paused
  deriving DecidableEq

/-- `{:?}` of a state. -/
def ServiceState.debug : ServiceState → Text
  | stopped => "Stopped".toList
  | startPending => "StartPending".toList
  | stopPending => "StopPending".toList
  | running => "Running".toList
  | continuePending => "ContinuePending".toList
  | pausePending => "PausePending".toList
  | paused => "Paused".toList

/-- What `uninstall` finds and changes. -/
structure Computer where
  /-- The core service, if it is installed. -/
  service : Option ServiceState
  /-- The files of the install directory, as paths below it in lower case, if the directory
  exists. -/
  tree : Option (Finset Path)
  /-- Where the executable of the running setup is. -/
  image : Path
  startMenuShortcut : Bool
  desktopShortcut : Bool
  serviceData : Bool
  /-- What is deleted at the next reboot. -/
  scheduled : Option Path
  /-- The uninstall entry in the registry. -/
  arp : Bool
  /-- The service, each time program files were deleted. -/
  deletedWith : List (Option ServiceState)
  deriving DecidableEq

/-- An error, in the parts it is put together from. -/
inductive Failure where
  | of (error : TmError)
  /-- The program files could not be removed, nor the uninstaller put back if there is a second
  text. -/
  | removeProgramFiles (error : Text) (rollback : Option Text)
  deriving DecidableEq

/-- What comes before the error of a rollback. -/
def rollbackText : Text := "; could not restore uninstaller: ".toList

/-- A failure as it is reported. -/
def Failure.toTmError : Failure → TmError
  | of error => error
  | removeProgramFiles error none => .platform "remove program files".toList error
  | removeProgramFiles error (some rollback) =>
    .platform "remove program files".toList (error ++ rollbackText ++ rollback)

/-- A failure, with its context. -/
def err (context : String) (detail : Text) : Failure := .of (.platform context.toList detail)

/-- How a service stops. -/
inductive Wait where
  | stops
  | queryFails (error : Text)
  /-- It still is in this state when the time is over. -/
  | timesOut (state : ServiceState)
  deriving DecidableEq

/-- How the calls of one visit to the service manager go: each may fail with an error. -/
structure Manager where
  connect : Option Text
  openService : Option Text
  query : Option Text
  stop : Option Text
  wait : Wait
  delete : Option Text
  deriving DecidableEq

/-- How everything that may fail goes. -/
structure Outcomes where
  /-- `str::to_lowercase` -/
  toLowercase : Text → Text
  elevated : Bool
  resolveUser : Option TmError
  sid : Option TmError
  programFiles : Except TmError Path
  setupImage : Option TmError
  /-- `remove_task_manager_replacement_for_deleted_exe` -/
  replacement : Option TmError
  stopRunningGui : Option TmError
  /-- `stop_existing_service_before_copy` -/
  before : Manager
  /-- The helper cannot be started. -/
  spawn : Option Text
  /-- The helper's own visit. -/
  helper : Manager
  /-- The helper reports success if it did its work. -/
  exitsCleanly : Bool
  /-- What the helper prints. -/
  output : Text
  /-- `delete_service_fallback` -/
  fallback : Manager
  removesStartMenuShortcut : Bool
  removesDesktopShortcut : Bool
  currentPath : Option TmError
  createGuid : Except Text Text
  moveOut : Option Text
  /-- `remove_dir_all`: an error, and the files that are left then. -/
  removeDirAll : Option (Text × Finset Path)
  moveBack : Option Text
  /-- Why a file cannot be moved to a place that is taken, or to a directory that is gone. -/
  refused : Text
  removesServiceData : Bool
  schedules : Bool
  /-- `RegDeleteTreeW` -/
  regDeleteTree : ℕ

/-- A step of the setup: it changes the computer, and may fail. -/
abbrev Setup := EStateM Failure Computer

/-- A call that may fail. -/
def failing (error : Option Text) (context : String) : Setup Unit :=
  .orElseDone (error.map (err context))

/-- A function that may fail. -/
def checked (error : Option TmError) : Setup Unit := .orElseDone (error.map .of)

/-! ### The service -/

/-- The error for a service in between two states. -/
def busyText (state : ServiceState) : Text :=
  "service is busy in state ".toList ++ state.debug ++ "; retry shortly".toList

/-- The error for a service that does not stop. -/
def timedOutText (state : ServiceState) : Text :=
  "timed out waiting for service to stop (state ".toList ++ state.debug ++ [')']

/-- The loop that waits for the service to stop. -/
def waitForStop (manager : Manager) : Setup Unit :=
  match manager.wait with
  | .stops => modify fun s => { s with service := some .stopped }
  | .queryFails error => throw (err "query stopping core service" error)
  | .timesOut state => throw (err "upgrade core service" (timedOutText state))

/-- Stop the service, and wait until it has stopped. -/
def stopServiceForUpgrade (manager : Manager) (state : ServiceState) : Setup Unit :=
  if state = .stopped then return
  else if state ≠ .running ∧ state ≠ .stopPending then
    throw (err "upgrade core service" (busyText state))
  else if state = .running then do
    failing manager.stop "stop core service for upgrade"
    modify fun s => { s with service := some .stopPending }
    waitForStop manager
  else waitForStop manager

/-- Stop the service, if there is one. -/
def stopExistingServiceBeforeCopy (manager : Manager) : Setup Unit := do
  failing manager.connect "open service manager"
  failing manager.openService "open existing core service"
  match (← get).service with
  | none => return
  | some state =>
    failing manager.query "query existing core service"
    stopServiceForUpgrade manager state

/-- `uninstall` of the core service, in the helper. -/
def coreServiceUninstall (manager : Manager) : Setup Unit := do
  failing manager.connect "open service manager"
  failing manager.openService "open core service"
  match (← get).service with
  | none => return
  | some state =>
    failing manager.query "query core service before removal"
    stopServiceForUpgrade manager state
    failing manager.delete "delete core service"
    modify fun s => { s with service := none }

/-- What comes before the output of a helper that failed. -/
def helperFailedText : Text := "taskman --core-service=uninstall failed: ".toList

/-- Let the installed program delete the service. -/
def runCoreServiceHelper (o : Outcomes) : Setup Unit := do
  failing o.spawn "run core service helper"
  let error ← (coreServiceUninstall o.helper).attempt
  if error.isSome ∨ o.exitsCleanly = false then
    throw (err "core service helper" (helperFailedText ++ o.output))

/-- A service that runs is asked to stop, whether or not it does. -/
def deleteServiceFallback (manager : Manager) : Setup Unit := do
  failing manager.connect "open service manager"
  failing manager.openService "open core service"
  match (← get).service with
  | none => return
  | some state =>
    modify fun s =>
      if manager.query = none ∧ state ≠ .stopped ∧ state ≠ .stopPending ∧ manager.stop = none then
        { s with service := some .stopPending }
      else s
    failing manager.delete "delete core service"
    modify fun s => { s with service := none }

/-- The file is in the install directory. -/
def Computer.hasFile (toLowercase : Text → Text) (s : Computer) (name : Text) : Bool :=
  s.tree.any fun files => [toLowercase name] ∈ files

/-- Stop and delete the service. -/
def removeService (o : Outcomes) : Setup Unit := do
  stopExistingServiceBeforeCopy o.before
  if (← get).hasFile o.toLowercase APP_EXE then runCoreServiceHelper o
  else deleteServiceFallback o.fallback

/-! ### Shortcuts and files -/

/-- Remove the shortcuts; a failure is not reported. -/
def removeShortcuts (o : Outcomes) : Setup Unit :=
  modify fun s => { s with
    startMenuShortcut := s.startMenuShortcut && !o.removesStartMenuShortcut
    desktopShortcut := s.desktopShortcut && !o.removesDesktopShortcut }

/-- Setup is moved to `dest`. -/
def Computer.moveImage (toLowercase : Text → Text) (s : Computer) (installDir dest : Path) :
    Computer :=
  let files := if isWithin toLowercase s.image installDir then
    s.tree.map (Finset.erase · (below toLowercase s.image installDir)) else s.tree
  { s with
    tree := if isWithin toLowercase dest installDir then
      files.map (insert (below toLowercase dest installDir)) else files
    image := dest }

/-- `SetupImage::rename_to`; what exists is never replaced. -/
def renameTo (o : Outcomes) (installDir dest : Path) (error : Option Text) : Setup Unit := do
  let failed := fun error => err "move setup executable" (display dest ++ ": ".toList ++ error)
  .orElseDone (error.map failed)
  let taken := isWithin o.toLowercase dest installDir &&
    (← get).tree.all (below o.toLowercase dest installDir ∈ ·)
  .orElseDone (if taken then some (failed o.refused) else none)
  modify (·.moveImage o.toLowercase installDir dest)

/-- The name the running setup is moved away to. -/
def orphanName (guid : Text) : Text :=
  ".TaskMan-setup-orphan-".toList ++ guid ++ ".exe".toList

/-- The place setup was moved to, if it ran from the install directory. -/
def relocateSelfOutOf (o : Outcomes) (installDir : Path) : Setup (Option Path) := do
  checked o.currentPath
  if isWithin o.toLowercase (← get).image installDir then
    let guid ← .ofExcept (o.createGuid.mapError (err "relocate setup executable"))
    let dest := installDir.dropLast ++ [orphanName guid]
    renameTo o installDir dest o.moveOut
    return some dest
  else return none

/-- `restore_setup_image` of setup that was moved; why it could not be put back. -/
def rollback (o : Outcomes) (installDir : Path) : Option Path → Setup (Option Failure)
  | some _ => (renameTo o installDir (installDir ++ [SETUP_EXE]) o.moveBack).attempt
  | none => return none

/-- Removes the directory; if that fails, setup goes back where it was. -/
def removeInstallDir (o : Outcomes) (installDir : Path) (orphan : Option Path) : Setup Unit :=
  match o.removeDirAll with
  | some (error, left) => do
    modify fun s => { s with
      tree := s.tree.map (· ∩ left), deletedWith := s.deletedWith ++ [s.service] }
    let lost ← rollback o installDir orphan
    throw (.removeProgramFiles error (lost.map fun e => e.toTmError.display))
  | none => modify fun s => { s with tree := none, deletedWith := s.deletedWith ++ [s.service] }

/-- The service data, and setup where it was moved to, if they can be removed. -/
def cleanUp (o : Outcomes) (orphan : Option Path) : Setup Unit :=
  modify fun s => { s with
    serviceData := s.serviceData && !o.removesServiceData
    scheduled := if orphan.isSome && o.schedules then orphan else s.scheduled }

/-- The install directory if it is there, and what is left elsewhere. -/
def removeProgramFiles (o : Outcomes) (installDir : Path) (orphan : Option Path) : Setup Unit := do
  if (← get).tree.isSome then
    removeInstallDir o installDir orphan
    cleanUp o orphan
  else cleanUp o orphan

/-- An entry that is missing is no failure. -/
def removeArp (o : Outcomes) : Setup Unit :=
  if o.regDeleteTree = 0 ∨ o.regDeleteTree = 2 then modify fun s => { s with arp := false }
  else throw (err "remove uninstall registry key"
    ("win32 error ".toList ++ Nat.toDigits 10 o.regDeleteTree))

/-! ### Uninstalling -/

/-- The directory the program is installed in. -/
def Outcomes.installDir (o : Outcomes) : Except TmError Path :=
  o.programFiles.map (· ++ [INSTALL_DIR_NAME])

/-- The error without administrator rights. -/
def notElevatedText : Text :=
  "administrator rights are required to uninstall Task Manager".toList

/-- The steps before the program files are removed; the install directory, and where setup was
moved to. -/
def prepare (o : Outcomes) : Setup (Path × Option Path) := do
  .orElseDone (if o.elevated then none else some (err "uninstall" notElevatedText))
  checked o.resolveUser
  checked o.sid
  let installDir ← .ofExcept (o.installDir.mapError .of)
  checked o.setupImage
  checked o.replacement
  checked o.stopRunningGui
  removeService o
  removeShortcuts o
  let orphan ← relocateSelfOutOf o installDir
  return (installDir, orphan)

/-- The whole uninstallation. -/
def uninstall (o : Outcomes) : Setup Unit := do
  let (installDir, orphan) ← prepare o
  removeProgramFiles o installDir orphan
  removeArp o

/-! ### What is promised -/

/-- The error says that the uninstaller could not be put back. -/
def Failure.reportsLost : Failure → Bool
  | removeProgramFiles _ (some _) => true
  | _ => false

/-- After a failure the entry is still there, and the executable it names too. -/
structure Kept (o : Outcomes) (s : Computer) (e : Failure) (s' : Computer) : Prop where
  entry : s.arp = true → s'.arp = true
  executable : s.arp = true → s.hasFile o.toLowercase SETUP_EXE = true →
    s'.hasFile o.toLowercase SETUP_EXE = true ∨ e.reportsLost = true

/-- Nothing is left. -/
structure Gone (s' : Computer) : Prop where
  service : s'.service = none
  files : s'.tree = none
  entry : s'.arp = false

/-- Program files were deleted only after the service was removed. -/
def ServiceFirst (s s' : Computer) : Prop :=
  ∃ times, s'.deletedWith = s.deletedWith ++ times ∧ ∀ service ∈ times, service = none

/-- What an uninstall promises. -/
def Promised (o : Outcomes) (s : Computer) : Prop :=
  (uninstall o).Yields s (fun _ s' => Gone s' ∧ ServiceFirst s s')
    fun e s' => Kept o s e s' ∧ ServiceFirst s s'

/-- No step before the removal of the program files fails. -/
def Reaches (o : Outcomes) (s : Computer) : Prop :=
  (prepare o).Yields s (fun _ _ => True) fun _ _ => False

/-- Setup runs from the install directory. -/
def RunsInside (o : Outcomes) (s : Computer) : Prop :=
  ∃ installDir, o.installDir = .ok installDir ∧ isWithin o.toLowercase s.image installDir = true

/-- If there is something to lose and the program files are about to be removed: a removal that
fails finds setup in the install directory or leaves its executable, and after one that succeeds the
entry is removed. -/
def Restorable (o : Outcomes) (s : Computer) : Prop :=
  s.arp = true → s.hasFile o.toLowercase SETUP_EXE = true → Reaches o s →
    match o.removeDirAll with
    | some (_, left) => RunsInside o s ∨ [o.toLowercase SETUP_EXE] ∈ left
    | none => o.regDeleteTree = 0 ∨ o.regDeleteTree = 2

/-! ### Before the program files are removed -/

/-- What the steps before the removal leave alone. -/
def Computer.files (s : Computer) :
    Option (Finset Path) × Path × Bool × List (Option ServiceState) :=
  (s.tree, s.image, s.arp, s.deletedWith)

section Service

theorem keeps_failing (error : Option Text) (context : String) :
    EStateM.Keeps Computer.files (failing error context) :=
  .orElseDone _

theorem keeps_checked (error : Option TmError) :
    EStateM.Keeps Computer.files (checked error) :=
  .orElseDone _

theorem keeps_waitForStop (manager : Manager) :
    EStateM.Keeps Computer.files (waitForStop manager) := by
  unfold waitForStop
  split
  · exact .modify fun _ => rfl
  · exact .throw _
  · exact .throw _

theorem keeps_stopServiceForUpgrade (manager : Manager) (state : ServiceState) :
    EStateM.Keeps Computer.files (stopServiceForUpgrade manager state) := by
  unfold stopServiceForUpgrade
  split
  · exact .pure _
  · split
    · exact .throw _
    · split
      · refine (keeps_failing _ _).bind fun _ => ?_
        refine EStateM.Keeps.bind ?_ fun _ => keeps_waitForStop manager
        exact .modify fun _ => rfl
      · exact keeps_waitForStop manager

theorem keeps_stopExistingServiceBeforeCopy (manager : Manager) :
    EStateM.Keeps Computer.files (stopExistingServiceBeforeCopy manager) := by
  unfold stopExistingServiceBeforeCopy
  refine (keeps_failing _ _).bind fun _ => (keeps_failing _ _).bind fun _ => ?_
  refine EStateM.Keeps.get.bind fun s => ?_
  split
  · exact .pure _
  · exact (keeps_failing _ _).bind fun _ => keeps_stopServiceForUpgrade manager _

theorem keeps_coreServiceUninstall (manager : Manager) :
    EStateM.Keeps Computer.files (coreServiceUninstall manager) := by
  unfold coreServiceUninstall
  refine (keeps_failing _ _).bind fun _ => (keeps_failing _ _).bind fun _ => ?_
  refine EStateM.Keeps.get.bind fun s => ?_
  split
  · exact .pure _
  · refine (keeps_failing _ _).bind fun _ => ?_
    refine (keeps_stopServiceForUpgrade manager _).bind fun _ => ?_
    exact (keeps_failing _ _).bind fun _ => .modify fun _ => rfl

theorem keeps_runCoreServiceHelper (o : Outcomes) :
    EStateM.Keeps Computer.files (runCoreServiceHelper o) := by
  unfold runCoreServiceHelper
  refine (keeps_failing _ _).bind fun _ => ?_
  refine (keeps_coreServiceUninstall _).attempt.bind fun error => ?_
  split
  · exact .throw _
  · exact .pure _

theorem keeps_deleteServiceFallback (manager : Manager) :
    EStateM.Keeps Computer.files (deleteServiceFallback manager) := by
  unfold deleteServiceFallback
  refine (keeps_failing _ _).bind fun _ => (keeps_failing _ _).bind fun _ => ?_
  refine EStateM.Keeps.get.bind fun s => ?_
  split
  · exact .pure _
  · refine (EStateM.Keeps.modify fun s => ?_).bind fun _ => ?_
    · split <;> rfl
    · exact (keeps_failing _ _).bind fun _ => .modify fun _ => rfl

theorem keeps_removeService (o : Outcomes) :
    EStateM.Keeps Computer.files (removeService o) := by
  unfold removeService
  refine (keeps_stopExistingServiceBeforeCopy _).bind fun _ => EStateM.Keeps.get.bind fun s => ?_
  split
  · exact keeps_runCoreServiceHelper o
  · exact keeps_deleteServiceFallback _

/-- What removes the service without an error has removed it. -/
theorem removed_coreServiceUninstall (manager : Manager) (s : Computer) :
    (coreServiceUninstall manager).Yields s (fun _ s' => s'.service = none) fun _ _ => True := by
  unfold coreServiceUninstall
  refine EStateM.yields_bind_of_last fun _ t => EStateM.yields_bind_of_last fun _ t => ?_
  rw [EStateM.yields_bind, EStateM.yields_get]
  split
  · next hservice => exact hservice
  · refine EStateM.yields_bind_of_last fun _ t => EStateM.yields_bind_of_last fun _ t => ?_
    exact EStateM.yields_bind_of_last fun _ t => rfl

theorem removed_runCoreServiceHelper (o : Outcomes) (s : Computer) :
    (runCoreServiceHelper o).Yields s (fun _ s' => s'.service = none) fun _ _ => True := by
  unfold runCoreServiceHelper
  refine EStateM.yields_bind_of_last fun _ t => ?_
  rw [EStateM.yields_bind, EStateM.yields_attempt]
  refine (removed_coreServiceUninstall o.helper t).mono (fun _ t ht => ?_) fun _ t _ => ?_
  · split
    · exact trivial
    · exact ht
  · exact trivial

theorem removed_deleteServiceFallback (manager : Manager) (s : Computer) :
    (deleteServiceFallback manager).Yields s (fun _ s' => s'.service = none) fun _ _ => True := by
  unfold deleteServiceFallback
  refine EStateM.yields_bind_of_last fun _ t => EStateM.yields_bind_of_last fun _ t => ?_
  rw [EStateM.yields_bind, EStateM.yields_get]
  split
  · next hservice => exact hservice
  · refine EStateM.yields_bind_of_last fun _ t => EStateM.yields_bind_of_last fun _ t => ?_
    rfl

theorem removed_removeService (o : Outcomes) (s : Computer) :
    (removeService o).Yields s (fun _ s' => s'.service = none) fun _ _ => True := by
  unfold removeService
  refine EStateM.yields_bind_of_last fun _ t => EStateM.yields_bind_of_last fun _ t => ?_
  split
  · exact removed_runCoreServiceHelper o t
  · exact removed_deleteServiceFallback o.fallback t

end Service

/-! ### Where setup is -/

section Move

variable {s : Computer} {o : Outcomes} {installDir dest : Path}

theorem isSome_moveImage :
    (s.moveImage o.toLowercase installDir dest).tree.isSome = s.tree.isSome := by
  unfold Computer.moveImage
  dsimp only
  split <;> split <;> simp

/-- Where setup is moved to a directory that is there, it is there then. -/
theorem hasFile_moveImage {name : Text} (htree : s.tree.isSome = true) :
    (s.moveImage o.toLowercase installDir (installDir ++ [name])).hasFile o.toLowercase name =
      true := by
  have hwithin : isWithin o.toLowercase (installDir ++ [name]) installDir = true := by
    rw [isWithin, List.isPrefixOf_iff_prefix, List.map_append]
    exact List.prefix_append _ _
  have hbelow : below o.toLowercase (installDir ++ [name]) installDir = [o.toLowercase name] := by
    rw [below, List.drop_left, List.map_singleton]
  obtain ⟨files, hfiles⟩ := Option.isSome_iff_exists.mp htree
  unfold Computer.hasFile Computer.moveImage
  dsimp only
  rw [if_pos hwithin, hfiles, hbelow]
  split <;> simp

theorem renameTo_yields (error : Option Text) :
    (renameTo o installDir dest error).Yields s
      (fun _ s' => s' = s.moveImage o.toLowercase installDir dest) fun _ s' => s' = s := by
  unfold renameTo
  simp only [EStateM.yields_bind, EStateM.yields_orElseDone, EStateM.yields_get,
    EStateM.yields_modify]
  exact ⟨fun _ => ⟨fun _ => trivial, fun _ _ => trivial⟩, fun _ _ => trivial⟩

/-- Setup is moved out exactly if it is in the install directory. -/
theorem relocateSelfOutOf_yields :
    (relocateSelfOutOf o installDir).Yields s
      (fun orphan s' => (orphan.isSome = true ↔ isWithin o.toLowercase s.image installDir = true) ∧
        (s' = s ∨ orphan.isSome = true ∧ ∃ dest, s' = s.moveImage o.toLowercase installDir dest))
      fun _ s' => s' = s := by
  unfold relocateSelfOutOf
  simp only [checked, EStateM.yields_bind, EStateM.yields_orElseDone, EStateM.yields_get]
  refine ⟨fun _ => ?_, fun _ _ => trivial⟩
  split
  · next hwithin =>
    rw [EStateM.yields_bind, EStateM.yields_ofExcept]
    refine ⟨fun guid _ => ?_, fun _ _ => rfl⟩
    rw [EStateM.yields_bind]
    refine (renameTo_yields o.moveOut).mono (fun _ t ht => ?_) fun _ _ ht => ht
    exact ⟨iff_of_true rfl hwithin, .inr ⟨rfl, _, ht⟩⟩
  · next hwithin => exact ⟨iff_of_false Bool.false_ne_true hwithin, .inl rfl⟩

end Move

/-! ### Up to the removal -/

/-- Where the removal of the program files starts, after a run from `s`. -/
structure Prepared (o : Outcomes) (s : Computer) (installDir : Path) (orphan : Option Path)
    (s' : Computer) : Prop where
  service : s'.service = none
  tree : s'.tree.isSome = s.tree.isSome
  arp : s'.arp = s.arp
  deletedWith : s'.deletedWith = s.deletedWith
  moved : orphan.isSome = true ↔ isWithin o.toLowercase s.image installDir = true
  /-- Setup that is elsewhere leaves the files alone. -/
  files : orphan = none → s'.tree = s.tree

theorem prepare_yields (o : Outcomes) (s : Computer) :
    (prepare o).Yields s (fun r s' => o.installDir = .ok r.1 ∧ Prepared o s r.1 r.2 s')
      fun _ s' => s'.files = s.files := by
  unfold prepare
  simp only [checked, EStateM.yields_bind, EStateM.yields_orElseDone, EStateM.yields_ofExcept,
    EStateM.yields_pure]
  refine ⟨fun _ => ⟨fun _ => ⟨fun _ => ⟨fun installDir hdir => ⟨fun _ => ⟨fun _ => ⟨fun _ => ?_,
    fun _ _ => trivial⟩, fun _ _ => trivial⟩, fun _ _ => trivial⟩, fun _ _ => trivial⟩,
    fun _ _ => trivial⟩, fun _ _ => trivial⟩, fun _ _ => trivial⟩
  have hinstallDir : o.installDir = .ok installDir := by
    cases hcase : o.installDir with
    | ok dir =>
      rw [hcase] at hdir
      simpa only [Except.mapError, Except.ok.injEq] using hdir
    | error e =>
      rw [hcase] at hdir
      cases hdir
  refine ((keeps_removeService o s).and (removed_removeService o s)).mono ?_ fun _ t ht => ht.1
  rintro _ t ⟨hkept, hservice⟩
  simp only [Computer.files, Prod.mk.injEq] at hkept
  obtain ⟨htree, himage, harp, hdeleted⟩ := hkept
  unfold removeShortcuts
  rw [EStateM.yields_modify]
  refine relocateSelfOutOf_yields.mono (fun orphan u hu => ⟨hinstallDir, ?_⟩) fun _ u hu => ?_
  · obtain ⟨hmoved, hu⟩ := hu
    rw [himage] at hmoved
    rcases hu with rfl | ⟨hsome, dest, rfl⟩
    · exact ⟨hservice, congrArg _ htree, harp, hdeleted, hmoved, fun _ => htree⟩
    · refine ⟨hservice, isSome_moveImage.trans (congrArg _ htree), harp, hdeleted, hmoved, ?_⟩
      rintro rfl
      cases hsome
  · rw [hu]
    simp only [Computer.files, htree, himage, harp, hdeleted]

/-! ### The removal -/

section Removal

variable {s t : Computer} {o : Outcomes} {installDir : Path} {orphan : Option Path}

/-- Both parts of what is promised of a run. -/
theorem removeArp_yields (hservice : t.service = none) (htree : t.tree = none)
    (hfirst : ServiceFirst s t) (harp : t.arp = s.arp) :
    (removeArp o).Yields t (fun _ s' => Gone s' ∧ ServiceFirst s s')
        (fun e s' => Kept o s e s' ∧ ServiceFirst s s') ↔
      (s.arp = true → s.hasFile o.toLowercase SETUP_EXE = true →
        o.regDeleteTree = 0 ∨ o.regDeleteTree = 2) := by
  unfold removeArp
  split
  · next hstatus =>
    refine iff_of_true ?_ fun _ _ => hstatus
    exact ⟨⟨hservice, htree, rfl⟩, hfirst⟩
  · next hstatus =>
    rw [EStateM.yields_throw]
    constructor
    · rintro ⟨hkept, -⟩ hentry hfile
      rcases hkept.executable hentry hfile with hthere | hreports
      · rw [Computer.hasFile, htree] at hthere
        cases hthere
      · cases hreports
    · intro hstill
      refine ⟨⟨fun hentry => harp.trans hentry, fun hentry hfile => ?_⟩, hfirst⟩
      exact absurd (hstill hentry hfile) hstatus

theorem Prepared.serviceFirst (h : Prepared o s installDir orphan t) : ServiceFirst s t :=
  ⟨[], by rw [h.deletedWith, List.append_nil], nofun⟩

theorem Prepared.serviceFirst_delete (h : Prepared o s installDir orphan t)
    (tree : Option (Finset Path)) :
    ServiceFirst s { t with tree, deletedWith := t.deletedWith ++ [t.service] } := by
  refine ⟨[t.service], by rw [h.deletedWith], ?_⟩
  rintro _ hmem
  rw [List.mem_singleton.mp hmem]
  exact h.service

/-- A removal that fails leaves the executable where setup is put back or it was not deleted. -/
theorem removeInstallDir_yields_error (h : Prepared o s installDir orphan t)
    (htree : t.tree.isSome = true) {error : Text} {left : Finset Path}
    (hfails : o.removeDirAll = some (error, left)) {Q : Unit → Computer → Prop} :
    (removeInstallDir o installDir orphan).Yields t Q
        (fun e s' => Kept o s e s' ∧ ServiceFirst s s') ↔
      (s.arp = true → s.hasFile o.toLowercase SETUP_EXE = true →
        isWithin o.toLowercase s.image installDir = true ∨ [o.toLowercase SETUP_EXE] ∈ left) := by
  unfold removeInstallDir
  rw [hfails]
  simp only [EStateM.yields_bind, EStateM.yields_modify, EStateM.yields_throw]
  have hfirst := h.serviceFirst_delete (t.tree.map (· ∩ left))
  cases orphan with
  | none =>
    -- the running setup was not moved, so nothing is rolled back
    have hout : ¬ isWithin o.toLowercase s.image installDir = true :=
      fun hin => by cases h.moved.mpr hin
    rw [rollback, EStateM.yields_pure]
    have hleft : s.hasFile o.toLowercase SETUP_EXE = true →
        (Computer.hasFile o.toLowercase { t with
          tree := t.tree.map (· ∩ left), deletedWith := t.deletedWith ++ [t.service] }
          SETUP_EXE = true ↔ [o.toLowercase SETUP_EXE] ∈ left) := by
      intro hfile
      rw [Computer.hasFile, ← h.files rfl] at hfile
      obtain ⟨files, hfiles⟩ := Option.isSome_iff_exists.mp htree
      rw [hfiles] at hfile
      simp only [Option.any_some, decide_eq_true_eq] at hfile
      simp [Computer.hasFile, hfiles, hfile]
    constructor
    · rintro ⟨hkept, -⟩ hentry hfile
      rcases hkept.executable hentry hfile with hthere | hreports
      · exact .inr ((hleft hfile).mp hthere)
      · cases hreports
    · intro hstill
      refine ⟨⟨fun hentry => h.arp.trans hentry, fun hentry hfile => ?_⟩, hfirst⟩
      exact .inl ((hleft hfile).mpr ((hstill hentry hfile).resolve_left hout))
  | some dest =>
    -- the running setup was moved out and is moved back
    have hin : isWithin o.toLowercase s.image installDir = true := h.moved.mp rfl
    refine iff_of_true ?_ fun _ _ => .inl hin
    rw [rollback, EStateM.yields_attempt]
    refine (renameTo_yields o.moveBack).mono ?_ ?_
    · rintro _ u rfl
      refine ⟨⟨fun hentry => h.arp.trans hentry, fun _ _ => .inl ?_⟩, hfirst⟩
      exact hasFile_moveImage (by simpa using htree)
    · rintro e u rfl
      exact ⟨⟨fun hentry => h.arp.trans hentry, fun _ _ => .inr rfl⟩, hfirst⟩

/-- What is promised of the removal, where the steps before it have succeeded. -/
theorem removal_yields (h : Prepared o s installDir orphan t) :
    (removeProgramFiles o installDir orphan >>= fun _ => removeArp o).Yields t
        (fun _ s' => Gone s' ∧ ServiceFirst s s') (fun e s' => Kept o s e s' ∧ ServiceFirst s s') ↔
      (s.arp = true → s.hasFile o.toLowercase SETUP_EXE = true →
        match o.removeDirAll with
        | some (_, left) =>
          isWithin o.toLowercase s.image installDir = true ∨ [o.toLowercase SETUP_EXE] ∈ left
        | none => o.regDeleteTree = 0 ∨ o.regDeleteTree = 2) := by
  unfold removeProgramFiles
  simp only [EStateM.yields_bind, EStateM.yields_get]
  split
  · next htree =>
    rw [EStateM.yields_bind]
    cases hremoval : o.removeDirAll with
    | some failure => exact removeInstallDir_yields_error h htree hremoval
    | none =>
      unfold removeInstallDir
      rw [hremoval, EStateM.yields_modify]
      exact removeArp_yields h.service rfl (h.serviceFirst_delete none) h.arp
  · next htree =>
    have hnone : t.tree = none := Option.not_isSome_iff_eq_none.mp htree
    have hmissing : s.hasFile o.toLowercase SETUP_EXE = false := by
      have hbefore : s.tree = none := by
        rw [← Option.not_isSome_iff_eq_none, ← h.tree, hnone]
        exact Bool.false_ne_true
      rw [Computer.hasFile, hbefore, Option.any_none]
    refine iff_of_true ?_ fun _ hfile => absurd hfile (by rw [hmissing]; exact Bool.false_ne_true)
    unfold cleanUp
    rw [EStateM.yields_modify]
    refine (removeArp_yields ?_ ?_ ?_ ?_).mpr fun _ hfile => ?_
    · exact h.service
    · exact hnone
    · exact h.serviceFirst
    · exact h.arp
    · exact absurd hfile (by rw [hmissing]; exact Bool.false_ne_true)

end Removal

/-! ### The whole uninstall -/

/-- **A failed uninstall leaves an entry that works, and a successful one leaves nothing, exactly
where what it may lose can be put back.** -/
theorem promised_iff (o : Outcomes) (s : Computer) : Promised o s ↔ Restorable o s := by
  have hprepare := prepare_yields o s
  rw [EStateM.yields_iff] at hprepare
  cases hrun : prepare o s with
  | ok r t =>
    obtain ⟨hdir, hprep⟩ := hprepare.1 r t hrun
    have hreaches : Reaches o s := by rw [Reaches, EStateM.yields_of_ok hrun]; trivial
    have hinside : RunsInside o s ↔ isWithin o.toLowercase s.image r.1 = true := by
      constructor
      · rintro ⟨installDir, hother, hwithin⟩
        cases hdir.symm.trans hother
        exact hwithin
      · exact fun hwithin => ⟨r.1, hdir, hwithin⟩
    rw [Promised, uninstall, EStateM.yields_bind, EStateM.yields_of_ok hrun]
    rw [removal_yields hprep, Restorable]
    refine forall₂_congr fun _ _ => ?_
    rw [forall_prop_of_true hreaches]
    cases o.removeDirAll with
    | none => exact Iff.rfl
    | some failure => exact or_congr_left hinside.symm
  | error e t =>
    have hkept := hprepare.2 e t hrun
    simp only [Computer.files, Prod.mk.injEq] at hkept
    obtain ⟨htree, -, harp, hdeleted⟩ := hkept
    refine iff_of_true ?_ fun _ _ hreaches => ?_
    · rw [Promised, uninstall, EStateM.yields_bind, EStateM.yields_of_error hrun]
      refine ⟨⟨fun hentry => harp.trans hentry, fun _ hfile => .inl ?_⟩, [], ?_, nofun⟩
      · rwa [Computer.hasFile, htree]
      · rw [hdeleted, List.append_nil]
    · rw [Reaches, EStateM.yields_of_error hrun] at hreaches
      exact hreaches.elim

/-! ### An entry without its executable -/

/-- Every call succeeds. -/
def allSucceed : Outcomes where
  toLowercase := Text.toAsciiLowercase
  elevated := true
  resolveUser := none
  sid := none
  programFiles := .ok ["c:".toList, "program files".toList]
  setupImage := none
  replacement := none
  stopRunningGui := none
  before := ⟨none, none, none, none, .stops, none⟩
  spawn := none
  helper := ⟨none, none, none, none, .stops, none⟩
  exitsCleanly := true
  output := []
  fallback := ⟨none, none, none, none, .stops, none⟩
  removesStartMenuShortcut := true
  removesDesktopShortcut := true
  currentPath := none
  createGuid := .ok "guid".toList
  moveOut := none
  removeDirAll := none
  moveBack := none
  refused := []
  removesServiceData := true
  schedules := true
  regDeleteTree := 0

/-- `remove_dir_all` meets a file that is in use, after it has deleted setup. -/
def fileInUse : Outcomes :=
  { allSucceed with removeDirAll := some ("in use".toList, {[APP_EXE]}) }

/-- The registry key cannot be deleted. -/
def keyInUse : Outcomes :=
  { allSucceed with regDeleteTree := 5 }

/-- Task Manager is installed, and setup was started from elsewhere. -/
def startedFromDownloads : Computer where
  service := some .running
  tree := some {[APP_EXE], [SETUP_EXE]}
  image := ["c:".toList, "downloads".toList, SETUP_EXE]
  startMenuShortcut := true
  desktopShortcut := false
  serviceData := true
  scheduled := none
  arp := true
  deletedWith := []

/-- The same, and setup was started from the install directory. -/
def startedFromEntry : Computer :=
  { startedFromDownloads with
    image := ["c:".toList, "program files".toList, INSTALL_DIR_NAME, SETUP_EXE] }

/-- The uninstall fails and leaves the entry without its executable, and does not say so. -/
theorem not_promised_startedFromDownloads :
    ¬ Promised fileInUse startedFromDownloads ∧ ¬ Promised keyInUse startedFromEntry := by
  have hlost : ∀ {o s}, s.arp = true → s.hasFile o.toLowercase SETUP_EXE = true →
      (uninstall o).Yields s (fun _ _ => False)
        (fun e s' => s'.hasFile o.toLowercase SETUP_EXE = false ∧ e.reportsLost = false) →
      ¬ Promised o s := by
    intro o s hentry hfile hlost hpromised
    rw [EStateM.yields_iff] at hlost
    rw [Promised, EStateM.yields_iff] at hpromised
    cases hrun : uninstall o s with
    | ok _ s' => exact hlost.1 _ _ hrun
    | error e s' =>
      obtain ⟨hgone, hsilent⟩ := hlost.2 e s' hrun
      rcases (hpromised.2 e s' hrun).1.executable hentry hfile with hthere | hreports
      · exact Bool.false_ne_true (hgone.symm.trans hthere)
      · exact Bool.false_ne_true (hsilent.symm.trans hreports)
  exact ⟨hlost rfl (by decide +kernel) (by decide +kernel),
    hlost rfl (by decide +kernel) (by decide +kernel)⟩

end Taskman.Uninstall
