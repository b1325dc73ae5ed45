import Taskman.Core.Model
import Taskman.Platform.ProcessOps.Tree

/-!
# Ending a process and its tree

`kill_process_excluding` pins the root through a handle, reads the process table, makes sure the
root's pid has not changed hands meanwhile, and then terminates the tree from its leaves up, the
root last.  What Windows answers is an environment.  A kill is modelled with the list of the
processes it attempts to terminate, in the order it attempts them.

* `System` : the answers of Windows, and `Handle` for what is asked through a handle;
* `killProcessExcluding` : the kill;
* `Pinned` : the root was verified, before and after a table was read;
* `attempted_of_pinned`, `attempted_of_not_pinned` : **what a kill attempts**;
* `kill_tree_exact` : **a tree kill hits exactly the tree**.
-/

namespace Taskman.ProcessOps

/-! ### The environment -/

/-- The errors of Windows that the code tells apart. -/
inductive Win32Code where
  | accessDenied
  | invalidParameter
  | other (code : ℕ)
  deriving DecidableEq

/-- An error of the system, and its text. -/
structure Win32Error where
  code : Win32Code
  text : Text
  deriving DecidableEq

/-- What the process behind an open handle answers. -/
structure Handle where
  /-- `GetProcessTimes`: the raw creation time. -/
  creation : Option UInt64
  /-- `IsProcessCritical`. -/
  critical : Except Win32Error Bool
  /-- `TerminateProcess`. -/
  terminate : Except Win32Error Unit
  /-- `GetExitCodeProcess`, asked after a failed termination. -/
  exitCode : Option ℕ

/-- The moments at which a kill opens a process. -/
inductive Moment where
  /-- The root, before the table is read. -/
  | pin
  /-- The root's pid again, after the table was read. -/
  | verify
  /-- A process to terminate at once. -/
  | terminate
  deriving DecidableEq

/-- What the system answers to the calls of a termination. -/
structure System where
  /-- `std::process::id()`. -/
  ownPid : ℕ
  /-- `OpenProcess`. -/
  osOpen : Moment → ℕ → Except Win32Error Handle
  /-- `process_tree_snapshot()`. -/
  snapshot : Option (List TreeLink)

/-! ### Identity -/

/-- Raw `FILETIME` to the Unix seconds every identity check compares. -/
def filetimeToEpoch (raw : UInt64) : Option ℤ :=
  let seconds := (raw.toNat - 116444736000000000) / 10000000
  if seconds < 2 ^ 63 then some seconds else none

/-- Every creation time fits an `i64` of seconds. -/
theorem filetimeToEpoch_isSome (raw : UInt64) : ∃ seconds, filetimeToEpoch raw = some seconds := by
  have hraw := raw.toNat_lt
  have hlt : (raw.toNat - 116444736000000000) / 10000000 < 2 ^ 63 := by omega
  exact ⟨_, if_pos hlt⟩

/-- A process was created at the expected second. -/
def creationMatches (expected : ℤ) : Option ℤ → Bool
  | some actual => actual = expected
  | none => false

/-- `open_process`. -/
def openProcess (sys : System) (at_ : Moment) (pid : ℕ) : Except TmError Handle :=
  match sys.osOpen at_ pid with
  | .ok handle => .ok handle
  | .error e =>
    if e.code = .invalidParameter then .error (.processNotFound pid)
    else .error (.platform "OpenProcess".toList e.text)

/-- Open a process that was created at the expected second. -/
def openProcessVerified (sys : System) (at_ : Moment) (pid : ℕ) (expected : Option ℤ) :
    Except TmError Handle := do
  let handle ← openProcess sys at_ pid
  match expected with
  | some expected =>
    if creationMatches expected (handle.creation.bind filetimeToEpoch) then return handle
    else throw (.processNotFound pid)
  | none => return handle

/-- Refuse a process that the system needs. -/
def refuseCriticalHandle (pid : ℕ) (process : Handle) : Except TmError Unit :=
  if pid ≤ 4 then
    .error (.platform "process safety".toList "system process is protected".toList)
  else
    match process.critical with
    | .error e => .error (.platform "IsProcessCritical".toList e.text)
    | .ok true =>
      .error (.platform "process safety".toList "critical Windows process is protected".toList)
    | .ok false => .ok ()

/-- Open and identity-check the handle that performs a destructive action. -/
def openDestructiveProcessVerified (sys : System) (at_ : Moment) (pid : ℕ)
    (expected : Option ℤ) : Except TmError Handle := do
  let process ← openProcessVerified sys at_ pid expected
  refuseCriticalHandle pid process
  return process

/-- The pid still belongs to the process that was opened. -/
def verifyPidStillRefersTo (sys : System) (pid : ℕ) (openedCreation : Option UInt64) :
    Except TmError Unit := do
  let current ← openProcess sys .verify pid
  match openedCreation with
  | none => throw (.processNotFound pid)
  | some opened =>
    if current.creation = some opened then return () else throw (.processNotFound pid)

/-! ### Termination -/

/-- The exit code of a process that has not exited. -/
def stillActive : ℕ := 259

/-- End a process that is open. -/
def terminateHandle (process : Handle) : Except TmError Unit :=
  match process.terminate with
  | .ok () => .ok ()
  | .error e =>
    -- the process has exited already, or is exiting
    if process.exitCode.any fun code => code ≠ stillActive then .ok ()
    else
      let message := if e.code = .accessDenied then
          e.text ++ (" (process may be a zombie stuck in kernel/driver teardown, " ++
            "contains protected driver threads, or is blocked by security software; " ++
            "unkillable from user mode even as SYSTEM)").toList
        else e.text
      .error (.platform "TerminateProcess".toList message)

/-- End a process that was created at the expected second. -/
def terminateVerified (sys : System) (pid : ℕ) (expected : Option ℤ) : Except TmError Unit := do
  let handle ← openDestructiveProcessVerified sys .terminate pid expected
  terminateHandle handle

/-- Every descendant of `root` with its creation time in Unix seconds, in the order of the search;
nothing when the process table could not be read. -/
def collectChildrenWithBirths (sys : System) (root : ℕ) (rootBirth : UInt64) :
    Option (List (ℕ × Option ℤ)) := do
  let table ← sys.snapshot
  return (descendants root rootBirth table).map fun link =>
    (link.pid, filetimeToEpoch link.createTime)

/-- What a kill returns, and the processes it attempted to terminate, in order. -/
structure Outcome where
  result : Except TmError Unit
  attempted : List ℕ

/-- What the loop over the children keeps: the first error, and the attempts. -/
structure Progress where
  err : Option TmError := none
  attempted : List ℕ := []

/-- A child that is gone is the goal of the action; the first other error is kept. -/
def Progress.note (s : Progress) : Except TmError Unit → Option TmError
  | .ok () => s.err
  | .error (.processNotFound _) => s.err
  | .error e => s.err.or (some e)

/-- One turn of the loop over the children. -/
def killChild (sys : System) (protectedPid : Option ℕ) (s : Progress) (child : ℕ × Option ℤ) :
    Progress :=
  if child.1 = sys.ownPid ∨ protectedPid = some child.1 then s
  else
    match child.2 with
    | some birth =>
      { err := s.note (terminateVerified sys child.1 (some birth)),
        attempted := s.attempted ++ [child.1] }
    | none =>
      { s with err := s.note (.error (.platform "terminate process tree".toList
          ("could not establish the creation time of child process ".toList ++
            Nat.toDigits 10 child.1))) }

/-- End a process, or its tree without one protected process. -/
def killProcessExcluding (sys : System) (pid : ℕ) (expected : Option ℤ) (tree : Bool)
    (protectedPid : Option ℕ) : Outcome :=
  if tree = false then { result := terminateVerified sys pid expected, attempted := [pid] }
  else
    match openDestructiveProcessVerified sys .pin pid expected with
    | .error e => { result := .error e, attempted := [] }
    | .ok root =>
      let children := root.creation.bind fun birth => collectChildrenWithBirths sys pid birth
      match verifyPidStillRefersTo sys pid root.creation with
      | .error e => { result := .error e, attempted := [] }
      | .ok () =>
        match children with
        | none =>
          { result := .error (.platform "terminate process tree".toList
              "could not enumerate the process tree".toList),
            attempted := [] }
        | some children =>
          -- leaves first: the search lists them last
          let loop := children.reverse.foldl (killChild sys protectedPid) {}
          { result := match terminateHandle root with
              | .error e => .error e
              | .ok () => match loop.err with
                | none => .ok ()
                | some e => .error e,
            attempted := loop.attempted ++ [pid] }

/-! ### What a kill attempts -/

section Attempts

variable (sys : System) (pid : ℕ) (expected : Option ℤ) (protectedPid : Option ℕ)

/-- The root passed its identity check and held its pid until `table` had been read. -/
def Pinned (table : List TreeLink) (birth : UInt64) : Prop :=
  ∃ root, openDestructiveProcessVerified sys .pin pid expected = .ok root ∧
    root.creation = some birth ∧ verifyPidStillRefersTo sys pid (some birth) = .ok () ∧
    sys.snapshot = some table

/-- A process the loop over the children leaves alone. -/
def Spared (q : ℕ) : Prop := q = sys.ownPid ∨ protectedPid = some q

instance (q : ℕ) : Decidable (Spared sys protectedPid q) := instDecidableOr

theorem foldl_killChild (links : List TreeLink) (s : Progress) :
    ((links.map fun link => (link.pid, filetimeToEpoch link.createTime)).foldl
        (killChild sys protectedPid) s).attempted =
      s.attempted ++
        (links.map TreeLink.pid).filter fun q => ¬ Spared sys protectedPid q := by
  induction links generalizing s with
  | nil => simp
  | cons link links ih =>
    obtain ⟨seconds, hseconds⟩ := filetimeToEpoch_isSome link.createTime
    rw [List.map_cons, List.foldl_cons, ih, List.map_cons, List.filter_cons, hseconds]
    by_cases hspared : Spared sys protectedPid link.pid
    · have hstep : killChild sys protectedPid s (link.pid, some seconds) = s := if_pos hspared
      simp [hstep, hspared]
    · have hstep : (killChild sys protectedPid s (link.pid, some seconds)).attempted =
          s.attempted ++ [link.pid] := by
        unfold killChild
        exact (congrArg Progress.attempted (if_neg hspared)).trans rfl
      simp [hstep, hspared]

variable {sys pid expected protectedPid}

/-- The attempts of a kill whose root is pinned. -/
theorem attempted_of_pinned {table : List TreeLink} {birth : UInt64}
    (h : Pinned sys pid expected table birth) :
    (killProcessExcluding sys pid expected true protectedPid).attempted =
      (((descendants pid birth table).map TreeLink.pid).reverse.filter
        fun q => ¬ Spared sys protectedPid q) ++ [pid] := by
  obtain ⟨root, hopen, hbirth, hverify, htable⟩ := h
  have hchildren : collectChildrenWithBirths sys pid birth =
      some ((descendants pid birth table).map fun link =>
        (link.pid, filetimeToEpoch link.createTime)) := by
    rw [collectChildrenWithBirths, htable]
    rfl
  simp only [killProcessExcluding, Bool.true_eq_false, if_false, hopen, hbirth, hverify,
    Option.bind_some, hchildren]
  rw [← List.map_reverse, foldl_killChild, List.map_reverse, List.nil_append]

/-- A kill whose root is not pinned attempts nothing, and fails. -/
theorem attempted_of_not_pinned (h : ¬ ∃ table birth, Pinned sys pid expected table birth) :
    (killProcessExcluding sys pid expected true protectedPid).attempted = [] ∧
      ∃ e, (killProcessExcluding sys pid expected true protectedPid).result = .error e := by
  simp only [killProcessExcluding, Bool.true_eq_false, if_false]
  cases hopen : openDestructiveProcessVerified sys .pin pid expected with
  | error e => exact ⟨rfl, e, rfl⟩
  | ok root =>
    dsimp only
    cases hverify : verifyPidStillRefersTo sys pid root.creation with
    | error e => exact ⟨rfl, e, rfl⟩
    | ok _ =>
      dsimp only
      cases hbirth : root.creation with
      | none => exact ⟨rfl, _, rfl⟩
      | some birth =>
        cases htable : sys.snapshot with
        | none =>
          have hchildren : collectChildrenWithBirths sys pid birth = none := by
            rw [collectChildrenWithBirths, htable]
            rfl
          rw [Option.bind_some, hchildren]
          exact ⟨rfl, _, rfl⟩
        | some table =>
          exact absurd ⟨table, birth, root, hopen, hbirth, hbirth ▸ hverify, htable⟩ h

end Attempts

/-- **A tree kill hits exactly the tree.**  When the root is pinned, the processes attempted are the
root and what is in its tree, but for its own pid and the protected one among the descendants; each
is attempted once, every child before its parent, and the root last.  Otherwise nothing is. -/
theorem kill_tree_exact (sys : System) (pid : ℕ) (expected : Option ℤ) (protectedPid : Option ℕ)
    (hpids : ∀ table, sys.snapshot = some table → (table.map TreeLink.pid).Nodup) :
    (∀ table birth, Pinned sys pid expected table birth →
      (∀ q, q ∈ (killProcessExcluding sys pid expected true protectedPid).attempted ↔
        q = pid ∨ InTree table (pid, birth) q ∧ q ≠ sys.ownPid ∧ protectedPid ≠ some q) ∧
      (killProcessExcluding sys pid expected true protectedPid).attempted.Nodup ∧
      (∀ link ∈ table, link.pid ≠ pid →
        link.pid ∈ (killProcessExcluding sys pid expected true protectedPid).attempted →
        link.parentPid ∈ (killProcessExcluding sys pid expected true protectedPid).attempted →
        [link.pid, link.parentPid].Sublist
          (killProcessExcluding sys pid expected true protectedPid).attempted) ∧
      (killProcessExcluding sys pid expected true protectedPid).attempted.getLast? = some pid) ∧
    ((¬ ∃ table birth, Pinned sys pid expected table birth) →
      (killProcessExcluding sys pid expected true protectedPid).attempted = [] ∧
        ∃ e, (killProcessExcluding sys pid expected true protectedPid).result = .error e) := by
  refine ⟨fun table birth hpinned => ?_, attempted_of_not_pinned⟩
  have htable : sys.snapshot = some table := hpinned.choose_spec.2.2.2
  obtain ⟨hnodup, hmem, hafter⟩ := descendants_spec (hpids table htable) pid birth
  rw [attempted_of_pinned hpinned]
  -- of the descendants, the last found first, those that are not spared are attempted
  have hkept : ∀ q, q ∈ ((descendants pid birth table).map TreeLink.pid).reverse.filter
      (fun q => ¬ Spared sys protectedPid q) ↔
        (q ≠ pid ∧ InTree table (pid, birth) q) ∧ ¬ Spared sys protectedPid q := by
    intro q
    rw [List.mem_filter, List.mem_reverse, hmem, decide_eq_true_eq]
  refine ⟨fun q => ?_, ?_, ?_, List.getLast?_concat⟩
  · rw [List.mem_append, hkept, List.mem_singleton, Spared, not_or]
    by_cases hq : q = pid
    · simp [hq]
    · simp [hq]
  · refine ((List.nodup_reverse.mpr hnodup).filter _).append (List.nodup_singleton _) ?_
    rw [List.disjoint_singleton]
    exact fun hpid => ((hkept pid).mp hpid).1.1 rfl
  · intro link hlink hne hchild hparent
    have hkid := (hkept _).mp ((List.mem_append.mp hchild).resolve_right
      fun h => hne (List.mem_singleton.mp h))
    obtain ⟨link', hlink', hpid⟩ := List.mem_map.mp ((hmem _).mpr hkid.1)
    obtain rfl := Multimap.eq_of_key (hpids table htable) (hafter link' hlink').1 hlink hpid
    have hone : [link'.pid].Sublist (((descendants pid birth table).map TreeLink.pid).reverse.filter
        fun q => ¬ Spared sys protectedPid q) :=
      List.singleton_sublist.mpr ((hkept _).mpr hkid)
    rcases (hafter link' hlink').2 with hroot | hbefore
    · rw [hroot]
      exact hone.append (List.Sublist.refl [pid])
    · by_cases hroot : link'.parentPid = pid
      · rw [hroot]
        exact hone.append (List.Sublist.refl [pid])
      · -- both survive the filter, in the order of the reversed search
        have hup := (hkept _).mp ((List.mem_append.mp hparent).resolve_right
          fun h => hroot (List.mem_singleton.mp h))
        have hrev := (List.reverse_sublist.mpr hbefore).filter
          fun q => decide (¬ Spared sys protectedPid q)
        rw [List.reverse_cons, List.reverse_singleton, List.singleton_append] at hrev
        have hpair : ([link'.pid, link'.parentPid].filter
            fun q => decide (¬ Spared sys protectedPid q)) = [link'.pid, link'.parentPid] := by
          simp [hkid.2, hup.2]
        rw [hpair] at hrev
        exact hrev.trans (List.sublist_append_left _ _)

/-! ### Examples -/

/-- A handle on an ordinary process. -/
def ordinary (creation : UInt64) : Handle where
  creation := some creation
  critical := .ok false
  terminate := .ok ()
  exitCode := none

/-- A shell (100) with two children, one of them with a child of its own, and an older stranger
(200) whose recorded parent's pid the shell has inherited. -/
def shellTable : List TreeLink :=
  [⟨4, 0, 0⟩, ⟨100, 4, 1000⟩, ⟨200, 100, 500⟩, ⟨300, 100, 1500⟩, ⟨400, 300, 1500⟩, ⟨500, 100, 1600⟩]

/-- A system with the shell's table, seen from the process `ownPid`. -/
def shellSystem (ownPid : ℕ) : System where
  ownPid := ownPid
  osOpen _ pid :=
    match shellTable.find? fun link => link.pid = pid with
    | some link => .ok (ordinary link.createTime)
    | none => .error ⟨.invalidParameter, []⟩
  snapshot := some shellTable

theorem nodup_of_shellSystem (ownPid : ℕ) (table : List TreeLink)
    (h : (shellSystem ownPid).snapshot = some table) : (table.map TreeLink.pid).Nodup := by
  obtain rfl := Option.some.inj h
  decide

theorem pinned_shell (ownPid : ℕ) : Pinned (shellSystem ownPid) 100 (some 0) shellTable 1000 :=
  ⟨ordinary 1000, rfl, rfl, rfl, rfl⟩

theorem kill_tree_exact_example :
    (∀ q, q ∈ (killProcessExcluding (shellSystem 9) 100 (some 0) true (some 500)).attempted ↔
      q = 100 ∨ InTree shellTable (100, 1000) q ∧ q ≠ 9 ∧ some 500 ≠ some q) ∧
    (killProcessExcluding (shellSystem 9) 100 (some 0) true (some 500)).attempted =
      [400, 300, 100] := by
  have h := kill_tree_exact (shellSystem 9) 100 (some 0) (some 500) (nodup_of_shellSystem 9)
  exact ⟨(h.1 shellTable 1000 (pinned_shell 9)).1, by decide +kernel⟩

/-- A root that is the caller itself is attempted, after its tree: only descendants are spared. -/
theorem own_root_attempted :
    (shellTable.map TreeLink.pid).Nodup ∧
    Pinned (shellSystem 100) 100 (some 0) shellTable 1000 ∧
    (killProcessExcluding (shellSystem 100) 100 (some 0) true none).attempted =
      [400, 500, 300, 100] ∧
    ¬ ∀ q, q ∈ (killProcessExcluding (shellSystem 100) 100 (some 0) true none).attempted ↔
      (q = 100 ∨ InTree shellTable (100, 1000) q) ∧ q ≠ (shellSystem 100).ownPid ∧
        (none : Option ℕ) ≠ some q := by
  have hattempted : (killProcessExcluding (shellSystem 100) 100 (some 0) true none).attempted =
      [400, 500, 300, 100] := by
    decide +kernel
  refine ⟨by decide, pinned_shell 100, hattempted, fun hexact => ?_⟩
  rw [hattempted] at hexact
  exact ((hexact 100).mp (by decide)).2.1 rfl

end Taskman.ProcessOps
