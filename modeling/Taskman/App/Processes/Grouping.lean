import Taskman.App.Processes.Rows
import Taskman.Collections.Multimap
import Taskman.Core.Classify

/-!
# Sections and app roots of the Processes page

The page is not the tree of parent pids.  Where windows are known, every visible window is followed
upwards to the root of its application, the roots own their helper descendants, and a busy external
task is lifted out of the application it was found in; where they are not, the collector's
classification stands.

* `Processes.deriveDisplayGroups` : the section of every pid, and the app roots;
* `Processes.appRoot_ends`, `Processes.external_ends` : the walks towards the root end;
* `Processes.ownDescendants_eq` : **what the roots own is what can be reached from them**, in
  whatever order the roots are visited;
* `Processes.promote_ends` : the walk that lifts busy tasks out ends.
-/

namespace Taskman

namespace Processes

/-! ### Names with a meaning -/

/-- Different images need semantic evidence besides a shared publisher. -/
def looksLikeHelperProcess (name : Text) : Bool :=
  let lower := Text.toAsciiLowercase name
  ["helper".toList, "renderer".toList, "crash".toList, "webview".toList, "webcore".toList,
    "utility".toList, "worker".toList, "broker".toList, "updater".toList, "update".toList,
    "service".toList, "agent".toList, "overlay".toList, "daemon".toList].any
      fun marker => decide (marker <:+: lower)

/-- Launch surfaces that own helper executables while also starting independent programs. -/
def isApplicationLauncher (name : Text) : Bool :=
  "launcher.exe".toList.isSuffixOf (Text.toAsciiLowercase name) ||
    ["steam.exe".toList, "battle.net.exe".toList, "eadesktop.exe".toList, "origin.exe".toList,
      "upc.exe".toList, "ubisoftconnect.exe".toList, "galaxyclient.exe".toList,
      "goggalaxy.exe".toList, "riotclientservices.exe".toList, "riotclientux.exe".toList,
      "playnite.desktopapp.exe".toList, "playnite.fullscreenapp.exe".toList,
      "amazon games.exe".toList, "itch.exe".toList, "heroic.exe".toList,
      "curseforge.exe".toList].any fun launcher => eqIgnoreAsciiCase name launcher

/-- A process with a window of its own belongs to a launcher. -/
def launcherOwnsVisibleHelper (launcher kid : Text) : Bool :=
  if looksLikeHelperProcess kid then true
  else
    let kid := Text.toAsciiLowercase kid
    let launcher := Text.toAsciiLowercase launcher
    "riotclient".toList.isPrefixOf launcher && "riotclient".toList.isPrefixOf kid ||
      (launcher == "eadesktop.exe".toList || launcher == "origin.exe".toList) &&
        kid == "ealocalhostsvc.exe".toList ||
      (launcher == "ubisoftconnect.exe".toList || launcher == "upc.exe".toList) &&
        kid == "ubisoftwebcore.exe".toList

/-- Parents that launch independent applications rather than owning them. -/
def isLaunchBoundary (name : Text) : Bool :=
  ["explorer.exe".toList, "cmd.exe".toList, "powershell.exe".toList, "pwsh.exe".toList,
    "wsl.exe".toList, "wt.exe".toList, "SearchHost.exe".toList, "SearchApp.exe".toList,
    "StartMenuExperienceHost.exe".toList, "ShellExperienceHost.exe".toList, "sihost.exe".toList,
    "RuntimeBroker.exe".toList, "dllhost.exe".toList, "applicationframehost.exe".toList,
    "backgroundtaskhost.exe".toList, "textinputhost.exe".toList, "smartscreen.exe".toList,
    "msedge.exe".toList, "chrome.exe".toList, "brave.exe".toList, "chromium.exe".toList,
    "firefox.exe".toList, "opera.exe".toList, "vivaldi.exe".toList].any
      fun n => eqIgnoreAsciiCase name n

/-- The desktop process may own a window, but never what it launches. -/
def isNonOwningShell (name : Text) : Bool :=
  eqIgnoreAsciiCase name "explorer.exe".toList || eqIgnoreAsciiCase name "explorer".toList

/-- A family does not go on over an image of the system. -/
def isSystemBoundary (name : Text) : Bool := Classify.isCoreOsImage name

/-- Two processes are known to be of one publisher. -/
def samePublisher (a b : ProcessEntry) : Bool :=
  match a.company, b.company with
  | some x, some y => !x.isEmpty && eqIgnoreAsciiCase x y
  | _, _ => false

/-- Whether a visible process folds into an ancestor. -/
def plausiblySameApplication (a b : ProcessEntry) : Bool :=
  if eqIgnoreAsciiCase a.name b.name then true
  else if isApplicationLauncher a.name then launcherOwnsVisibleHelper a.name b.name
  else if !looksLikeHelperProcess b.name then false
  else samePublisher a b

/-! ### Walks towards the root -/

/-- The section of each pid. -/
abbrev Categories := ℕ → Option ProcCategory

/-- The processes by pid. -/
def byPid (all : List ProcessEntry) : ℕ → Option ProcessEntry :=
  collect (all.map fun p => (p.pid, p))

theorem mem_of_collect {α : Type*} {l : List (ℕ × α)} {pid : ℕ} {a : α}
    (h : collect l pid = some a) : (pid, a) ∈ l := by
  obtain ⟨e, he, rfl⟩ := Option.map_eq_some_iff.mp h
  have hmem := List.mem_reverse.mp (List.mem_of_find?_eq_some he)
  have hpid : e.1 = pid := by simpa using List.find?_some he
  rw [← hpid]
  exact hmem

theorem mem_of_byPid {all : List ProcessEntry} {pid : ℕ} {p : ProcessEntry}
    (h : byPid all pid = some p) : p ∈ all ∧ p.pid = pid := by
  obtain ⟨q, hq, heq⟩ := List.mem_map.mp (mem_of_collect h)
  obtain ⟨rfl, rfl⟩ := Prod.mk.inj heq
  exact ⟨hq, rfl⟩

/-- A process on the way up, and the pids met so far. -/
structure Climb where
  cur : ProcessEntry
  seen : Finset ℕ

/-- The parent a climb may go on to: recorded, not met before, running, and not younger. -/
def Climb.parent (all : List ProcessEntry) (c : Climb) : Option ProcessEntry :=
  match c.cur.ppid with
  | none => none
  | some ppid =>
    if ppid = c.cur.pid ∨ ppid ∈ c.seen then none
    else
      match byPid all ppid with
      | none => none
      | some parent => if isPlausibleParent parent c.cur then some parent else none

/-- What a climb goes on to is one of the processes, with a pid not met before. -/
theorem Climb.mem_of_parent {all : List ProcessEntry} {c : Climb} {parent : ProcessEntry}
    (h : c.parent all = some parent) : parent ∈ all ∧ parent.pid ∉ c.seen := by
  unfold Climb.parent at h
  split at h
  · cases h
  · split at h
    · cases h
    · rename_i ppid _ hnew
      split at h
      · cases h
      · rename_i p hp
        split at h
        · obtain rfl := Option.some.inj h
          obtain ⟨hmem, hpid⟩ := mem_of_byPid hp
          exact ⟨hmem, fun hseen => hnew (Or.inr (hpid ▸ hseen))⟩
        · cases h

/-- The pids of the processes that a climb has not met. -/
def unmet (all : List ProcessEntry) (seen : Finset ℕ) : ℕ := all.countP fun p => p.pid ∉ seen

theorem unmet_insert_lt {all : List ProcessEntry} {seen : Finset ℕ} {p : ProcessEntry}
    (hp : p ∈ all) (hnew : p.pid ∉ seen) : unmet all (insert p.pid seen) < unmet all seen := by
  unfold unmet
  induction all with
  | nil => cases hp
  | cons q all ih =>
    have hle : all.countP (fun x => x.pid ∉ insert p.pid seen) ≤
        all.countP fun x => x.pid ∉ seen := by
      refine List.countP_mono_left fun x _ hx => ?_
      have hx' : x.pid ∉ insert p.pid seen := of_decide_eq_true hx
      exact decide_eq_true fun hmem => hx' (Finset.mem_insert_of_mem hmem)
    rw [List.countP_cons, List.countP_cons]
    by_cases hq : q.pid = p.pid
    · have hout : ¬ (q.pid ∉ insert p.pid seen) := by simp [hq]
      have hin : q.pid ∉ seen := hq ▸ hnew
      rw [if_neg (by simpa using hout), if_pos (by simpa using hin)]
      omega
    · have hmem : p ∈ all := by
        rcases List.mem_cons.mp hp with rfl | hmem
        · exact absurd rfl hq
        · exact hmem
      have hlt := ih hmem
      have hiff : (decide (q.pid ∉ insert p.pid seen) : Bool) = decide (q.pid ∉ seen) := by
        simp [Finset.mem_insert, hq]
      rw [hiff]
      omega

theorem unmet_le (all : List ProcessEntry) (seen : Finset ℕ) : unmet all seen ≤ all.length :=
  List.countP_le_length

/-! ### Roots of applications -/

/-- One turn towards the root of the application that owns a window. -/
def appRootStep (all : List ProcessEntry) (category : Categories) (c : Climb) : Option Climb :=
  match c.parent all with
  | none => none
  | some parent =>
    if category parent.pid = some .system ∨ isLaunchBoundary parent.name then none
    else if !plausiblySameApplication parent c.cur then none
    else some ⟨parent, insert parent.pid c.seen⟩

/-- The root of the application a visible process belongs to. -/
def appRootOf (all : List ProcessEntry) (category : Categories) (p : ProcessEntry) : ProcessEntry :=
  (While.run (appRootStep all category) all.length ⟨p, {p.pid}⟩).cur

/-- The walk to the root of an application ends. -/
theorem appRoot_ends (all : List ProcessEntry) (category : Categories) (p : ProcessEntry) :
    appRootStep all category
      (While.run (appRootStep all category) all.length ⟨p, {p.pid}⟩) = none := by
  have hranked : While.Ranked (appRootStep all category) (fun _ => True)
      fun c => unmet all c.seen := by
    refine ⟨fun _ _ _ _ => trivial, ?_⟩
    intro c c' _ hstep
    unfold appRootStep at hstep
    split at hstep
    · cases hstep
    · rename_i parent hparent
      obtain ⟨hmem, hnew⟩ := Climb.mem_of_parent hparent
      split at hstep
      · cases hstep
      · split at hstep
        · cases hstep
        · obtain rfl := Option.some.inj hstep
          exact unmet_insert_lt hmem hnew
  exact (hranked.run_stops trivial (unmet_le all _)).2

/-- The links of the processes to running parents that are not younger. -/
def rawParent (all : List ProcessEntry) (p : ProcessEntry) : Option ℕ :=
  p.ppid.filter fun ppid =>
    decide (ppid ≠ p.pid) && (byPid all ppid).any fun parent => isPlausibleParent parent p

/-- The processes recorded under each pid. -/
def rawChildren (all : List ProcessEntry) : Multimap ℕ ProcessEntry :=
  Multimap.ofLinks (rawParent all) all

/-- One visit of the walk by which the roots own their helper descendants. -/
def ownVisit (all : List ProcessEntry) (appRoots : List ℕ) (s : Finset ℕ × Categories) (pid : ℕ) :
    (Finset ℕ × Categories) × List ℕ :=
  if pid ∈ s.1 ∨ s.2 pid = some .system then ((insert pid s.1, s.2), [])
  else
    let category := Function.update s.2 pid (some ProcCategory.app)
    match byPid all pid with
    | none => ((insert pid s.1, category), [])
    | some proc =>
      if isNonOwningShell proc.name then ((insert pid s.1, category), [])
      else
        ((insert pid s.1, category),
          (((rawChildren all).get pid).filter fun child =>
            !(decide (child.pid ∈ appRoots) || decide (category child.pid = some .system))).map
              ProcessEntry.pid)

/-- The sections once the roots own their helper descendants. -/
def ownDescendants (hash : PageHash) (all : List ProcessEntry) (appRoots : List ℕ)
    (category : Categories) : Categories :=
  (Worklist.drain (ownVisit all appRoots) (all.length + appRoots.length) (∅, category)
    (hash.appRoots.order appRoots).reverse).2

/-- What a pid owns directly, by the sections before the walk. -/
def ownNext (all : List ProcessEntry) (appRoots : List ℕ) (category : Categories) (pid : ℕ) :
    List ℕ :=
  if category pid = some .system then []
  else
    match byPid all pid with
    | none => []
    | some proc =>
      if isNonOwningShell proc.name then []
      else
        (((rawChildren all).get pid).filter fun child =>
          !(decide (child.pid ∈ appRoots) || decide (category child.pid = some .system))).map
            ProcessEntry.pid

/-- The sections with the given pids owned by an application. -/
def owned (category : Categories) (pids : Finset ℕ) : Categories := fun pid =>
  if pid ∈ pids ∧ category pid ≠ some .system then some ProcCategory.app else category pid

theorem owned_eq_system_iff {category : Categories} {pids : Finset ℕ} {pid : ℕ} :
    owned category pids pid = some .system ↔ category pid = some .system := by
  unfold owned
  split
  · rename_i h
    simp [h.2]
  · exact Iff.rfl

theorem owned_insert_of_system {category : Categories} {pids : Finset ℕ} {pid : ℕ}
    (h : category pid = some .system) : owned category (insert pid pids) = owned category pids := by
  funext k
  by_cases hk : k = pid
  · simp [owned, hk, h]
  · simp [owned, hk]

theorem owned_insert {category : Categories} {pids : Finset ℕ} {pid : ℕ}
    (h : category pid ≠ some .system) :
    owned category (insert pid pids) =
      Function.update (owned category pids) pid (some ProcCategory.app) := by
  funext k
  by_cases hk : k = pid
  · simp [owned, hk, h]
  · simp [owned, hk]

/-- A visit marks what it pops and pushes what that owns. -/
theorem ownVisit_owned (all : List ProcessEntry) (appRoots : List ℕ) (category : Categories)
    (s : Finset ℕ × List ℕ) (pid : ℕ) :
    ownVisit all appRoots (s.1, owned category s.1) pid =
      (((Worklist.visitNew id (ownNext all appRoots category) s pid).1.1,
        owned category (Worklist.visitNew id (ownNext all appRoots category) s pid).1.1),
        (Worklist.visitNew id (ownNext all appRoots category) s pid).2) := by
  unfold ownVisit
  simp only [owned_eq_system_iff]
  by_cases hseen : pid ∈ s.1
  · simp [Worklist.visitNew, hseen]
  · by_cases hsystem : category pid = some .system
    · simp [Worklist.visitNew, ownNext, hseen, hsystem, owned_insert_of_system]
    · simp only [Worklist.visitNew, hseen, hsystem, id, or_self, if_false, ownNext]
      rw [owned_insert hsystem]
      cases hproc : byPid all pid with
      | none => rfl
      | some proc =>
        by_cases hshell : isNonOwningShell proc.name
        · simp only [hshell, if_true]
        · simp only [hshell, Bool.false_eq_true, if_false, ← owned_insert hsystem,
            owned_eq_system_iff]

/-- **The roots own what can be reached from them, in whatever order they are visited.** -/
theorem ownDescendants_eq (hash : PageHash) (all : List ProcessEntry) (appRoots : List ℕ)
    (category : Categories) :
    ∃ pids : Finset ℕ,
      (∀ pid, pid ∈ pids ↔
        ∃ root ∈ appRoots, Worklist.Reach (ownNext all appRoots category) root pid) ∧
      ownDescendants hash all appRoots category = owned category pids := by
  have hstart : owned category ∅ = category := by
    funext pid
    simp [owned]
  have hbudget : Worklist.Budget id (ownNext all appRoots category)
      (rawChildren all).unfollowed := by
    refine (rawChildren all).budget _ _ fun pid => ?_
    unfold ownNext
    split
    · simp
    · split
      · simp
      · split
        · simp
        · rw [List.length_map]
          exact List.length_filter_le _ _
  have hfuel : (rawChildren all).unfollowed ∅ + (hash.appRoots.order appRoots).length ≤
      all.length + appRoots.length := by
    have hle := (rawChildren all).unfollowed_le ∅
    have hlen := Multimap.length_ofLinks_le (rawParent all) all
    have horder := (hash.appRoots.perm appRoots).length_eq
    unfold rawChildren at *
    omega
  have hwalk := Worklist.walk_spec (ownNext all appRoots category) ∅ hbudget
    (fun a j => by simp) (by simp) hfuel
  refine ⟨(Worklist.walk id (ownNext all appRoots category) (all.length + appRoots.length) ∅
    (hash.appRoots.order appRoots)).1, fun pid => ?_, ?_⟩
  · rw [hwalk.1]
    simp [hash.appRoots.mem_order]
  · have hmap := Worklist.drain_map
      (Worklist.visitNew id (ownNext all appRoots category))
      (ownVisit all appRoots) (fun s => (s.1, owned category s.1))
      (ownVisit_owned all appRoots category) (all.length + appRoots.length) (∅, [])
      (hash.appRoots.order appRoots).reverse
    rw [hstart] at hmap
    exact congrArg Prod.snd hmap

theorem ownDescendants_congr (hash hash' : PageHash) (all : List ProcessEntry)
    (appRoots : List ℕ) (category : Categories) :
    ownDescendants hash all appRoots category = ownDescendants hash' all appRoots category := by
  obtain ⟨pids, hmem, heq⟩ := ownDescendants_eq hash all appRoots category
  obtain ⟨pids', hmem', heq'⟩ := ownDescendants_eq hash' all appRoots category
  have hpids : pids = pids' := Finset.ext fun pid => (hmem pid).trans (hmem' pid).symm
  rw [heq, heq', hpids]

/-! ### Busy external tasks -/

/-- Share of the machine at which an external task becomes visible on its own. -/
def PROMOTE_CPU_PCT : ℚ := 1

/-- A climb that may find an ancestor of the same image. -/
structure FamilyClimb extends Climb where
  found : Bool := false

/-- One step of the climb from a busy task to the shell that runs it. -/
def externalStep (all : List ProcessEntry) (category : Categories) (name : Text)
    (c : FamilyClimb) : Option FamilyClimb :=
  if c.found then none
  else
    match c.toClimb.parent all with
    | none => none
    | some parent =>
      if category parent.pid ≠ some .app then none
      else if eqIgnoreAsciiCase parent.name name then some { c with found := true }
      else some { cur := parent, seen := insert parent.pid c.seen, found := false }

/-- True when no ancestor inside the process's app family shares its image name. -/
def isExternalFamilyMember (all : List ProcessEntry) (category : Categories) (p : ProcessEntry) :
    Bool :=
  !(While.run (externalStep all category p.name) (all.length + 1)
    { cur := p, seen := {p.pid}, found := false }).found

/-- The walk through the ancestors in the family ends. -/
theorem external_ends (all : List ProcessEntry) (category : Categories) (p : ProcessEntry) :
    externalStep all category p.name (While.run (externalStep all category p.name)
      (all.length + 1) { cur := p, seen := {p.pid}, found := false }) = none := by
  have hranked : While.Ranked (externalStep all category p.name) (fun _ => True)
      fun c => unmet all c.seen + if c.found then 0 else 1 := by
    refine ⟨fun _ _ _ _ => trivial, ?_⟩
    intro c c' _ hstep
    unfold externalStep at hstep
    split at hstep
    · cases hstep
    · rename_i hfound
      split at hstep
      · cases hstep
      · rename_i parent hparent
        obtain ⟨hmem, hnew⟩ := Climb.mem_of_parent hparent
        split at hstep
        · cases hstep
        · split at hstep
          · obtain rfl := Option.some.inj hstep
            simp [hfound]
          · obtain rfl := Option.some.inj hstep
            have hlt := unmet_insert_lt hmem hnew
            simp only [hfound]
            omega
  refine (hranked.run_stops trivial ?_).2
  have hle := unmet_le all {p.pid}
  simpa using hle

/-- One visit of the walk that moves a promoted task and its absorbed descendants. -/
def promoteVisit (all : List ProcessEntry) (appRoots : List ℕ) (category : Categories) (pid : ℕ) :
    Categories × List ℕ :=
  let category := Function.update category pid (some ProcCategory.background)
  (category,
    (((rawChildren all).get pid).filter fun kid =>
      !kid.hasWindow && decide (category kid.pid = some .app) &&
        !decide (kid.pid ∈ appRoots)).map ProcessEntry.pid)

/-- The external tasks that burn real CPU, decided before any of them moves. -/
def busyExternal (all : List ProcessEntry) (appRoots : List ℕ) (category : Categories) : List ℕ :=
  (all.filter fun p =>
    !p.hasWindow && decide (PROMOTE_CPU_PCT ≤ p.cpuPct) &&
      decide (category p.pid = some .app) && !decide (p.pid ∈ appRoots) &&
      isExternalFamilyMember all category p).map ProcessEntry.pid

/-- Enough turns for the walk that lifts busy tasks out. -/
def promoteFuel (all : List ProcessEntry) : ℕ :=
  all.length + (2 * all.length + 2) * all.length + all.length

/-- Busy tasks of a shell count as apps. -/
def promoteBusyExternalTasks (all : List ProcessEntry) (appRoots : List ℕ)
    (category : Categories) : Categories :=
  Worklist.drain (promoteVisit all appRoots) (promoteFuel all) category
    (busyExternal all appRoots category).reverse

/-- The processes of the app section. -/
def appCount (all : List ProcessEntry) (category : Categories) : ℕ :=
  all.countP fun p => category p.pid = some .app

theorem appCount_update_le (all : List ProcessEntry) (category : Categories) (pid : ℕ) :
    appCount all (Function.update category pid (some .background)) ≤ appCount all category := by
  refine List.countP_mono_left fun p _ hp => ?_
  have happ : Function.update category pid (some .background) p.pid = some .app :=
    of_decide_eq_true hp
  by_cases hpid : p.pid = pid
  · rw [hpid, Function.update_self] at happ
    cases happ
  · rw [Function.update_of_ne hpid] at happ
    exact decide_eq_true happ

/-- Moving a process out of the app section lowers their number. -/
theorem appCount_update_lt {all : List ProcessEntry} {category : Categories} {p : ProcessEntry}
    (hp : p ∈ all) (happ : category p.pid = some .app) :
    appCount all (Function.update category p.pid (some .background)) < appCount all category := by
  unfold appCount
  induction all with
  | nil => cases hp
  | cons q all ih =>
    have hle := appCount_update_le all category p.pid
    unfold appCount at hle
    rw [List.countP_cons, List.countP_cons]
    by_cases hq : q.pid = p.pid
    · rw [if_neg (by simp [hq]), if_pos (by simp [hq, happ])]
      omega
    · have hmem : p ∈ all := by
        rcases List.mem_cons.mp hp with rfl | hmem
        · exact absurd rfl hq
        · exact hmem
      have hlt := ih hmem
      rw [Function.update_of_ne hq]
      omega

/-- What is left to do for the walk that lifts tasks out.  A pid that is still in the app section
pays for its children when it leaves; one that has left already pushes only such pids. -/
def promoteRank (all : List ProcessEntry) (category : Categories) (stack : List ℕ) : ℕ :=
  stack.length + (2 * all.length + 2) * appCount all category +
    match stack with
    | [] => all.length
    | pid :: _ => if category pid = some .app then 0 else all.length

theorem length_rawChildren_le (all : List ProcessEntry) (pid : ℕ) :
    ((rawChildren all).get pid).length ≤ all.length := by
  rw [rawChildren, Multimap.get_ofLinks]
  exact List.length_filter_le _ _

theorem promoteRank_drop {all : List ProcessEntry} {appRoots : List ℕ} {category : Categories}
    {pid : ℕ} {stack : List ℕ} (hpid : ∃ p ∈ all, p.pid = pid) :
    promoteRank all (promoteVisit all appRoots category pid).1
        ((promoteVisit all appRoots category pid).2.reverse ++ stack) <
      promoteRank all category (pid :: stack) := by
  obtain ⟨p, hp, rfl⟩ := hpid
  have hpush : (promoteVisit all appRoots category p.pid).2.length ≤ all.length := by
    rw [promoteVisit, List.length_map]
    exact (List.length_filter_le _ _).trans (length_rawChildren_le all p.pid)
  have hcategory : (promoteVisit all appRoots category p.pid).1 =
      Function.update category p.pid (some .background) := rfl
  have hpushed : ∀ k ∈ (promoteVisit all appRoots category p.pid).2,
      (promoteVisit all appRoots category p.pid).1 k = some .app := by
    intro k hk
    obtain ⟨kid, hkid, rfl⟩ := List.mem_map.mp hk
    have hcond := (List.mem_filter.mp hkid).2
    simp only [Bool.and_eq_true, decide_eq_true_eq] at hcond
    exact hcond.1.2
  generalize (promoteVisit all appRoots category p.pid).2 = pushed at hpush hpushed ⊢
  rw [hcategory] at hpushed ⊢
  have hextra : ∀ l : List ℕ, (match l with
      | [] => all.length
      | pid :: _ => if Function.update category p.pid (some .background) pid = some .app then 0
        else all.length) ≤ all.length := by
    intro l
    cases l with
    | nil => exact le_refl _
    | cons pid _ =>
      dsimp only
      split <;> omega
  by_cases happ : category p.pid = some .app
  · have hlt := appCount_update_lt hp happ
    have hmul := Nat.mul_le_mul_left (2 * all.length + 2) (Nat.succ_le_of_lt hlt)
    rw [Nat.mul_succ] at hmul
    have hle := hextra (pushed.reverse ++ stack)
    simp only [promoteRank, happ, if_true, List.length_append, List.length_reverse,
      List.length_cons]
    omega
  · have hmul := Nat.mul_le_mul_left (2 * all.length + 2)
      (appCount_update_le all category p.pid)
    simp only [promoteRank, happ, if_false, List.length_append, List.length_reverse,
      List.length_cons]
    -- what is pushed is still in the app section, so it waits on top for its own turn
    cases hrev : pushed.reverse with
    | nil =>
      have hnil : pushed = [] := List.reverse_eq_nil_iff.mp hrev
      have hle := hextra ([] ++ stack)
      rw [hnil]
      simp only [List.nil_append, List.length_nil] at hle ⊢
      omega
    | cons k rest =>
      have hk : Function.update category p.pid (some .background) k = some .app :=
        hpushed k (List.mem_reverse.mp (hrev ▸ List.mem_cons_self))
      simp only [List.cons_append, hk, if_true]
      omega

theorem mem_all_of_mem_rawChildren {all : List ProcessEntry} {pid : ℕ} {p : ProcessEntry}
    (h : p ∈ (rawChildren all).get pid) : p ∈ all :=
  (Multimap.mem_get_ofLinks.mp h).1

/-- The walk that lifts busy tasks out ends with nothing left to move. -/
theorem promote_ends (all : List ProcessEntry) (appRoots : List ℕ) (category : Categories) :
    (While.run (Worklist.pop (promoteVisit all appRoots)) (promoteFuel all)
      (category, (busyExternal all appRoots category).reverse)).2 = [] := by
  refine Worklist.drain_ends (fun _ stack => ∀ pid ∈ stack, ∃ p ∈ all, p.pid = pid)
    (promoteRank all) ?_ ?_ ?_ ?_
  · intro category pid stack h k hk
    rcases List.mem_append.mp hk with hk | hk
    · obtain ⟨kid, hkid, rfl⟩ := List.mem_map.mp (List.mem_reverse.mp hk)
      exact ⟨kid, mem_all_of_mem_rawChildren (List.mem_filter.mp hkid).1, rfl⟩
    · exact h k (List.mem_cons_of_mem _ hk)
  · intro category pid stack h
    exact promoteRank_drop (h pid List.mem_cons_self)
  · intro pid hpid
    obtain ⟨p, hp, rfl⟩ := List.mem_map.mp (List.mem_reverse.mp hpid)
    exact ⟨p, (List.mem_filter.mp hp).1, rfl⟩
  · have hlen : (busyExternal all appRoots category).length ≤ all.length := by
      rw [busyExternal, List.length_map]
      exact List.length_filter_le _ _
    have hcount : appCount all category ≤ all.length := List.countP_le_length
    have hmul := Nat.mul_le_mul_left (2 * all.length + 2) hcount
    have hextra : (match (busyExternal all appRoots category).reverse with
        | [] => all.length
        | pid :: _ => if category pid = some .app then 0 else all.length) ≤ all.length := by
      cases (busyExternal all appRoots category).reverse with
      | nil => exact le_refl _
      | cons pid _ =>
        dsimp only
        split <;> omega
    unfold promoteRank promoteFuel
    rw [List.length_reverse]
    omega

/-! ### Sections -/

/-- The section of every pid, and the roots of the applications. -/
structure DisplayGroups where
  category : Categories
  appRoots : List ℕ

/-- The collector's classification, where windows are not known. -/
def collectedGroups (all : List ProcessEntry) : DisplayGroups :=
  let category := collect (all.map fun p => (p.pid, p.category))
  let appRoots :=
    ((all.filter fun p => decide (p.category = .app) && p.appRoot).map ProcessEntry.pid).dedup
  if appRoots.isEmpty then
    { category := category
      appRoots := ((all.filter fun p =>
        decide (p.category = .app) &&
          !((p.ppid.filter fun ppid => decide (ppid ≠ p.pid)).bind (byPid all)).any
            fun parent => decide (parent.category = .app)).map ProcessEntry.pid).dedup }
  else { category := category, appRoots := appRoots }

/-- The sections before any window is followed. -/
def platformCategory (all : List ProcessEntry) : Categories :=
  collect (all.map fun p =>
    (p.pid, if p.category = .system ∨ isSystemBoundary p.name then ProcCategory.system
      else .background))

/-- The roots of the applications with a visible window. -/
def windowRoots (all : List ProcessEntry) (category : Categories) : List ℕ :=
  ((all.filter fun p => p.hasWindow && decide (category p.pid ≠ some .system)).map
    fun p => (appRootOf all category p).pid).dedup

/-- The section of each process, and the processes that head the apps. -/
def deriveDisplayGroups (hash : PageHash) (all : List ProcessEntry) : DisplayGroups :=
  if !all.any ProcessEntry.hasWindow then collectedGroups all
  else
    let category := platformCategory all
    let appRoots := windowRoots all category
    { category := promoteBusyExternalTasks all appRoots (ownDescendants hash all appRoots category)
      appRoots := appRoots }

theorem deriveDisplayGroups_congr (hash hash' : PageHash) (all : List ProcessEntry) :
    deriveDisplayGroups hash all = deriveDisplayGroups hash' all := by
  simp only [deriveDisplayGroups, ownDescendants_congr hash hash']

end Processes

end Taskman
