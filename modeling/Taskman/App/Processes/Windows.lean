import Taskman.App.Processes.Page
import Taskman.Collections.Ascent

/-!
# Windows on the Processes page

A process with a visible window climbs to the root of its application, and the roots own what hangs
off them; the names at which a climb stops and those that own nothing are not the same.  So a window
can fold into a root that does not own it.

* `Processes.adopter` : the ancestor a climb goes on to;
* `Processes.category_eq_app_iff` : a window is in the app section just if a root owns it;
* `Processes.WindowsAreApps` : every window of no system process is in the app section, and so is
  the root it folds into;
* `Processes.windows_are_apps_iff` : **this is so exactly when every shell on the way up from a
  window has a window itself and the climb from there comes back.**
-/

namespace Taskman

namespace Processes

open Ascent (Above TopOf)

variable {all : List ProcessEntry}

/-! ### Climbing -/

/-- The recorded parent of a process, if it is running and not younger. -/
def parentEntry (all : List ProcessEntry) (p : ProcessEntry) : Option ProcessEntry :=
  (rawParent all p).bind (byPid all)

/-- The ancestor a climb to the root of an application goes on to, met before or not. -/
def adopter (all : List ProcessEntry) (category : Categories) (p : ProcessEntry) :
    Option ProcessEntry :=
  (parentEntry all p).filter fun parent =>
    !(decide (category parent.pid = some .system) || isLaunchBoundary parent.name) &&
      plausiblySameApplication parent p

theorem parentEntry_eq_some_iff {p parent : ProcessEntry} :
    parentEntry all p = some parent ↔
      p.ppid = some parent.pid ∧ parent.pid ≠ p.pid ∧ byPid all parent.pid = some parent ∧
        isPlausibleParent parent p = true := by
  unfold parentEntry rawParent
  cases hppid : p.ppid with
  | none => simp
  | some ppid =>
    rw [Option.bind_eq_some_iff]
    constructor
    · rintro ⟨k, hk, hparent⟩
      obtain ⟨hk, hcond⟩ := Option.filter_eq_some_iff.mp hk
      obtain rfl := Option.some.inj hk
      obtain ⟨-, rfl⟩ := mem_of_byPid hparent
      simp only [hparent, Option.any_some, Bool.and_eq_true, decide_eq_true_eq] at hcond
      exact ⟨rfl, hcond.1, hparent, hcond.2⟩
    · rintro ⟨hk, hne, hparent, horder⟩
      obtain rfl := Option.some.inj hk
      refine ⟨parent.pid, Option.filter_eq_some_iff.mpr ⟨rfl, ?_⟩, hparent⟩
      simp [hparent, hne, horder]

/-- A climb goes on to the recorded parent unless it has been met. -/
theorem Climb.parent_eq (c : Climb) :
    c.parent all = (parentEntry all c.cur).filter fun parent => decide (parent.pid ∉ c.seen) := by
  refine Option.ext fun parent => ?_
  rw [Option.filter_eq_some_iff, parentEntry_eq_some_iff, decide_eq_true_eq]
  unfold Climb.parent
  cases hppid : c.cur.ppid with
  | none => simp
  | some ppid =>
    simp only
    by_cases hmet : ppid = c.cur.pid ∨ ppid ∈ c.seen
    · simp only [hmet, if_true, reduceCtorEq, false_iff]
      rintro ⟨⟨hk, hne, -⟩, hseen⟩
      obtain rfl := Option.some.inj hk
      exact hmet.elim hne hseen
    · rw [if_neg hmet]
      obtain ⟨hne, hseen⟩ := not_or.mp hmet
      cases hparent : byPid all ppid with
      | none =>
        simp only [reduceCtorEq, false_iff]
        rintro ⟨⟨hk, -, hby, -⟩, -⟩
        obtain rfl := Option.some.inj hk
        rw [hparent] at hby
        cases hby
      | some q =>
        obtain ⟨-, rfl⟩ := mem_of_byPid hparent
        simp only [Option.ite_none_right_eq_some, Option.some.injEq]
        constructor
        · rintro ⟨horder, rfl⟩
          exact ⟨⟨rfl, hne, hparent, horder⟩, hseen⟩
        · rintro ⟨⟨hk, -, hby, horder⟩, -⟩
          rw [← hk, hparent] at hby
          obtain rfl := Option.some.inj hby
          exact ⟨horder, rfl⟩

/-- A turn of the source's loop is a turn of a climb to the adopter. -/
theorem appRootStep_eq (category : Categories) (c : ProcessEntry × Finset ℕ) :
    appRootStep all category ⟨c.1, c.2⟩ =
      (Ascent.turn (adopter all category) ProcessEntry.pid c).map fun c => ⟨c.1, c.2⟩ := by
  by_cases hmet : ∃ parent, parentEntry all c.1 = some parent ∧ parent.pid ∈ c.2
  · obtain ⟨parent, hparent, hmet⟩ := hmet
    have hturn : Ascent.turn (adopter all category) ProcessEntry.pid c = none := by
      refine Ascent.turn_eq_none_iff.mpr fun y hy => ?_
      obtain ⟨hy, -⟩ := Option.filter_eq_some_iff.mp hy
      rw [hparent] at hy
      exact Option.some.inj hy ▸ hmet
    rw [hturn, appRootStep, Climb.parent_eq, hparent]
    simp [Option.filter, hmet]
  · unfold appRootStep Ascent.turn adopter
    rw [Climb.parent_eq]
    cases hparent : parentEntry all c.1 with
    | none => rfl
    | some parent =>
      have hmet : parent.pid ∉ c.2 := fun h => hmet ⟨parent, hparent, h⟩
      by_cases hstop : category parent.pid = some .system ∨ isLaunchBoundary parent.name = true
      · rcases hstop with h | h <;> simp [Option.filter, hmet, h]
      · obtain ⟨hcat, hlaunch⟩ := not_or.mp hstop
        by_cases hsame : plausiblySameApplication parent c.1 = true <;>
          simp [Option.filter, hmet, hcat, hlaunch, hsame]

theorem mem_of_adopter {category : Categories} {p parent : ProcessEntry}
    (h : adopter all category p = some parent) :
    parentEntry all p = some parent ∧ parent ∈ all ∧ category parent.pid ≠ some .system := by
  obtain ⟨hparent, hcond⟩ := Option.filter_eq_some_iff.mp h
  obtain ⟨-, -, hby, -⟩ := parentEntry_eq_some_iff.mp hparent
  simp only [Bool.and_eq_true, Bool.not_eq_true', Bool.or_eq_false_iff, decide_eq_false_iff_not]
    at hcond
  exact ⟨hparent, (mem_of_byPid hby).1, hcond.1.1⟩

/-- **The root of an application is the top of the climb to it.** -/
theorem topOf_appRootOf (hall : Distinct all) (category : Categories) {p : ProcessEntry}
    (hp : p ∈ all) : TopOf (adopter all category) p (appRootOf all category p) := by
  have hrun : While.run (appRootStep all category) all.length ⟨p, {p.pid}⟩ =
      ⟨(While.run (Ascent.turn (adopter all category) ProcessEntry.pid) all.length
          (p, {p.pid})).1,
        (While.run (Ascent.turn (adopter all category) ProcessEntry.pid) all.length
          (p, {p.pid})).2⟩ :=
    While.run_map (fun c : ProcessEntry × Finset ℕ => (⟨c.1, c.2⟩ : Climb))
      (appRootStep_eq category) all.length (p, {p.pid})
  have hends := appRoot_ends all category p
  rw [hrun, appRootStep_eq category] at hends
  rw [appRootOf, hrun]
  exact Ascent.topOf_run (U := (· ∈ all)) (fun a b ha hb => Multimap.eq_of_key hall ha hb)
    (fun x y hy => (mem_of_adopter hy).2.1) hp (Option.map_eq_none_iff.mp hends)

/-! ### Owning -/

/-- The processes that climb: those with a window, unless they are system processes. -/
def Climbs (all : List ProcessEntry) (category : Categories) (p : ProcessEntry) : Prop :=
  p ∈ all ∧ p.hasWindow = true ∧ category p.pid ≠ some .system

/-- A process that is not a system process. -/
def Ordinary (all : List ProcessEntry) (category : Categories) (p : ProcessEntry) : Prop :=
  p ∈ all ∧ category p.pid ≠ some .system

/-- A process that owns nothing. -/
def Barren (p : ProcessEntry) : Prop := isNonOwningShell p.name = true

/-- A root of an application with a window. -/
abbrev Root (all : List ProcessEntry) (category : Categories) : ProcessEntry → Prop :=
  Ascent.IsTop (Climbs all category) (appRootOf all category)

/-- A process an application owns. -/
abbrev Owned (all : List ProcessEntry) (category : Categories) : ProcessEntry → Prop :=
  Ascent.Owned (parentEntry all) (Ordinary all category) Barren (Root all category)

theorem mem_appRootOf (hall : Distinct all) (category : Categories) {p : ProcessEntry}
    (hp : p ∈ all) : appRootOf all category p ∈ all := by
  have hreached := (topOf_appRootOf hall category hp).reached
  generalize appRootOf all category p = root at hreached ⊢
  rcases Relation.ReflTransGen.cases_head hreached with rfl | ⟨x, hx, -⟩
  · exact hp
  · exact (mem_of_adopter hx).2.1

theorem ordinary_appRootOf (hall : Distinct all) {category : Categories} {p : ProcessEntry}
    (hp : Climbs all category p) : Ordinary all category (appRootOf all category p) := by
  have hreached := (topOf_appRootOf hall category hp.1).reached
  generalize appRootOf all category p = root at hreached ⊢
  rcases Relation.ReflTransGen.cases_head hreached with rfl | ⟨x, hx, -⟩
  · exact ⟨hp.1, hp.2.2⟩
  · exact (mem_of_adopter hx).2

theorem mem_windowRoots_iff (hall : Distinct all) {category : Categories} {p : ProcessEntry}
    (hp : p ∈ all) : p.pid ∈ windowRoots all category ↔ Root all category p := by
  unfold windowRoots
  rw [List.mem_dedup, List.mem_map]
  constructor
  · rintro ⟨q, hq, hpid⟩
    obtain ⟨hq, hcond⟩ := List.mem_filter.mp hq
    rw [Bool.and_eq_true, decide_eq_true_eq] at hcond
    exact ⟨q, ⟨hq, hcond⟩, Multimap.eq_of_key hall (mem_appRootOf hall category hq) hp hpid⟩
  · rintro ⟨q, ⟨hq, hwindow, hcat⟩, rfl⟩
    exact ⟨q, List.mem_filter.mpr ⟨hq, by simp [hwindow, hcat]⟩, rfl⟩

theorem rawParent_eq_some_iff (hall : Distinct all) {a b : ProcessEntry} (ha : a ∈ all) :
    rawParent all b = some a.pid ↔ parentEntry all b = some a := by
  have hby : byPid all a.pid = some a := collect_map hall id ha
  unfold parentEntry
  rw [Option.bind_eq_some_iff]
  constructor
  · intro h
    exact ⟨a.pid, h, hby⟩
  · rintro ⟨k, hk, hka⟩
    rw [hk, (mem_of_byPid hka).2]

/-- The pids a pid owns directly are those of the processes its process owns. -/
theorem mem_ownNext_iff (hall : Distinct all) {category : Categories} {a : ProcessEntry}
    (ha : a ∈ all) {k : ℕ} :
    k ∈ ownNext all (windowRoots all category) category a.pid ↔
      ∃ b ∈ all, b.pid = k ∧ Ascent.Owns (parentEntry all) (Ordinary all category) Barren
        (Root all category) a b := by
  have hby : byPid all a.pid = some a := collect_map hall id ha
  unfold ownNext Ascent.Owns Ordinary Barren
  by_cases hsystem : category a.pid = some .system
  · simp [hsystem]
  by_cases hshell : isNonOwningShell a.name = true
  · simp [hsystem, hby, hshell]
  simp only [hsystem, hby, hshell, if_false, Bool.false_eq_true, List.mem_map, List.mem_filter,
    rawChildren, Multimap.mem_get_ofLinks]
  refine exists_congr fun b => ?_
  constructor
  · rintro ⟨⟨⟨hb, hlink⟩, hcond⟩, hk⟩
    simp only [Bool.not_eq_true', Bool.or_eq_false_iff, decide_eq_false_iff_not] at hcond
    exact ⟨hb, hk, (rawParent_eq_some_iff hall ha).mp hlink, ⟨ha, hsystem⟩, ⟨hb, hcond.2⟩,
      not_false, mt (mem_windowRoots_iff hall hb).mpr hcond.1⟩
  · rintro ⟨hb, hk, hlink, -, ⟨-, hcat⟩, -, hroot⟩
    refine ⟨⟨⟨hb, (rawParent_eq_some_iff hall ha).mpr hlink⟩, ?_⟩, hk⟩
    simp only [Bool.not_eq_true', Bool.or_eq_false_iff, decide_eq_false_iff_not]
    exact ⟨mt (mem_windowRoots_iff hall hb).mp hroot, hcat⟩

/-- What can be reached from the roots by pid is what they own. -/
theorem reach_iff_owned (hall : Distinct all) {category : Categories} {p : ProcessEntry}
    (hp : p ∈ all) :
    (∃ root ∈ windowRoots all category,
        Worklist.Reach (ownNext all (windowRoots all category) category) root p.pid) ↔
      Owned all category p := by
  constructor
  · rintro ⟨root, hroot, hreach⟩
    -- every root is the pid of a process
    obtain ⟨q, hq, rfl⟩ := List.mem_map.mp (List.mem_dedup.mp hroot)
    have hqroot : Root all category (appRootOf all category q) := by
      obtain ⟨hq, hcond⟩ := List.mem_filter.mp hq
      rw [Bool.and_eq_true, decide_eq_true_eq] at hcond
      exact ⟨q, ⟨hq, hcond⟩, rfl⟩
    have hqmem := mem_appRootOf hall category (List.mem_filter.mp hq).1
    generalize appRootOf all category q = r at hreach hqroot hqmem
    have hdown : ∀ k, Worklist.Reach (ownNext all (windowRoots all category) category) r.pid k →
        ∃ b ∈ all, b.pid = k ∧ Owned all category b := by
      intro k hk
      induction hk with
      | refl => exact ⟨r, hqmem, rfl, Ascent.Owned.of_top hqroot⟩
      | tail _ hstep ih =>
        obtain ⟨a, ha, rfl, t, ht, hta⟩ := ih
        obtain ⟨b, hb, hkb, howns⟩ := (mem_ownNext_iff hall ha).mp hstep
        exact ⟨b, hb, hkb, t, ht, hta.tail howns⟩
    obtain ⟨b, hb, hpid, howned⟩ := hdown p.pid hreach
    obtain rfl := Multimap.eq_of_key hall hb hp hpid
    exact howned
  · rintro ⟨r, hr, hrp⟩
    have hrmem : r ∈ all := by
      obtain ⟨q, hq, rfl⟩ := hr
      exact mem_appRootOf hall category hq.1
    refine ⟨r.pid, (mem_windowRoots_iff hall hrmem).mpr hr, ?_⟩
    clear hp
    induction hrp with
    | refl => exact Relation.ReflTransGen.refl
    | @tail a b _ hab ih =>
      exact ih.tail ((mem_ownNext_iff hall hab.2.1.1).mpr ⟨b, hab.2.2.1.1, rfl, hab⟩)

/-! ### The sections -/

/-- What the walk that lifts busy tasks out never pops keeps its section. -/
theorem promote_keeps {roots : List ℕ} {category : Categories} {k : ℕ}
    (h : ∀ p ∈ all, p.pid = k → p.hasWindow = true ∨ k ∈ roots) :
    promoteBusyExternalTasks all roots category k = category k := by
  have hpushed : ∀ p ∈ all, p.hasWindow = false → p.pid ∉ roots → p.pid ≠ k := by
    rintro p hp hwindow hroot rfl
    rcases h p hp rfl with hw | hr
    · rw [hwindow] at hw
      cases hw
    · exact hroot hr
  -- no pid on the stack is `k`
  let Inv : Categories × List ℕ → Prop := fun s => s.1 k = category k ∧ ∀ pid ∈ s.2, pid ≠ k
  suffices hkeep : Inv (While.run (Worklist.pop (promoteVisit all roots)) (promoteFuel all)
      (category, (busyExternal all roots category).reverse)) from hkeep.1
  refine While.run_induct Inv ?_ _ ?_
  · rintro ⟨c, stack⟩ s' ⟨hc, hstack⟩ hpop
    cases stack with
    | nil => cases hpop
    | cons pid stack =>
      obtain rfl := Option.some.inj hpop
      refine ⟨?_, fun j hj => ?_⟩
      · show Function.update c pid _ k = _
        rw [Function.update_of_ne (hstack pid List.mem_cons_self).symm]
        exact hc
      · rcases List.mem_append.mp hj with hj | hj
        · obtain ⟨kid, hkid, rfl⟩ := List.mem_map.mp (List.mem_reverse.mp hj)
          obtain ⟨hkid, hcond⟩ := List.mem_filter.mp hkid
          simp only [Bool.and_eq_true, Bool.not_eq_true', decide_eq_true_eq,
            decide_eq_false_iff_not] at hcond
          exact hpushed kid (mem_all_of_mem_rawChildren hkid) hcond.1.1 hcond.2
        · exact hstack j (List.mem_cons_of_mem _ hj)
  · refine ⟨rfl, fun j hj => ?_⟩
    obtain ⟨p, hp, rfl⟩ := List.mem_map.mp (List.mem_reverse.mp hj)
    obtain ⟨hp, hcond⟩ := List.mem_filter.mp hp
    simp only [Bool.and_eq_true, Bool.not_eq_true', decide_eq_true_eq,
      decide_eq_false_iff_not] at hcond
    exact hpushed p hp hcond.1.1.1.1 hcond.1.2

/-- A process of the platform's system section, or with the image name of one. -/
def IsSystem (p : ProcessEntry) : Prop := p.category = .system ∨ isSystemBoundary p.name = true

instance : DecidablePred IsSystem := fun _ => inferInstanceAs (Decidable (_ ∨ _))

theorem platformCategory_eq (hall : Distinct all) {p : ProcessEntry} (hp : p ∈ all) :
    platformCategory all p.pid = some (if IsSystem p then .system else .background) :=
  collect_map hall (fun p => if IsSystem p then ProcCategory.system else .background) hp

theorem platformCategory_eq_system_iff (hall : Distinct all) {p : ProcessEntry} (hp : p ∈ all) :
    platformCategory all p.pid = some .system ↔ IsSystem p := by
  rw [platformCategory_eq hall hp]
  split_ifs with h <;> simp [h]

/-- Whatever windows are known: every window of no system process is in the app section, and so is
the root it folds into. -/
def WindowsAreApps (hash : PageHash) (all : List ProcessEntry) : Prop :=
  ∀ p ∈ all, p.hasWindow = true → ¬IsSystem p →
    (deriveDisplayGroups hash all).category p.pid = some .app ∧
      (appRootOf all (platformCategory all) p).pid ∈ (deriveDisplayGroups hash all).appRoots ∧
      (deriveDisplayGroups hash all).category (appRootOf all (platformCategory all) p).pid =
        some .app

instance (hash : PageHash) (all : List ProcessEntry) : Decidable (WindowsAreApps hash all) :=
  inferInstanceAs (Decidable (∀ p ∈ all, p.hasWindow = true → ¬IsSystem p → _ ∧ _ ∧ _))

/-- Every shell on the way up from a window has a window itself, and the way up from there comes
back to the process below it. -/
def ShellsComeBack (all : List ProcessEntry) : Prop :=
  ∀ p ∈ all, p.hasWindow = true → ¬IsSystem p → ∀ x shell,
    Above (adopter all (platformCategory all)) x p →
      adopter all (platformCategory all) x = some shell → isNonOwningShell shell.name = true →
        shell.hasWindow = true ∧ Above (adopter all (platformCategory all)) x shell

/-- The section of a process that the walk which lifts busy tasks out leaves alone. -/
theorem category_eq_app_iff (hash : PageHash) (hall : Distinct all) {p : ProcessEntry}
    (hp : p ∈ all) (hsystem : ¬IsSystem p) (hwindows : ∃ q ∈ all, q.hasWindow = true)
    (hkept : p.hasWindow = true ∨ Root all (platformCategory all) p) :
    (deriveDisplayGroups hash all).category p.pid = some .app ↔
      Owned all (platformCategory all) p := by
  have hany : (!all.any ProcessEntry.hasWindow) = false := by
    rw [Bool.not_eq_false', List.any_eq_true]
    exact hwindows
  have hcat := mt (platformCategory_eq_system_iff hall hp).mp hsystem
  have hback : platformCategory all p.pid = some .background := by
    rw [platformCategory_eq hall hp, if_neg hsystem]
  unfold deriveDisplayGroups
  simp only [hany, Bool.false_eq_true, if_false]
  rw [promote_keeps fun q hq hpid => ?_]
  · obtain ⟨pids, hmem, howned⟩ := ownDescendants_eq hash all
      (windowRoots all (platformCategory all)) (platformCategory all)
    rw [howned, ← reach_iff_owned hall hp, ← hmem, owned]
    by_cases hin : p.pid ∈ pids
    · simp [hin, hcat]
    · simp [hin, hback]
  · obtain rfl := Multimap.eq_of_key hall hq hp hpid
    exact hkept.imp_right (mem_windowRoots_iff hall hp).mpr

/-- **Every window is an app exactly when every shell on the way up from a window has a window
itself and the climb from there comes back.** -/
theorem windows_are_apps_iff (hash : PageHash) {all : List ProcessEntry} (hall : Distinct all) :
    WindowsAreApps hash all ↔ ShellsComeBack all := by
  have hclimbs : ∀ p, Climbs all (platformCategory all) p ↔
      p ∈ all ∧ p.hasWindow = true ∧ ¬IsSystem p := fun p =>
    and_congr_right fun hp => and_congr_right fun _ =>
      not_congr (platformCategory_eq_system_iff hall hp)
  have howned : (∀ p, Climbs all (platformCategory all) p → Owned all (platformCategory all) p) ↔
      ∀ p x shell, Climbs all (platformCategory all) p →
        Above (adopter all (platformCategory all)) x p →
          adopter all (platformCategory all) x = some shell → Barren shell →
            Climbs all (platformCategory all) shell ∧
              Above (adopter all (platformCategory all)) x shell :=
    Ascent.owned_iff (fun x y hy => ⟨(mem_of_adopter hy).1, (mem_of_adopter hy).2⟩)
      (fun q hq => topOf_appRootOf hall _ hq.1) (fun q hq => ⟨hq.1, hq.2.2⟩)
  constructor
  · intro happs p hp hwindow hsystem x shell hx hshell hbarren
    have hall' : ∀ q, Climbs all (platformCategory all) q → Owned all (platformCategory all) q := by
      intro q hq
      obtain ⟨hqmem, hqwindow, hqsystem⟩ := (hclimbs q).mp hq
      exact (category_eq_app_iff hash hall hqmem hqsystem ⟨q, hqmem, hqwindow⟩
        (.inl hqwindow)).mp (happs q hqmem hqwindow hqsystem).1
    obtain ⟨hclimb, habove⟩ := howned.mp hall' p x shell
      ((hclimbs p).mpr ⟨hp, hwindow, hsystem⟩) hx hshell hbarren
    exact ⟨hclimb.2.1, habove⟩
  · intro hback p hp hwindow hsystem
    have hclimb := (hclimbs p).mpr ⟨hp, hwindow, hsystem⟩
    have hp' : Owned all (platformCategory all) p := by
      refine howned.mpr (fun q x shell hq hx hshell hbarren => ?_) p hclimb
      obtain ⟨hqmem, hqwindow, hqsystem⟩ := (hclimbs q).mp hq
      obtain ⟨hw, habove⟩ := hback q hqmem hqwindow hqsystem x shell hx hshell hbarren
      exact ⟨⟨(mem_of_adopter hshell).2.1, hw, (mem_of_adopter hshell).2.2⟩, habove⟩
    -- the root is owned as a root
    have hroot : Root all (platformCategory all) (appRootOf all (platformCategory all) p) :=
      ⟨p, hclimb, rfl⟩
    obtain ⟨hmem, hcat⟩ := ordinary_appRootOf hall hclimb
    have hsys := mt (platformCategory_eq_system_iff hall hmem).mpr hcat
    refine ⟨(category_eq_app_iff hash hall hp hsystem ⟨p, hp, hwindow⟩ (.inl hwindow)).mpr hp',
      ?_, (category_eq_app_iff hash hall hmem hsys ⟨p, hp, hwindow⟩ (.inr hroot)).mpr
        (Ascent.Owned.of_top hroot)⟩
    have hany : (!all.any ProcessEntry.hasWindow) = false := by
      rw [Bool.not_eq_false', List.any_eq_true]
      exact ⟨p, hp, hwindow⟩
    unfold deriveDisplayGroups
    simp only [hany, Bool.false_eq_true, if_false]
    exact (mem_windowRoots_iff hall hmem).mpr hroot

/-- Two shells, each recorded as the parent of the other: each is the root of the other's climb. -/
theorem windows_are_apps_iff_cycle :
    let shell : ProcessEntry :=
      { pid := 1, ppid := some 2, name := "explorer".toList, hasWindow := true }
    let other : ProcessEntry :=
      { pid := 2, ppid := some 1, name := "explorer".toList, hasWindow := true }
    WindowsAreApps insertedHash [shell, other] ∧ ShellsComeBack [shell, other] := by
  intro shell other
  have happs : WindowsAreApps insertedHash [shell, other] := by decide +kernel
  exact ⟨happs, (windows_are_apps_iff insertedHash (by decide)).mp happs⟩

/-- A window whose parent is a shell without the extension in its name: the climb goes on to the
shell, which owns nothing. -/
theorem window_below_shell :
    ¬WindowsAreApps insertedHash
      [{ pid := 1, name := "explorer".toList },
        { pid := 2, ppid := some 1, name := "explorer".toList, hasWindow := true }] := by
  decide +kernel

end Processes

end Taskman
