import Taskman.App.Modules

/-!
# The worker of an unload

A confirmed unload releases a module again and again.  After every release the worker reads the list
of modules, and it goes on only while that shows the module: at the same base, and under the same
path but for the case of its letters.  What it reports at its end is what it found last.

* `ModulesPage.forceUnload` : the loop, and what it asks of the platform;
* `ModulesPage.run_turns` : the page takes the turns of this loop;
* `ModulesPage.Reports` : at most 64 releases, each but the first after a list that shows the
  module, none after an error, and a message that is true;
* `ModulesPage.unload_reports` : **every unload reports the truth**.
-/

namespace Taskman

namespace ModulesPage

open Broker

/-! ### The loop -/

/-- What the worker asks of the platform, with the answer. -/
inductive Call where
  | release (answer : Except Text ModuleUnloadOutcome)
  | enumerate (answer : Except Text (List ProcessModule))

/-- The variables of the worker. -/
structure Findings where
  releases : ℕ := 0
  observedStillMapped : Option Bool := none
  actionError : Option Text := none
  refreshError : Option Text := none

section Worker

variable (module : ProcessModule) (released : ℕ → Except Text ModuleUnloadOutcome)
  (listed : ℕ → Except Text (List ProcessModule))

/-- The list shows the module. -/
def stillMapped (modules : List ProcessModule) : Bool :=
  Unload.stillMapped { module := module } modules

/-- What is left of the loop before its turn `turn`, the calls first. -/
def forceUnload : ℕ → ℕ → Findings → List Call × Findings
  | 0, _, found => ([], found)
  | left + 1, turn, found =>
    match released turn, listed turn with
    | .error error, .ok modules =>
      -- even a release that timed out may have completed
      ([.release (.error error), .enumerate (.ok modules)],
        { found with
          actionError := some error
          observedStillMapped := some (stillMapped module modules) })
    | .error error, .error detail =>
      ([.release (.error error), .enumerate (.error detail)],
        { found with actionError := some error, refreshError := some detail })
    | .ok outcome, .ok modules =>
      let found :=
        { found with
          releases := found.releases + 1
          observedStillMapped := some (stillMapped module modules) }
      if stillMapped module modules then
        let rest := forceUnload left (turn + 1) found
        (.release (.ok outcome) :: .enumerate (.ok modules) :: rest.1, rest.2)
      else ([.release (.ok outcome), .enumerate (.ok modules)], found)
    | .ok outcome, .error detail =>
      ([.release (.ok outcome), .enumerate (.error detail)],
        { found with
          releases := found.releases + 1
          refreshError := some detail
          observedStillMapped := outcome.stillMapped })

/-- What the worker asks from its start on. -/
def unloadCalls : List Call :=
  (forceUnload module released listed MAX_FORCE_UNLOAD_RELEASES 0 {}).1

/-- What is reported of the findings. -/
def Findings.message (found : Findings) : Toast :=
  Unload.message module.name found.releases found.observedStillMapped found.actionError
    found.refreshError

/-- What it reports. -/
def unloadMessage : Toast :=
  (forceUnload module released listed MAX_FORCE_UNLOAD_RELEASES 0 {}).2.message module

end Worker

/-! ### What is asked of it -/

/-- The call releases the module. -/
def Call.isRelease : Call → Bool
  | .release _ => true
  | .enumerate _ => false

/-- The call failed. -/
def Call.failed : Call → Bool
  | .release answer => (errorOf answer).isSome
  | .enumerate answer => (errorOf answer).isSome

/-- The list that an enumeration read, or its error. -/
def Call.list : Call → Option (Except Text (List ProcessModule))
  | .release _ => none
  | .enumerate answer => some answer

/-- The list contains the module, by its base and its path. -/
def Contains (same : Text → Text → Prop) (module : ProcessModule) (modules : List ProcessModule) :
    Prop :=
  ∃ candidate ∈ modules,
    candidate.baseAddress = module.baseAddress ∧ same candidate.path module.path

/-- What a call says about the module: the platform's own verification, or a list. -/
def Call.answer (module : ProcessModule) : Call → Option Bool
  | .release (.ok outcome) => outcome.stillMapped
  | .enumerate (.ok modules) => some (stillMapped module modules)
  | _ => none

/-- The newest answer about the module. -/
def newestAnswer (module : ProcessModule) (calls : List Call) : Option Bool :=
  (calls.filterMap (Call.answer module)).getLast?

/-- The newest enumeration. -/
def newestList (calls : List Call) : Option (Except Text (List ProcessModule)) :=
  (calls.filterMap Call.list).getLast?

/-- The worker releases only what was just seen, and reports the truth. -/
structure Reports (same : Text → Text → Prop) (module : ProcessModule) (calls : List Call)
    (message : Toast) : Prop where
  releases : calls.countP Call.isRelease ≤ 64
  /-- A release that is not the first comes directly after a list that contains the module. -/
  guarded : calls.IsChain fun before call => call.isRelease →
    ∃ modules, before = .enumerate (.ok modules) ∧ Contains same module modules
  stops : calls.Pairwise fun before call => before.failed → ¬ call.isRelease
  unloaded : ∀ name, message = .moduleUnloaded name → newestAnswer module calls = some false
  stillLoaded : ∀ count name, message = .forceStillMapped count name →
    ∃ modules, newestList calls = some (.ok modules) ∧ Contains same module modules

/-- The same path, but for the case of its letters. -/
def SamePath (a b : Text) : Prop := eqIgnoreAsciiCase a b

/-! ### The worker keeps to it -/

section Spec

variable {module : ProcessModule} {released : ℕ → Except Text ModuleUnloadOutcome}
  {listed : ℕ → Except Text (List ProcessModule)} {left turn : ℕ} {found : Findings}

theorem stillMapped_iff {modules : List ProcessModule} :
    stillMapped module modules = true ↔ Contains SamePath module modules := by
  simp [stillMapped, Unload.stillMapped, Contains, SamePath]

theorem newestAnswer_append (before after : List Call) :
    newestAnswer module (before ++ after) =
      (newestAnswer module after).or (newestAnswer module before) := by
  simp only [newestAnswer, List.filterMap_append, List.getLast?_append]

theorem newestList_append (before after : List Call) :
    newestList (before ++ after) = (newestList after).or (newestList before) := by
  simp only [newestList, List.filterMap_append, List.getLast?_append]

/-- One turn of the loop, by the two answers. -/
theorem forceUnload_induct
    {motive : ℕ → ℕ → Findings → List Call × Findings → Prop}
    (done : ∀ turn found, motive 0 turn found ([], found))
    (refused : ∀ left turn found error modules,
      motive (left + 1) turn found
        ([.release (.error error), .enumerate (.ok modules)],
          { found with
            actionError := some error
            observedStillMapped := some (stillMapped module modules) }))
    (blind : ∀ left turn found error detail,
      motive (left + 1) turn found
        ([.release (.error error), .enumerate (.error detail)],
          { found with actionError := some error, refreshError := some detail }))
    (gone : ∀ left turn found outcome modules, stillMapped module modules = false →
      motive (left + 1) turn found
        ([.release (.ok outcome), .enumerate (.ok modules)],
          { found with
            releases := found.releases + 1
            observedStillMapped := some false }))
    (unlisted : ∀ left turn found outcome detail,
      motive (left + 1) turn found
        ([.release (.ok outcome), .enumerate (.error detail)],
          { found with
            releases := found.releases + 1
            refreshError := some detail
            observedStillMapped := outcome.stillMapped }))
    (again : ∀ left turn found outcome modules rest, stillMapped module modules = true →
      motive left (turn + 1)
        { found with releases := found.releases + 1, observedStillMapped := some true } rest →
      motive (left + 1) turn found
        (.release (.ok outcome) :: .enumerate (.ok modules) :: rest.1, rest.2)) :
    ∀ left turn found,
      motive left turn found (forceUnload module released listed left turn found) := by
  intro left
  induction left with
  | zero => exact done
  | succ left ih =>
    intro turn found
    rw [forceUnload]
    cases released turn with
    | error error =>
      cases listed turn with
      | ok modules => exact refused ..
      | error detail => exact blind ..
    | ok outcome =>
      cases listed turn with
      | error detail => exact unlisted ..
      | ok modules =>
        dsimp only
        cases hmapped : stillMapped module modules with
        | false => exact gone _ _ _ _ _ hmapped
        | true => exact again _ _ _ _ _ _ hmapped (ih _ _)

/-- Every turn releases once. -/
theorem countP_forceUnload (left turn : ℕ) (found : Findings) :
    (forceUnload module released listed left turn found).1.countP Call.isRelease ≤ left := by
  apply forceUnload_induct
    (motive := fun left _ _ result => result.1.countP Call.isRelease ≤ left)
  case again =>
    intro left turn found outcome modules rest _ ih
    simpa [List.countP_cons, Call.isRelease] using ih
  all_goals intros; simp [List.countP_cons, Call.isRelease]

/-- What is shown by a list that does not end the loop. -/
theorem isChain_forceUnload (left turn : ℕ) (found : Findings) :
    (forceUnload module released listed left turn found).1.IsChain fun before call =>
      call.isRelease → ∃ modules, before = .enumerate (.ok modules) ∧
        Contains SamePath module modules := by
  apply forceUnload_induct
    (motive := fun _ _ _ result => result.1.IsChain fun before call =>
      call.isRelease → ∃ modules, before = .enumerate (.ok modules) ∧
        Contains SamePath module modules)
  case again =>
    intro left turn found outcome modules rest hmapped ih
    refine List.isChain_cons_cons.mpr ⟨nofun, List.isChain_cons.mpr ⟨fun call _ _ => ?_, ih⟩⟩
    exact ⟨modules, rfl, stillMapped_iff.mp hmapped⟩
  all_goals intros; simp [Call.isRelease]

theorem pairwise_forceUnload (left turn : ℕ) (found : Findings) :
    (forceUnload module released listed left turn found).1.Pairwise fun before call =>
      before.failed → ¬ call.isRelease := by
  apply forceUnload_induct
    (motive := fun _ _ _ result => result.1.Pairwise fun before call =>
      before.failed → ¬ call.isRelease)
  case again =>
    -- neither of the two calls has failed
    intro left turn found outcome modules rest _ ih
    exact List.pairwise_cons.mpr ⟨nofun, List.pairwise_cons.mpr ⟨nofun, ih⟩⟩
  all_goals intros; simp [Call.isRelease]

/-- Nothing is called unloaded but what the newest answer says is no longer mapped. -/
theorem newestAnswer_forceUnload (left turn : ℕ) (found : Findings)
    (hfound : found.observedStillMapped ≠ some false) :
    (forceUnload module released listed left turn found).2.observedStillMapped = some false →
      newestAnswer module (forceUnload module released listed left turn found).1 =
        some false := by
  revert hfound
  apply forceUnload_induct
    (motive := fun _ _ found result => found.observedStillMapped ≠ some false →
      result.2.observedStillMapped = some false → newestAnswer module result.1 = some false)
  case done => exact fun _ _ hfound h => absurd h hfound
  case refused =>
    intro left turn found error modules _ h
    exact h
  case blind => exact fun _ _ _ _ _ hfound h => absurd h hfound
  case gone =>
    intro left turn found outcome modules hgone _ _
    have hlist : newestAnswer module [.enumerate (.ok modules)] = some false :=
      congrArg some hgone
    change newestAnswer module ([.release (.ok outcome)] ++ [.enumerate (.ok modules)]) = _
    rw [newestAnswer_append, hlist, Option.some_or]
  case unlisted =>
    -- the list was not read: the platform has verified the release itself
    intro left turn found outcome detail _ h
    have houtcome : outcome.stillMapped = some false := h
    simp [newestAnswer, List.filterMap_cons, Call.answer, houtcome]
  case again =>
    intro left turn found outcome modules rest _ ih _ h
    change newestAnswer module ([.release (.ok outcome), .enumerate (.ok modules)] ++ rest.1) = _
    rw [newestAnswer_append, ih (by simp) h, Option.some_or]

/-- Nothing is called still loaded but what the newest list contains; `before` is the newest list
that was read before these turns. -/
theorem newestList_forceUnload (left turn : ℕ) (found : Findings)
    (before : Option (Except Text (List ProcessModule)))
    (hfound : found.observedStillMapped = some true →
      ∃ modules, before = some (.ok modules) ∧ Contains SamePath module modules) :
    (forceUnload module released listed left turn found).2.observedStillMapped = some true →
      (forceUnload module released listed left turn found).2.refreshError = none →
        ∃ modules,
          (newestList (forceUnload module released listed left turn found).1).or before =
            some (.ok modules) ∧ Contains SamePath module modules := by
  revert before
  apply forceUnload_induct
    (motive := fun _ _ found result => ∀ {before : Option (Except Text (List ProcessModule))},
      (found.observedStillMapped = some true →
        ∃ modules, before = some (.ok modules) ∧ Contains SamePath module modules) →
      result.2.observedStillMapped = some true → result.2.refreshError = none →
        ∃ modules, (newestList result.1).or before = some (.ok modules) ∧
          Contains SamePath module modules)
  case done =>
    intro turn found before hfound hmapped _
    exact hfound hmapped
  case refused =>
    intro left turn found error modules before _ hmapped _
    exact ⟨modules, rfl, stillMapped_iff.mp (Option.some.inj hmapped)⟩
  case blind => exact fun _ _ _ _ _ _ _ _ h => nomatch h
  case gone => exact fun _ _ _ _ _ _ _ _ h => nomatch h
  case unlisted => exact fun _ _ _ _ _ _ _ _ h => nomatch h
  case again =>
    intro left turn found outcome modules rest hmapped ih before _ hobserved hread
    change ∃ shown, (newestList ([.release (.ok outcome), .enumerate (.ok modules)] ++ rest.1)).or
      before = _ ∧ _
    have hlist : newestList [Call.release (.ok outcome), .enumerate (.ok modules)] =
        some (.ok modules) := rfl
    rw [newestList_append, hlist, Option.or_assoc, Option.some_or]
    exact ih (fun _ => ⟨modules, rfl, stillMapped_iff.mp hmapped⟩) hobserved hread

/-- What a message says of what the worker found. -/
theorem observed_of_message_unloaded {name : Text}
    (h : found.message module = .moduleUnloaded name) :
    found.observedStillMapped = some false := by
  by_contra hne
  unfold Findings.message Unload.message at h
  rw [if_neg hne] at h
  split at h
  · cases h
  · cases h
  · split_ifs at h

theorem observed_of_message_stillMapped {count : ℕ} {name : Text}
    (h : found.message module = .forceStillMapped count name) :
    found.observedStillMapped = some true ∧ found.refreshError = none := by
  unfold Findings.message Unload.message at h
  by_cases hgone : found.observedStillMapped = some false
  · rw [if_pos hgone] at h
    cases h
  rw [if_neg hgone] at h
  split at h
  case h_1 => cases h
  case h_2 => cases h
  case h_3 hread =>
    split_ifs at h with hmapped
    exact ⟨hmapped, hread⟩

/-- **Every unload reports the truth**: it releases at most 64 times, and only what the list just
before contains, by its base and by its path but for the case of its letters; it stops at the first
error; and the module is called unloaded, or still loaded, only if that was its newest answer. -/
theorem unload_reports (module : ProcessModule) (released : ℕ → Except Text ModuleUnloadOutcome)
    (listed : ℕ → Except Text (List ProcessModule)) :
    Reports SamePath module (unloadCalls module released listed)
      (unloadMessage module released listed) where
  releases := countP_forceUnload ..
  guarded := isChain_forceUnload ..
  stops := pairwise_forceUnload ..
  unloaded _ h := newestAnswer_forceUnload _ _ _ (by nofun) (observed_of_message_unloaded h)
  stillLoaded _ _ h := by
    obtain ⟨hmapped, hread⟩ := observed_of_message_stillMapped h
    obtain ⟨modules, hlist, hcontains⟩ :=
      newestList_forceUnload _ _ _ none (by nofun) hmapped hread
    exact ⟨modules, (Option.or_none).symm.trans hlist, hcontains⟩

/-- A list that shows the path with a capital letter is followed by a release. -/
theorem capital_released : ¬ ∀ (module : ProcessModule)
    (released : ℕ → Except Text ModuleUnloadOutcome)
    (listed : ℕ → Except Text (List ProcessModule)),
    Reports Eq module (unloadCalls module released listed)
      (unloadMessage module released listed) := by
  intro h
  let module : ProcessModule :=
    { name := "a.dll".toList, path := "c:/a.dll".toList, baseAddress := 65536, sizeBytes := 4096 }
  let listed (turn : ℕ) : Except Text (List ProcessModule) :=
    if turn = 0 then .ok [{ module with path := "C:/a.dll".toList }] else .ok []
  have hcalls : (unloadCalls module (fun _ => .ok { stillMapped := none }) listed).drop 1 =
      [.enumerate (listed 0), .release (.ok { stillMapped := none }), .enumerate (.ok [])] := rfl
  have hguarded := (h module (fun _ => .ok { stillMapped := none }) listed).guarded.drop 1
  rw [hcalls] at hguarded
  obtain ⟨modules, hlist, candidate, hmem, -, hpath⟩ :=
    (List.isChain_cons_cons.mp hguarded).1 rfl
  obtain rfl : [{ module with path := "C:/a.dll".toList }] = modules :=
    Except.ok.inj (Call.enumerate.inj hlist)
  rw [List.mem_singleton.mp hmem] at hpath
  exact absurd hpath (by decide)

end Spec

/-! ### The page takes these turns -/

section Page

variable (host : PageHost) (released : ℕ → Except Text ModuleUnloadOutcome)
  (listed : ℕ → Except Text (List ProcessModule))

/-- The next turn of the worker of a page. -/
def turnAt (turn : ℕ) : Event := .turn (released turn) (listed turn)

/-- **The turns of a page are those of the loop**, and so are the lists it shows and the message at
the end. -/
theorem run_turns (left : ℕ) {s : State} {w : Unload}
    (hworker : s.unloadWorker = some w)
    (hturns : w.turns + (left + 1) = MAX_FORCE_UNLOAD_RELEASES) :
    ∃ turns s',
      Machine.exec (step host) s ((List.range' w.turns turns).map (turnAt released listed)) =
        some s' ∧ s'.unloadWorker = none ∧
      let result := forceUnload w.module released listed (left + 1) w.turns
        { releases := w.releases, observedStillMapped := w.observedStillMapped }
      s'.toasts = s.toasts ++ [result.2.message w.module] ∧
        s'.enumerated = s.enumerated ++ result.1.filterMap Call.list := by
  have hstep : step host s (turnAt released listed w.turns) =
      some (unloadTurn s w (released w.turns) (listed w.turns)) := by
    rw [turnAt, step, hworker, Option.map_some]
  -- a turn that ends the work ends the run
  have hlast : ∀ s', unloadTurn s w (released w.turns) (listed w.turns) = s' →
      Machine.exec (step host) s ((List.range' w.turns 1).map (turnAt released listed)) =
        some s' := by
    rintro s' rfl
    rw [List.range'_one, List.map_singleton, Machine.exec_cons, hstep, Option.bind_some,
      Machine.exec_nil]
  -- the cases of one turn are those of the loop, in its order
  cases hreleased : released w.turns with
  | error error =>
    refine ⟨1, _, hlast _ rfl, ?_⟩
    cases hlisted : listed w.turns with
    | ok modules =>
      simp only [forceUnload, hreleased, hlisted]
      exact ⟨rfl, rfl, rfl⟩
    | error detail =>
      simp only [forceUnload, hreleased, hlisted]
      exact ⟨rfl, rfl, rfl⟩
  | ok outcome =>
    cases hlisted : listed w.turns with
    | error detail =>
      refine ⟨1, _, hlast _ rfl, ?_⟩
      simp only [forceUnload, hreleased, hlisted]
      exact ⟨rfl, rfl, rfl⟩
    | ok modules =>
      have hobserved : w.observed (.ok outcome) (.ok modules) =
          some (stillMapped w.module modules) := rfl
      cases hmapped : stillMapped w.module modules with
      | false =>
        refine ⟨1, _, hlast _ rfl, ?_⟩
        rw [hmapped] at hobserved
        simp only [forceUnload, hreleased, hlisted, hmapped, unloadTurn, hobserved]
        exact ⟨rfl, rfl, rfl⟩
      | true =>
        rw [hmapped] at hobserved
        cases left with
        | zero =>
          refine ⟨1, _, hlast _ rfl, ?_⟩
          have hfull : ¬ w.turns + 1 < MAX_FORCE_UNLOAD_RELEASES := by omega
          simp only [forceUnload, hreleased, hlisted, hmapped, unloadTurn, hobserved, hfull]
          exact ⟨rfl, rfl, rfl⟩
        | succ left =>
          have hgoes : w.turns + 1 < MAX_FORCE_UNLOAD_RELEASES := by omega
          let next : Unload :=
            { w with
              turns := w.turns + 1
              releases := w.releases + 1
              observedStillMapped := some true }
          have hnext : unloadTurn s w (released w.turns) (listed w.turns) =
              { s with
                load := .ready modules
                enumerated := s.enumerated ++ [.ok modules]
                unloadWorker := some next } := by
            rw [hreleased, hlisted, unloadTurn, hobserved]
            simp only [errorOf, hgoes]
            rfl
          obtain ⟨turns, s', hrun, hended, htoasts, henumerated⟩ :=
            run_turns left (s := unloadTurn s w (released w.turns) (listed w.turns)) (w := next)
              (by rw [hnext]) (by rw [← hturns]; exact Nat.succ_add_eq_add_succ ..)
          refine ⟨turns + 1, s', ?_, hended, ?_⟩
          · -- the module is still mapped and releases are left: the loop goes on as the worker does
            rw [List.range'_succ, List.map_cons, Machine.exec_cons, hstep, Option.bind_some]
            exact hrun
          · rw [forceUnload]
            simp only [hreleased, hlisted, hmapped]
            rw [hnext] at htoasts henumerated
            refine ⟨htoasts, henumerated.trans ?_⟩
            exact List.append_assoc s.enumerated [Except.ok modules] _

end Page

end ModulesPage

end Taskman
