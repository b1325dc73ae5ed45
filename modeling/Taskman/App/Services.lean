import Taskman.LTS.Machine
import Mathlib.Data.List.Basic

/-!
# Service lists and service controls

The Services page shows a cached list that a job reads from the service manager.  A control clears
the cache, is performed on a thread of its own, clears the cache once more and gives its busy flag
back.  Clearing the cache does not cancel a fetch that has already read its list.

A list is known here by how many controls had completed when it was read.

* `Services.step` : one access of what the threads share;
* `Services.Fresh` : at most one control runs, and no list that is shown while none runs is older
  than the last one;
* `Services.fresh_of_timely` : **no older list follows a control, unless a fetch still holds one
  when the control clears the cache for good**;
* `Services.stale_of_late` : and then one may.
-/

namespace Taskman

namespace Services

/-- A fetch of the list. -/
inductive Fetch where
  | queued
  /-- It has read the list when so many controls had completed. -/
  | read (after : ℕ)
  /-- It has published the list, and not given its flag back. -/
  | published
  deriving DecidableEq

/-- The thread of a control. -/
inductive Control where
  | running
  /-- The control has completed, the cache is not cleared again. -/
  | performed
  /-- The flag is not given back. -/
  | cleared
  deriving DecidableEq

/-- Where the UI thread is in `ensure_fresh` or `dispatch_control`. -/
inductive UiPhase where
  | idle
  /-- The cache is stale; before `services_fetch.begin`. -/
  | beginFetch
  | queueFetch
  /-- After `service_control.begin`, before it clears the cache. -/
  | clearForControl
  | spawnControl
  deriving DecidableEq

end Services

/-- What the page, the fetches and the controls share. -/
structure Services where
  /-- The list that is shown. -/
  cache : Option ℕ := none
  /-- How many controls have completed. -/
  completed : ℕ := 0
  fetchBusy : Bool := false
  controlBusy : Bool := false
  fetches : List Services.Fetch := []
  controls : List Services.Control := []
  ui : Services.UiPhase := .idle
  deriving DecidableEq

namespace Services

/-- What can happen next: a step of the page, of a fetch or of a control. -/
inductive Action where
  /-- `ensure_fresh` looks at the cache, which may be too old. -/
  | ensureFresh (aged : Bool)
  /-- A jump or a refresh clears the cache. -/
  | clear
  /-- `dispatch_control`, with or without a selected service. -/
  | dispatch (selected : Bool)
  /-- The UI thread goes on; a job or a thread may be refused. -/
  | ui (accepted : Bool)
  /-- A fetch goes on. -/
  | fetch (index : ℕ)
  /-- A control goes on. -/
  | control (index : ℕ)
  deriving DecidableEq

/-- The page goes on with its fetch. -/
def uiStep (s : Services) (accepted : Bool) : Option Services :=
  match s.ui with
  | .idle => none
  | .beginFetch =>
    some (if s.fetchBusy then { s with ui := .idle }
      else { s with fetchBusy := true, ui := .queueFetch })
  | .queueFetch =>
    some (if accepted then { s with fetches := s.fetches ++ [.queued], ui := .idle }
      else { s with fetchBusy := false, ui := .idle })
  | .clearForControl => some { s with cache := none, ui := .spawnControl }
  | .spawnControl =>
    some (if accepted then { s with controls := s.controls ++ [.running], ui := .idle }
      else { s with controlBusy := false, ui := .idle })

/-- The list is read in one step; one that cannot be read is published as an empty one. -/
def fetchStep (s : Services) (index : ℕ) : Option Services :=
  s.fetches[index]?.map fun
    | .queued => { s with fetches := s.fetches.set index (.read s.completed) }
    | .read after => { s with cache := some after, fetches := s.fetches.set index .published }
    | .published => { s with fetchBusy := false, fetches := s.fetches.eraseIdx index }

/-- A control goes on. -/
def controlStep (s : Services) (index : ℕ) : Option Services :=
  s.controls[index]?.map fun
    | .running =>
      { s with completed := s.completed + 1, controls := s.controls.set index .performed }
    | .performed => { s with cache := none, controls := s.controls.set index .cleared }
    | .cleared => { s with controlBusy := false, controls := s.controls.eraseIdx index }

/-- One step, where it is enabled. -/
def step (s : Services) : Action → Option Services
  | .ensureFresh aged =>
    if s.ui = .idle then some (if s.cache.isNone || aged then { s with ui := .beginFetch } else s)
    else none
  | .clear => if s.ui = .idle then some { s with cache := none } else none
  | .dispatch selected =>
    if s.ui = .idle then
      some (if s.controlBusy || !selected then s
        else { s with controlBusy := true, ui := .clearForControl })
    else none
  | .ui accepted => s.uiStep accepted
  | .fetch index => s.fetchStep index
  | .control index => s.controlStep index

/-- At most one control runs, and a list that is shown while none runs was read after the last one
completed. -/
structure Fresh (s : Services) : Prop where
  one_control : s.controls.length ≤ 1
  shown : s.controls = [] → ∀ after ∈ s.cache, s.completed ≤ after

/-- When a control clears the cache for good, no fetch holds a list that was read before the control
completed. -/
def Timely (s : Services) : Action → Prop
  | .control index => s.controls[index]? = some .performed →
      ∀ f ∈ s.fetches, ∀ after, f = .read after → s.completed ≤ after
  | _ => True

instance (s : Services) : ∀ a, Decidable (s.Timely a)
  | .control index =>
    decidable_of_iff (s.controls[index]? = some .performed →
        ∀ f ∈ s.fetches, ∀ after ∈ (match f with | .read after => some after | _ => none),
          s.completed ≤ after) <| by
      refine imp_congr_right fun _ => forall₂_congr fun f _ => ?_
      cases f <;> simp
  | .ensureFresh _ | .clear | .dispatch _ | .ui _ | .fetch _ => inferInstanceAs (Decidable True)

/-! ### One control at a time -/

/-- A control is being dispatched. -/
def UiPhase.dispatching : UiPhase → Bool
  | .clearForControl | .spawnControl => true
  | .idle | .beginFetch | .queueFetch => false

/-- The busy flag is set exactly while a control is dispatched or runs. -/
def Single (s : Services) : Prop :=
  s.controls.length + s.ui.dispatching.toNat = s.controlBusy.toNat

section Single

variable {s s' : Services} {a : Action}

theorem Single.step (h : s.Single) (hstep : step s a = some s') :
    s'.Single := by
  unfold Single at h ⊢
  cases a with
  | ensureFresh aged =>
    obtain ⟨hui, hs⟩ := Option.ite_none_right_eq_some.mp hstep
    cases hs
    split
    · rw [hui] at h
      exact h
    · exact h
  | clear =>
    obtain ⟨-, hs⟩ := Option.ite_none_right_eq_some.mp hstep
    cases hs
    exact h
  | dispatch selected =>
    obtain ⟨hui, hs⟩ := Option.ite_none_right_eq_some.mp hstep
    cases hs
    split
    · exact h
    · rename_i hfree
      -- the flag is claimed where it was free
      have hbusy : s.controlBusy = false := by simp_all
      rw [hui, hbusy] at h
      simpa [UiPhase.dispatching] using h
  | ui accepted =>
    replace hstep : s.uiStep accepted = some s' := hstep
    unfold uiStep at hstep
    cases hui : s.ui with
    | idle => simp [hui] at hstep
    | beginFetch | queueFetch =>
      simp only [hui, Option.some.injEq] at hstep h
      subst hstep
      split <;> exact h
    | clearForControl =>
      simp only [hui, Option.some.injEq] at hstep h
      subst hstep
      exact h
    | spawnControl =>
      simp only [hui, Option.some.injEq, UiPhase.dispatching, Bool.toNat_true] at hstep h
      subst hstep
      have hone := Bool.toNat_le s.controlBusy
      split
      · simpa [UiPhase.dispatching] using h
      · simp only [UiPhase.dispatching, Bool.toNat_false]
        omega
  | fetch index =>
    obtain ⟨f, -, rfl⟩ := Option.map_eq_some_iff.mp hstep
    cases f <;> exact h
  | control index =>
    obtain ⟨c, hc, rfl⟩ := Option.map_eq_some_iff.mp hstep
    cases c with
    | running | performed => simpa using h
    -- the worker clears the flag and leaves, in one step
    | cleared =>
      obtain ⟨hlt, -⟩ := List.getElem?_eq_some_iff.mp hc
      have hone := Bool.toNat_le s.controlBusy
      simp only [List.length_eraseIdx_of_lt hlt, Bool.toNat_false]
      omega

theorem Single.length_le (h : s.Single) : s.controls.length ≤ 1 := by
  have hbusy := Bool.toNat_le s.controlBusy
  unfold Single at h
  omega

/-- A control that runs is the only one. -/
theorem Single.eq_singleton (h : s.Single) {index : ℕ} {c : Control}
    (hc : s.controls[index]? = some c) : s.controls = [c] := by
  have hmem : c ∈ s.controls := List.mem_of_getElem? hc
  have hlength : s.controls.length = 1 :=
    Nat.le_antisymm h.length_le (List.length_pos_of_mem hmem)
  obtain ⟨d, hd⟩ := List.length_eq_one_iff.mp hlength
  rw [hd, List.mem_singleton] at hmem
  rw [hd, hmem]

end Single

/-! ### Lists and controls -/

/-- A list that is held or shown is as new as the last control, unless a control has completed and
not cleared the cache yet. -/
structure Current (s : Services) : Prop where
  held : ∀ after, .read after ∈ s.fetches → s.completed ≤ after ∨ .performed ∈ s.controls
  cached : ∀ after, s.cache = some after → s.completed ≤ after ∨ .performed ∈ s.controls

section Current

variable {s s' : Services} {a : Action}

theorem Current.uiStep (h : s.Current) {accepted : Bool} (hstep : s.uiStep accepted = some s') :
    s'.Current := by
  unfold Services.uiStep at hstep
  cases hui : s.ui with
  | idle => simp [hui] at hstep
  | beginFetch =>
    simp only [hui, Option.some.injEq] at hstep
    subst hstep
    split <;> exact ⟨h.held, h.cached⟩
  | queueFetch =>
    simp only [hui, Option.some.injEq] at hstep
    subst hstep
    split
    · refine ⟨fun after hmem => h.held after ?_, h.cached⟩
      simpa using hmem
    · exact ⟨h.held, h.cached⟩
  | clearForControl =>
    simp only [hui, Option.some.injEq] at hstep
    subst hstep
    exact ⟨h.held, nofun⟩
  | spawnControl =>
    simp only [hui, Option.some.injEq] at hstep
    subst hstep
    split
    · exact ⟨fun after hmem => (h.held after hmem).imp_right (List.mem_append_left _),
        fun after hmem => (h.cached after hmem).imp_right (List.mem_append_left _)⟩
    · exact ⟨h.held, h.cached⟩

/-- A fetch keeps the lists current: it reads a list that is as new as it can be. -/
theorem Current.fetchStep (h : s.Current) {index : ℕ} (hstep : s.fetchStep index = some s') :
    s'.Current := by
  obtain ⟨f, hf, rfl⟩ := Option.map_eq_some_iff.mp hstep
  have hmem : f ∈ s.fetches := List.mem_of_getElem? hf
  cases f with
  | queued =>
    refine ⟨fun after hread => ?_, h.cached⟩
    rcases List.mem_or_eq_of_mem_set hread with hold | hnew
    · exact h.held after hold
    · cases hnew
      exact Or.inl (Nat.le_refl _)
  | read after =>
    refine ⟨fun other hread => ?_, fun other hcache => ?_⟩
    · rcases List.mem_or_eq_of_mem_set hread with hold | hnew
      · exact h.held other hold
      · cases hnew
    · cases hcache
      exact h.held after hmem
  | published =>
    exact ⟨fun other hread => h.held other (List.mem_of_mem_eraseIdx hread), h.cached⟩

/-- A control that clears the cache in time leaves no older list behind. -/
theorem Current.controlStep (h : s.Current) (hsingle : s.Single) {index : ℕ}
    (hstep : s.controlStep index = some s') (htimely : s.Timely (.control index)) :
    s'.Current := by
  obtain ⟨c, hc, rfl⟩ := Option.map_eq_some_iff.mp hstep
  obtain ⟨hlt, hget⟩ := List.getElem?_eq_some_iff.mp hc
  cases c with
  | running =>
    have hperformed : Control.performed ∈ s.controls.set index .performed :=
      List.mem_set hlt _
    exact ⟨fun _ _ => Or.inr hperformed, fun _ _ => Or.inr hperformed⟩
  | performed =>
    exact ⟨fun after hread => Or.inl (htimely hc _ hread after rfl), nofun⟩
  | cleared =>
    have hnone : Control.performed ∉ s.controls := by simp [hsingle.eq_singleton hc]
    exact ⟨fun after hread => Or.inl ((h.held after hread).resolve_right hnone),
      fun after hcache => Or.inl ((h.cached after hcache).resolve_right hnone)⟩

theorem Current.step (h : s.Current) (hsingle : s.Single) (htimely : s.Timely a)
    (hstep : step s a = some s') : s'.Current := by
  cases a with
  | ensureFresh aged =>
    obtain ⟨-, hs⟩ := Option.ite_none_right_eq_some.mp hstep
    cases hs
    split <;> exact ⟨h.held, h.cached⟩
  | clear =>
    obtain ⟨-, hs⟩ := Option.ite_none_right_eq_some.mp hstep
    cases hs
    exact ⟨h.held, nofun⟩
  | dispatch selected =>
    obtain ⟨-, hs⟩ := Option.ite_none_right_eq_some.mp hstep
    cases hs
    split <;> exact ⟨h.held, h.cached⟩
  | ui accepted => exact h.uiStep hstep
  | fetch index => exact h.fetchStep hstep
  | control index => exact h.controlStep hsingle hstep htimely

end Current

/-! ### Whole runs -/

section Runs

variable {s : Services} {as : List Action}

/-- **In a run whose controls clear the cache in time, no list that is shown after a control is
older than the control, and controls run one at a time.** -/
theorem fresh_of_timely (hrun : Machine.exec step {} as = some s)
    (htimely : Machine.Along step Timely {} as) : s.Fresh := by
  have hstart : Single {} ∧ Current {} := ⟨rfl, nofun, nofun⟩
  obtain ⟨hsingle, hcurrent⟩ : s.Single ∧ s.Current :=
    Machine.invariant_of_along (I := fun s => s.Single ∧ s.Current)
      (fun s a s' h ht hstep => ⟨h.1.step hstep, h.2.step h.1 ht hstep⟩) hstart htimely hrun
  refine ⟨hsingle.length_le, fun hidle after hcache => ?_⟩
  exact (hcurrent.cached after hcache).resolve_right (by simp [hidle])

/-- **A fetch that holds an older list when a control clears the cache for good can still publish
it.** -/
theorem stale_of_late (hrun : Machine.exec step {} as = some s) {index : ℕ}
    (hlate : ¬ s.Timely (.control index)) :
    ∃ bs s', Machine.exec step s (.control index :: bs) = some s' ∧ ¬ s'.Fresh := by
  have hstart : Single {} := rfl
  have hsingle : s.Single := Machine.invariant (fun _ _ _ h hstep => h.step hstep) hstart hrun
  simp only [Timely, Classical.not_imp, not_forall, Nat.not_le] at hlate
  obtain ⟨hcontrol, f, hf, after, rfl, hafter⟩ := hlate
  have hcontrols := hsingle.eq_singleton hcontrol
  obtain rfl : index = 0 := by
    obtain ⟨hlt, -⟩ := List.getElem?_eq_some_iff.mp hcontrol
    simpa [hcontrols] using hlt
  obtain ⟨i, hi⟩ := List.mem_iff_getElem?.mp hf
  refine ⟨[.control 0, .fetch i], { s with
    cache := some after, controlBusy := false, controls := [],
    fetches := s.fetches.set i .published }, ?_, fun hfresh => ?_⟩
  · simp [Machine.exec, step, controlStep, fetchStep, hcontrols, hi]
  · exact absurd (hfresh.shown rfl after rfl) (Nat.not_le.mpr hafter)

end Runs

/-! ### A fetch beside a control -/

/-- A fetch that is done before a control begins, and another one after it. -/
def fetchedAround : List Action :=
  [.ensureFresh false, .ui true, .ui true, .fetch 0, .fetch 0, .fetch 0, .dispatch true, .ui true,
    .ui true, .control 0, .control 0, .control 0, .ensureFresh false, .ui true, .ui true, .fetch 0,
    .fetch 0]

theorem fresh_of_timely_around :
    ∃ s, Machine.exec step {} fetchedAround = some s ∧ s.cache = some 1 ∧ s.Fresh := by
  let s : Services :=
    { cache := some 1, completed := 1, fetchBusy := true, fetches := [.published] }
  have hrun : Machine.exec step {} fetchedAround = some s := by decide +kernel
  exact ⟨s, hrun, rfl, fresh_of_timely hrun (by decide +kernel)⟩

/-- A fetch reads its list before the control completes and publishes it afterwards. -/
def fetchedBefore : List Action :=
  [.ensureFresh false, .ui true, .ui true, .dispatch true, .ui true, .ui true, .fetch 0, .control 0,
    .control 0, .control 0, .fetch 0]

theorem not_fresh_fetchedBefore :
    ∃ s, Machine.exec step {} fetchedBefore = some s ∧ ¬ s.Fresh :=
  ⟨{ cache := some 0, completed := 1, fetchBusy := true, fetches := [.published] },
    by decide +kernel, fun h => absurd (h.shown rfl 0 rfl) (by decide)⟩

end Services

end Taskman
