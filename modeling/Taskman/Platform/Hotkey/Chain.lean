import Taskman.LTS.Machine
import Taskman.Platform.Hotkey.Hook

/-!
# The hook chain

The hook thread serves the messages of its queue one at a time; between two messages the callback
runs, once for each installed copy that sees an event.  Other threads post messages and write the
shared globals at any time.  Installing a hook and posting a message may fail.

* `HookThread.step` : one action;
* `HookSlots.Stage` : the three shapes the slots can have, each with what is installed then;
* `hook_chain` : **what is installed is what the slots hold**, from the first message to the
  removal of the last copy.

Hooks that the system removes on its own account are not part of the model.
-/

namespace Taskman

namespace Hotkey

/-- The hook thread, with what the worker has last asked it for. -/
structure HookThread where
  slots : HookSlots := {}
  escape : EscapeTrack := {}
  shared : Shared := {}
  running : Bool := true
  /-- `installed` of the worker thread. -/
  requested : Bool := false
  /-- The last `WM_SET_HOOK` served asked for the hook. -/
  enabled : Bool := false
  /-- `set_hook` has installed a hook since. -/
  succeeded : Bool := false

/-- What can happen next in the hook thread or to it. -/
inductive HookAction where
  /-- A message is posted to the thread. -/
  | post (msg : HookMsg)
  /-- `sync_hook_state` of the worker finds the replacement enabled or not. -/
  | sync (enabled : Bool) (posted : Bool)
  /-- The worker leaves its loop. -/
  | workerExit (posted : Bool)
  /-- Other threads write their globals. -/
  | others (shared : Shared)
  /-- The thread serves the next message. -/
  | serve (r : Reading)
  /-- The callback of one copy runs. -/
  | callback (ev : KeyEvent) (r : Reading)

/-- A handle that is given out is not null and not in use. -/
def HookSlots.freshFor (s : HookSlots) (r : Reading) : Bool :=
  match r.installed with
  | some h => h != 0 && !s.chain.live.contains h
  | none => true

/-- A copy of the hook is installed. -/
def HookSlots.isInstalled (s : HookSlots) : Bool := !s.chain.live.isEmpty

/-- A message put into the queue of the thread. -/
def HookSlots.post (s : HookSlots) (msg : HookMsg) : HookSlots :=
  { s with queue := s.queue ++ [msg] }

namespace HookThread

/-- A message posted to the thread, which reaches it only while it runs. -/
def postMsg (s : HookThread) (posted : Bool) (msg : HookMsg) : HookThread :=
  if posted && s.running then { s with slots := s.slots.post msg } else s

/-- `set_hook`, called by the message loop. -/
def serveSetHook (s : HookThread) (wanted : Bool) (r : Reading) : HookThread :=
  let (slots, escape) := setHook wanted s.slots s.escape r
  let installs := s.slots.currentHook == 0 && r.installed.isSome
  { s with
    slots := slots
    escape := escape
    enabled := wanted
    succeeded := wanted && ((s.enabled && s.succeeded) || installs) }

/-- One message of the queue. -/
def serve (s : HookThread) (r : Reading) : HookMsg → Option HookThread
  | .setHook install => if s.slots.freshFor r then some (s.serveSetHook install r) else none
  | .retireHook => some { s with slots := s.slots.finishMoveToFront }
  | .moveToFront =>
    if s.slots.finishMoveToFront.freshFor r then
      some { s with slots := s.slots.finishMoveToFront.beginMoveToFront r }
    else none
  -- the loop ends and the thread removes what is left
  | .quit => some { s.serveSetHook false r with running := false }

/-- One action of the hook thread or of another one. -/
def step (s : HookThread) : HookAction → Option HookThread
  | .post msg => some (s.postMsg true msg)
  | .sync enabled posted =>
    let s := { s with shared := { s.shared with replacementEnabled := enabled } }
    if enabled = s.requested then some s
    else some ({ s with requested := enabled }.postMsg posted (.setHook enabled))
  | .workerExit posted => some (if s.requested then s.postMsg posted (.setHook false) else s)
  | .others shared => some { s with shared := shared }
  | .serve r =>
    match s.running, s.slots.queue with
    | true, msg :: queue => { s with slots := { s.slots with queue := queue } }.serve r msg
    | _, _ => none
  | .callback ev r =>
    if s.running && s.slots.isInstalled && s.slots.freshFor r then
      let (_, slots, shared, escape) := lowLevelKeyboardProc s.slots s.shared s.escape ev r
      some { s with slots := slots, shared := shared, escape := escape }
    else none

end HookThread

/-! ### The slots -/

/-- What the slots can look like: no copy, one, or a fresh one in front of the one that retires. -/
inductive HookSlots.Stage (s : HookSlots) : Prop where
  | off (current : s.currentHook = 0) (retiring : s.retiringHook = 0) (holds : s.chain.Holds [])
  | one (current : s.currentHook ≠ 0) (retiring : s.retiringHook = 0)
    (holds : s.chain.Holds [s.currentHook])
  | two (current : s.currentHook ≠ 0) (retiring : s.retiringHook ≠ 0)
    (holds : s.chain.Holds [s.currentHook, s.retiringHook])

/-- A copy that retires has its removal in the queue. -/
def HookSlots.RetirePending (s : HookSlots) : Prop :=
  s.retiringHook ≠ 0 → HookMsg.retireHook ∈ s.queue

theorem HookSlots.notMem_of_freshFor {s : HookSlots} {r : Reading} (hf : s.freshFor r = true)
    {h : ℕ} (hr : r.installed = some h) : h ≠ 0 ∧ h ∉ s.chain.live := by
  simpa [freshFor, hr] using hf

namespace HookSlots.Stage

variable {s : HookSlots} {r : Reading}

theorem setQueue (h : s.Stage) (queue : List HookMsg) :
    HookSlots.Stage { s with queue := queue } := by
  cases h with
  | off hc hr hh => exact .off hc hr hh
  | one hc hr hh => exact .one hc hr hh
  | two hc hr hh => exact .two hc hr hh

/-- Retiring leaves at most the current copy. -/
theorem finishMoveToFront (h : s.Stage) :
    s.finishMoveToFront.Stage ∧ s.finishMoveToFront.retiringHook = 0 ∧
      s.finishMoveToFront.currentHook = s.currentHook ∧
      s.finishMoveToFront.queue = s.queue := by
  unfold HookSlots.finishMoveToFront HookSlots.unhook
  cases h with
  | off hc hr hh =>
    rw [if_neg (not_not.mpr hr)]
    exact ⟨.off hc rfl hh, rfl, rfl, rfl⟩
  | one hc hr hh =>
    rw [if_neg (not_not.mpr hr)]
    exact ⟨.one hc rfl hh, rfl, rfl, rfl⟩
  | two hc hr hh =>
    rw [if_pos hr]
    exact ⟨.one hc rfl (hh.reorder (List.Perm.swap _ _ _)).release, rfl, rfl, rfl⟩

/-- A move to the front puts the fresh copy before the current one, or changes nothing. -/
theorem beginMoveToFront (h : s.Stage) (hp : s.RetirePending) (hf : s.freshFor r = true) :
    (s.beginMoveToFront r).Stage ∧ (s.beginMoveToFront r).RetirePending ∧
      ((s.beginMoveToFront r).currentHook = 0 ↔ s.currentHook = 0) := by
  unfold HookSlots.beginMoveToFront
  cases h with
  | off hc hr hh =>
    rw [if_pos (Or.inl hc)]
    exact ⟨.off hc hr hh, hp, Iff.rfl⟩
  | two hc hr hh =>
    rw [if_pos (Or.inr hr)]
    exact ⟨.two hc hr hh, hp, Iff.rfl⟩
  | one hc hr hh =>
    rw [if_neg (by simp [hc, hr])]
    cases hi : r.installed with
    | none => exact ⟨.one hc hr hh, hp, Iff.rfl⟩
    | some fresh =>
      obtain ⟨hne, hnew⟩ := notMem_of_freshFor hf hi
      have hfresh := hh.acquire hnew
      cases hpost : r.posted with
      | true =>
        refine ⟨.two hne hc hfresh, fun _ => ?_, ?_⟩
        · simp
        · exact iff_of_false hne hc
      | false =>
        -- the fresh copy goes again, and the slots are as before
        simp only [HookSlots.unhook, Bool.false_eq_true, if_false, if_pos hne]
        exact ⟨.one hc rfl hfresh.release, fun h => absurd rfl h, trivial⟩

/-- Switching on installs a copy where there is none. -/
theorem setHook_true (h : s.Stage) (hp : s.RetirePending) (hf : s.freshFor r = true)
    (e : EscapeTrack) :
    (setHook true s e r).1.Stage ∧ (setHook true s e r).1.RetirePending ∧
      ((setHook true s e r).1.currentHook ≠ 0 ↔
        s.currentHook ≠ 0 ∨ (s.currentHook = 0 ∧ r.installed.isSome = true)) := by
  by_cases hc : s.currentHook = 0
  · cases h with
    | off _ hr hh =>
      cases hi : r.installed with
      | none =>
        have hset : setHook true s e r = (s, e) := by simp [setHook, hc, hi]
        rw [hset]
        exact ⟨.off hc hr hh, hp, by simp [hc]⟩
      | some fresh =>
        have hset : setHook true s e r =
            ({ s with chain := s.chain.acquire fresh, currentHook := fresh }, e) := by
          simp [setHook, hc, hi]
        obtain ⟨hne, hnew⟩ := notMem_of_freshFor hf hi
        rw [hset]
        exact ⟨.one hne hr (hh.acquire hnew), hp, by simp [hne, hc]⟩
    | one hc' => exact absurd hc hc'
    | two hc' => exact absurd hc hc'
  · have hset : setHook true s e r = (s, e) := by simp [setHook, hc]
    rw [hset]
    exact ⟨h, hp, by simp [hc]⟩

/-- Switching off removes every copy. -/
theorem setHook_false (h : s.Stage) (e : EscapeTrack) :
    (setHook false s e r).1.Stage ∧ (setHook false s e r).1.RetirePending ∧
      (setHook false s e r).1.currentHook = 0 := by
  by_cases hc : s.currentHook = 0
  · have hset : setHook false s e r = (s, e) := by simp [setHook, hc]
    rw [hset]
    cases h with
    | off _ hr hh => exact ⟨.off hc hr hh, fun h => absurd hr h, hc⟩
    | one hc' => exact absurd hc hc'
    | two hc' => exact absurd hc hc'
  · have hset : setHook false s e r =
        ({ s.finishMoveToFront.unhook s.finishMoveToFront.currentHook with currentHook := 0 },
          {}) := by
      simp [setHook, hc]
    obtain ⟨hstage, hret, hcur, -⟩ := h.finishMoveToFront
    have hc' : s.finishMoveToFront.currentHook ≠ 0 := hcur ▸ hc
    rw [hset]
    simp only [HookSlots.unhook, if_pos hc']
    cases hstage with
    | off h0 => exact absurd h0 hc'
    | one _ hr hh => exact ⟨.off rfl hr hh.release, fun h => absurd hr h, trivial⟩
    | two _ hr => exact absurd hret hr

/-- What is installed is what the slots hold. -/
theorem mem_live_iff (h : s.Stage) (raw : ℕ) :
    raw ∈ s.chain.live ↔ raw ≠ 0 ∧ (raw = s.currentHook ∨ raw = s.retiringHook) := by
  cases h with
  | off hc hr hh =>
    rw [hh.mem_iff, hc, hr]
    simp
  | one hc hr hh =>
    rw [hh.mem_iff, hr, List.mem_singleton]
    refine ⟨?_, fun ⟨hne, h⟩ => h.resolve_right hne⟩
    rintro rfl
    exact ⟨hc, Or.inl rfl⟩
  | two hc hr hh =>
    rw [hh.mem_iff]
    refine ⟨fun hm => ?_, fun ⟨_, h⟩ => by simpa using h⟩
    rcases List.mem_pair.mp hm with rfl | rfl
    · exact ⟨hc, Or.inl rfl⟩
    · exact ⟨hr, Or.inr rfl⟩

theorem live_nodup (h : s.Stage) : s.chain.live.Nodup := by
  cases h with
  | off _ _ hh => exact hh.live_nodup
  | one _ _ hh => exact hh.live_nodup
  | two _ _ hh => exact hh.live_nodup

theorem length_le (h : s.Stage) : s.chain.live.length ≤ 2 := by
  cases h with
  | off _ _ hh => rw [hh.perm.length_eq]; simp
  | one _ _ hh => rw [hh.perm.length_eq]; simp
  | two _ _ hh => rw [hh.perm.length_eq]; simp

theorem stray (h : s.Stage) : s.chain.stray = 0 := by
  cases h with
  | off _ _ hh => exact hh.stray
  | one _ _ hh => exact hh.stray
  | two _ _ hh => exact hh.stray

theorem live_eq_nil_iff (h : s.Stage) : s.chain.live = [] ↔ s.currentHook = 0 := by
  cases h with
  | off hc _ hh => exact iff_of_true (List.perm_nil.mp hh.perm) hc
  | one hc _ hh =>
    refine iff_of_false (fun hnil => ?_) hc
    have hm := hh.mem_iff.mpr List.mem_cons_self
    rw [hnil] at hm
    exact List.not_mem_nil hm
  | two hc _ hh =>
    refine iff_of_false (fun hnil => ?_) hc
    have hm := hh.mem_iff.mpr List.mem_cons_self
    rw [hnil] at hm
    exact List.not_mem_nil hm

end HookSlots.Stage

/-- The callback moves the hook to the front, or leaves the slots alone. -/
theorem lowLevelKeyboardProc_slots (s : HookSlots) (g : Shared) (e : EscapeTrack) (ev : KeyEvent)
    (r : Reading) :
    (lowLevelKeyboardProc s g e ev r).2.1 = s ∨
      (lowLevelKeyboardProc s g e ev r).2.1 = s.beginMoveToFront r := by
  unfold lowLevelKeyboardProc
  split_ifs
  · exact Or.inl rfl
  · exact Or.inr rfl
  · exact Or.inr rfl
  · exact Or.inl rfl
  · exact Or.inl rfl

/-! ### Runs -/

/-- The invariant of the hook thread. -/
structure HookThread.Ok (s : HookThread) : Prop where
  stage : s.slots.Stage
  pending : s.slots.RetirePending
  enabled : s.enabled = false → s.slots.currentHook = 0
  succeeded : s.enabled = true → s.succeeded = true → s.slots.currentHook ≠ 0
  stopped : s.running = false → s.slots.currentHook = 0

theorem HookThread.ok_start : HookThread.Ok {} :=
  ⟨.off rfl rfl HandleTable.holds_empty, fun h => absurd rfl h, fun _ => rfl,
    fun h => absurd h Bool.false_ne_true, fun h => absurd h.symm Bool.false_ne_true⟩

namespace HookThread.Ok

variable {s s' : HookThread} {r : Reading}

theorem setSlots (h : s.Ok) {slots : HookSlots} (hs : slots.Stage) (hp : slots.RetirePending)
    (hc : slots.currentHook = 0 ↔ s.slots.currentHook = 0) :
    HookThread.Ok { s with slots := slots } :=
  ⟨hs, hp, fun he => hc.mpr (h.enabled he),
    fun he hsucc => fun h0 => h.succeeded he hsucc (hc.mp h0), fun hr => hc.mpr (h.stopped hr)⟩

theorem post (h : s.Ok) (posted : Bool) (msg : HookMsg) : (s.postMsg posted msg).Ok := by
  unfold postMsg
  split_ifs
  · refine h.setSlots (h.stage.setQueue _) (fun hr => ?_) Iff.rfl
    exact List.mem_append_left _ (h.pending hr)
  · exact h

/-- Serving a request to install or remove the hook. -/
theorem serveSetHook (h : s.Ok) (wanted : Bool) (hf : wanted = true → s.slots.freshFor r = true)
    (hrun : wanted = true → s.running = true) : (s.serveSetHook wanted r).Ok := by
  cases wanted with
  | false =>
    obtain ⟨hs, hp, hc⟩ := h.stage.setHook_false (r := r) s.escape
    exact ⟨hs, hp, fun _ => hc, fun he => absurd he Bool.false_ne_true, fun _ => hc⟩
  | true =>
    obtain ⟨hs, hp, hc⟩ := h.stage.setHook_true h.pending (hf rfl) s.escape
    refine ⟨hs, hp, fun he => absurd he.symm Bool.false_ne_true, fun _ hsucc => hc.mpr ?_,
      fun hr => absurd (hrun rfl) ?_⟩
    rotate_left
    · rw [show s.running = false from hr]
      exact Bool.false_ne_true
    simp only [HookThread.serveSetHook, Bool.true_and, Bool.or_eq_true, Bool.and_eq_true,
      beq_iff_eq] at hsucc
    rcases hsucc with ⟨hen, hsucc⟩ | hinst
    · exact Or.inl (h.succeeded hen hsucc)
    · exact Or.inr hinst

end HookThread.Ok

/-- A message other than `WM_RETIRE_HOOK` is taken from the queue. -/
theorem HookThread.Ok.pop {s : HookThread} (h : s.Ok) {msg : HookMsg} {queue : List HookMsg}
    (hq : s.slots.queue = msg :: queue) (hmsg : msg ≠ .retireHook) :
    HookThread.Ok { s with slots := { s.slots with queue := queue } } := by
  refine h.setSlots (h.stage.setQueue queue) (fun hr => ?_) Iff.rfl
  have hm := h.pending hr
  rw [hq] at hm
  exact (List.mem_cons.mp hm).resolve_left hmsg.symm

/-- Serving one message. -/
theorem HookThread.ok_serve {s s' : HookThread} (h : s.Ok) {msg : HookMsg} {queue : List HookMsg}
    (hrun : s.running = true) (hq : s.slots.queue = msg :: queue) {r : Reading}
    (hserve : HookThread.serve { s with slots := { s.slots with queue := queue } } r msg =
      some s') :
    s'.Ok := by
  cases msg with
  | setHook install =>
    have hpop := h.pop hq (by simp)
    simp only [serve] at hserve
    split_ifs at hserve with hf
    cases hserve
    exact hpop.serveSetHook install (fun _ => hf) fun _ => hrun
  | retireHook =>
    cases hserve
    obtain ⟨hs, hret, hcur, -⟩ := (h.stage.setQueue queue).finishMoveToFront
    refine h.setSlots hs (fun hr => absurd hret hr) ?_
    rw [hcur]
  | moveToFront =>
    have hpop := h.pop hq (by simp)
    simp only [serve] at hserve
    split_ifs at hserve with hf
    cases hserve
    obtain ⟨hs, hret, hcur, -⟩ := hpop.stage.finishMoveToFront
    obtain ⟨hs', hp', hcur'⟩ := hs.beginMoveToFront (fun hr => absurd hret hr) hf
    refine hpop.setSlots hs' hp' ?_
    rw [hcur', hcur]
  | quit =>
    have hpop := h.pop hq (by simp)
    cases hserve
    have hoff := hpop.serveSetHook (r := r) false (fun hw => absurd hw Bool.false_ne_true)
      fun hw => absurd hw Bool.false_ne_true
    exact ⟨hoff.stage, hoff.pending, hoff.enabled, hoff.succeeded, fun _ => hoff.enabled rfl⟩

/-- **One action keeps the slots in step with the chain.** -/
theorem HookThread.ok_step {s s' : HookThread} {a : HookAction} (h : s.Ok)
    (hstep : s.step a = some s') : s'.Ok := by
  cases a with
  | post msg =>
    cases hstep
    exact h.post true msg
  | sync enabled posted =>
    have hsync : ∀ shared requested,
        HookThread.Ok { s with shared := shared, requested := requested } :=
      fun _ _ => ⟨h.stage, h.pending, h.enabled, h.succeeded, h.stopped⟩
    simp only [step] at hstep
    split_ifs at hstep
    · cases hstep
      exact hsync _ _
    · cases hstep
      exact (hsync _ _).post posted (.setHook enabled)
  | workerExit posted =>
    simp only [step] at hstep
    split_ifs at hstep
    · cases hstep
      exact h.post posted _
    · cases hstep
      exact h
  | others shared =>
    cases hstep
    exact ⟨h.stage, h.pending, h.enabled, h.succeeded, h.stopped⟩
  | serve r =>
    simp only [step] at hstep
    split at hstep
    · rename_i msg queue hrun hq
      exact HookThread.ok_serve h hrun hq hstep
    · cases hstep
  | callback ev r =>
    simp only [step] at hstep
    split_ifs at hstep with hcb
    cases hstep
    have hf : s.slots.freshFor r = true := by
      simp only [Bool.and_eq_true] at hcb
      exact hcb.2
    have hall : ∀ slots shared escape, slots.Stage → slots.RetirePending →
        (slots.currentHook = 0 ↔ s.slots.currentHook = 0) →
        HookThread.Ok { s with slots := slots, shared := shared, escape := escape } := by
      intro slots shared escape hs hp hc
      have hset := h.setSlots hs hp hc
      exact ⟨hset.stage, hset.pending, hset.enabled, hset.succeeded, hset.stopped⟩
    rcases lowLevelKeyboardProc_slots s.slots s.shared s.escape ev r with hslots | hslots
    · refine hall _ _ _ ?_ ?_ ?_ <;> rw [hslots]
      · exact h.stage
      · exact h.pending
    · obtain ⟨hs, hp, hc⟩ := h.stage.beginMoveToFront h.pending hf
      refine hall _ _ _ ?_ ?_ ?_ <;> rw [hslots]
      · exact hs
      · exact hp
      · exact hc

/-- **The hook chain**, after any interleaving of messages, callbacks, failures and writes of other
threads: what is installed is exactly what the two slots hold, each copy once and at most two; no
hook was removed twice; a superseded copy has its removal in the queue; a copy stays installed
while the hook is enabled and its installation succeeded, and none is installed once it is disabled
or the thread has ended. -/
theorem hook_chain {s : HookThread} {as : List HookAction}
    (hrun : Machine.exec HookThread.step {} as = some s) :
    (∀ raw, raw ∈ s.slots.chain.live ↔
      raw ≠ 0 ∧ (raw = s.slots.currentHook ∨ raw = s.slots.retiringHook)) ∧
    s.slots.chain.live.Nodup ∧ s.slots.chain.live.length ≤ 2 ∧ s.slots.chain.stray = 0 ∧
    (s.slots.retiringHook ≠ 0 → .retireHook ∈ s.slots.queue) ∧
    (s.enabled = true → s.succeeded = true → s.slots.chain.live ≠ []) ∧
    (s.enabled = false → s.slots.chain.live = []) ∧
    (s.running = false → s.slots.chain.live = []) := by
  have h : s.Ok := Machine.invariant (fun _ _ _ h hstep => HookThread.ok_step h hstep)
    HookThread.ok_start hrun
  refine ⟨h.stage.mem_live_iff, h.stage.live_nodup, h.stage.length_le, h.stage.stray, h.pending,
    fun he hsucc hnil => ?_, fun he => ?_, fun hr => ?_⟩
  · exact h.succeeded he hsucc (h.stage.live_eq_nil_iff.mp hnil)
  · exact h.stage.live_eq_nil_iff.mpr (h.enabled he)
  · exact h.stage.live_eq_nil_iff.mpr (h.stopped hr)

/-- The hook is installed and a Ctrl+Shift chord moves it to the front. -/
def moveRun : List HookAction :=
  [.sync true true, .serve { down := fun _ => false, now := 1, installed := some 5 },
    .others { replacementEnabled := true, targetWindow := 1, triggerEvent := 1 },
    .callback { msg := .keyDown, vkCode := vkLcontrol }
      { down := fun key => key == vkShift, now := 2, installed := some 7 }]

/-- After it both copies are installed and the old one waits for its removal. -/
theorem hook_chain_moveRun : ∃ s, Machine.exec HookThread.step {} moveRun = some s ∧
    s.slots.chain.live = [7, 5] ∧ s.slots.chain.live.length ≤ 2 ∧ s.slots.chain.live ≠ [] ∧
      .retireHook ∈ s.slots.queue := by
  obtain ⟨s, hs⟩ : ∃ s, Machine.exec HookThread.step {} moveRun = some s := ⟨_, rfl⟩
  have hlive : s.slots.chain.live = [7, 5] ∧ s.slots.retiringHook = 5 ∧ s.enabled = true ∧
      s.succeeded = true := by
    cases hs
    decide
  obtain ⟨-, -, hlen, -, hret, hup, -, -⟩ := hook_chain hs
  exact ⟨s, hs, hlive.1, hlen, hup hlive.2.2.1 hlive.2.2.2, hret (by rw [hlive.2.1]; decide)⟩

end Hotkey

end Taskman
