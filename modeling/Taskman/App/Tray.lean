import Taskman.LTS.Machine
import Mathlib.Data.PNat.Notation
import Mathlib.Data.PNat.Defs

/-!
# The notification-area icon

The icon lives on a thread of its own.  The window thread stores whether it wants the icon shown
and then, if the icon thread has published its id, posts a message; the icon thread publishes its id
and then reads what is wanted, and reads it again with every message.  Each access of what both
threads share is a step of its own here.

* `Tray.step` : what either thread does next;
* `Tray.Owed` : something is on its way that makes the icon thread read again;
* `Tray.Inv` : **what the icon shows, or is about to show, is what is wanted, unless a reading is
  owed** (`Tray.Inv.step`);
* `Tray.rank_lt` : the icon thread comes to rest;
* `Tray.visibility_handshake` : **the icon at rest is as it was last asked for, and hidden for good
  after a shutdown**.
-/

namespace Taskman

namespace Tray

/-- The messages of the tray thread. -/
inductive Message where
  /-- `TRAY_MSG_APPLY_VISIBLE` -/
  | applyVisible
  /-- `WM_QUIT` -/
  | quit
  deriving DecidableEq

/-- Where the window thread is in a call of the shell. -/
inductive UiPhase where
  /-- Between two calls. -/
  | idle
  /-- In `set_visible`, before the store. -/
  | storeDesired (visible : Bool)
  /-- In `set_visible`, before it reads the thread id. -/
  | loadId
  /-- In `set_visible`, before the post. -/
  | post (threadId : ℕ)
  /-- In `shutdown`, before the store. -/
  | hide
  /-- In `shutdown`, before it swaps the thread id. -/
  | claimId
  /-- In `shutdown`, before the post. -/
  | postQuit (threadId : ℕ)
  deriving DecidableEq

/-- Where the icon thread is in `tray_thread_main`. -/
inductive ThreadPhase where
  /-- Before it creates the icon. -/
  | starting
  /-- Before it publishes its id. -/
  | created
  /-- Before it first reads what is wanted. -/
  | published
  /-- Before it shows or hides the icon. -/
  | applying (visible : Bool)
  /-- In `GetMessageW`, which ends in an error for no message of this thread. -/
  | waiting
  /-- After a message to apply, before it reads what is wanted. -/
  | received
  /-- After the loop, before it takes its id back. -/
  | quitting
  /-- Before the icon is dropped. -/
  | dropping
  /-- The icon could not be created. -/
  | failed
  | ended
  deriving DecidableEq

/-- The thread id is published and the loop not left. -/
def ThreadPhase.looping : ThreadPhase → Bool
  | .published | .applying _ | .waiting | .received => true
  | .starting | .created | .quitting | .dropping | .failed | .ended => false

/-- The icon exists. -/
def ThreadPhase.hasIcon : ThreadPhase → Bool
  | .created | .published | .applying _ | .waiting | .received | .quitting | .dropping => true
  | .starting | .failed | .ended => false

end Tray

/-- The shell of the window thread, the icon thread, and what they share. -/
structure Tray where
  /-- `TRAY_DESIRED_VISIBLE` -/
  desired : Bool
  /-- `TRAY_THREAD_ID` -/
  threadId : ℕ := 0
  /-- What was posted to the icon thread and not retrieved. -/
  queue : List Tray.Message := []
  /-- Last value the shell asked for. -/
  visible : Option Bool
  shutdown : Bool := false
  ui : Tray.UiPhase := .idle
  thread : Tray.ThreadPhase := .starting
  /-- The icon, if there is one: whether it is shown. -/
  icon : Option Bool := none
  deriving DecidableEq

namespace Tray

/-- The state after `TrayShell::new`. -/
def start (initiallyVisible : Bool) : Tray where
  desired := initiallyVisible
  visible := some initiallyVisible

/-- `PostThreadMessageW`: a thread has a queue once it has a window. -/
def postMessage (s : Tray) (m : Message) : Tray :=
  if s.thread.hasIcon then { s with queue := s.queue ++ [m] } else s

/-- What can happen next to the tray. -/
inductive Action where
  /-- A call of `set_visible`. -/
  | setVisible (visible : Bool)
  /-- A call of `shutdown`. -/
  | shutdown
  /-- The window thread goes on with its call. -/
  | ui
  /-- The icon thread creates the icon, or fails to. -/
  | create (ok : Bool)
  /-- The icon thread goes on. -/
  | thread
  deriving DecidableEq

/-- The window thread goes on with its call. -/
def uiStep (s : Tray) : Option Tray :=
  match s.ui with
  | .idle => none
  | .storeDesired visible => some { s with desired := visible, ui := .loadId }
  | .loadId => some { s with ui := if s.threadId ≠ 0 then .post s.threadId else .idle }
  | .post _ => some { s.postMessage .applyVisible with ui := .idle }
  | .hide => some { s with desired := false, ui := .claimId }
  | .claimId =>
    some { s with threadId := 0, ui := if s.threadId ≠ 0 then .postQuit s.threadId else .idle }
  | .postQuit _ => some { s.postMessage .quit with ui := .idle }

/-- The tray thread goes on. -/
def threadStep (tid : ℕ+) (s : Tray) : Option Tray :=
  match s.thread with
  | .starting => none
  | .created => some { s with threadId := tid, thread := .published }
  | .published => some { s with thread := .applying s.desired }
  | .applying visible => some { s with icon := some visible, thread := .waiting }
  | .waiting =>
    match s.queue with
    | [] => none
    | .applyVisible :: queue => some { s with queue, thread := .received }
    | .quit :: queue => some { s with queue, thread := .quitting }
  | .received => some { s with thread := .applying s.desired }
  | .quitting => some { s with threadId := 0, thread := .dropping }
  | .dropping => some { s with icon := none, thread := .ended }
  | .failed => none
  | .ended => none

/-- A call begins between two calls; a new icon is shown. -/
def step (tid : ℕ+) (s : Tray) : Action → Option Tray
  | .setVisible visible =>
    if s.ui = .idle then
      some (if s.shutdown || s.visible = some visible then s
        else { s with visible := some visible, ui := .storeDesired visible })
    else none
  | .shutdown =>
    if s.ui = .idle then
      some (if s.shutdown then s
        else { s with shutdown := true, visible := some false, ui := .hide })
    else none
  | .ui => s.uiStep
  | .create ok =>
    if s.thread = .starting then
      some (if ok then { s with icon := some true, thread := .created }
        else { s with thread := .failed })
    else none
  | .thread => s.threadStep tid

/-! ### What is owed -/

/-- Something is on its way that makes the icon thread read again, or end. -/
def Owed (s : Tray) : Prop :=
  s.queue ≠ [] ∨ s.ui = .loadId ∨ (∃ t, s.ui = .post t) ∨ s.ui = .claimId ∨ ∃ t, s.ui = .postQuit t

/-- Which calls are under way before and after a shutdown. -/
def Calls (s : Tray) : Prop :=
  match s.ui with
  | .idle => s.shutdown = true → s.visible = some false
  | .storeDesired _ | .loadId => s.shutdown = false
  | .post _ => s.shutdown = false ∧ s.thread.looping = true
  | .hide | .claimId => s.shutdown = true ∧ .quit ∉ s.queue ∧ s.visible = some false
  | .postQuit _ => s.shutdown = true ∧ s.thread.looping = true ∧ s.visible = some false

/-- What holds between any two steps. -/
structure Inv (s : Tray) : Prop where
  /-- What was asked for is wanted, once it is stored. -/
  wanted : s.visible = some (match s.ui with
    | .storeDesired visible => visible
    | .hide => false
    | _ => s.desired)
  calls : s.Calls
  /-- An id that is published is that of a thread in its loop, or just out of it. -/
  published : s.threadId ≠ 0 → s.thread.looping = true ∨ s.thread = .quitting
  /-- A thread in its loop has published its id, until the shutdown claims it. -/
  claimed : s.thread.looping = true → s.threadId = 0 →
    (∃ t, s.ui = .postQuit t) ∨ s.ui = .idle ∧ .quit ∈ s.queue
  /-- The message to quit is the last thing the window thread does. -/
  quit : (.quit ∈ s.queue ∨ s.thread = .quitting ∨ s.thread = .dropping ∨ s.thread = .ended) →
    s.shutdown = true ∧ s.ui = .idle
  /-- There is an icon exactly where the icon thread is past its creation and not at its end. -/
  exists_icon : s.icon.isSome = s.thread.hasIcon
  /-- What is about to be shown is wanted, unless a reading is owed. -/
  applying : ∀ visible, s.thread = .applying visible → visible = s.desired ∨ s.Owed
  /-- What is shown is wanted, unless a reading is owed. -/
  shown : s.thread = .waiting → s.icon = some s.desired ∨ s.Owed

theorem Inv.start (initiallyVisible : Bool) : Inv (start initiallyVisible) := by
  constructor <;> simp [Tray.start, Calls, ThreadPhase.looping, ThreadPhase.hasIcon]

section Step

variable {tid : ℕ+} {s s' : Tray}

theorem hasIcon_of_looping {thread : ThreadPhase} (h : thread.looping = true) :
    thread.hasIcon = true := by
  cases thread <;> first | rfl | cases h

theorem postMessage_of_looping (h : s.thread.looping = true) (m : Message) :
    s.postMessage m = { s with queue := s.queue ++ [m] } := if_pos (hasIcon_of_looping h)

theorem Inv.not_quit (h : Inv s) (hui : s.ui ≠ .idle) :
    ¬(.quit ∈ s.queue ∨ s.thread = .quitting ∨ s.thread = .dropping ∨ s.thread = .ended) :=
  fun hq => hui (h.quit hq).2

/-- Before the shutdown claims it, the id of a thread in its loop is published. -/
theorem Inv.threadId_ne_zero (h : Inv s) (hui : s.ui ≠ .idle) (hquit : ∀ t, s.ui ≠ .postQuit t)
    (hloop : s.thread.looping = true) : s.threadId ≠ 0 := fun hid =>
  (h.claimed hloop hid).elim (fun ⟨t, ht⟩ => hquit t ht) fun hidle => hui hidle.1

theorem Inv.looping_of_threadId (h : Inv s) (hui : s.ui ≠ .idle) (hid : s.threadId ≠ 0) :
    s.thread.looping = true :=
  (h.published hid).resolve_right fun hq => h.not_quit hui (Or.inr (Or.inl hq))

theorem looping_of_applying {visible : Bool} (h : s.thread = .applying visible) :
    s.thread.looping = true := h ▸ rfl

theorem looping_of_waiting (h : s.thread = .waiting) : s.thread.looping = true := h ▸ rfl

/-- A call of `set_visible` begins. -/
theorem Inv.setVisible (h : Inv s) (hui : s.ui = .idle) (visible : Bool)
    (hshutdown : s.shutdown = false) :
    Inv { s with visible := some visible, ui := .storeDesired visible } := by
  have hnone : ¬(.quit ∈ s.queue ∨ s.thread = .quitting ∨ s.thread = .dropping ∨
      s.thread = .ended) := fun hq => by
    rw [(h.quit hq).1] at hshutdown
    cases hshutdown
  refine ⟨rfl, hshutdown, h.published, fun hloop hid => ?_, fun hq => absurd hq hnone,
    h.exists_icon, fun v hv => ?_, fun hw => ?_⟩
  · rcases h.claimed hloop hid with ⟨t, ht⟩ | ⟨-, hq⟩
    · rw [hui] at ht
      cases ht
    · exact absurd (Or.inl hq) hnone
  · exact (h.applying v hv).imp_right fun howed => by simpa [Owed, hui] using howed
  · exact (h.shown hw).imp_right fun howed => by simpa [Owed, hui] using howed

/-- A call of `shutdown` begins. -/
theorem Inv.callShutdown (h : Inv s) (hui : s.ui = .idle) (hshutdown : s.shutdown = false) :
    Inv { s with shutdown := true, visible := some false, ui := .hide } := by
  have hnone : ¬(.quit ∈ s.queue ∨ s.thread = .quitting ∨ s.thread = .dropping ∨
      s.thread = .ended) := fun hq => by
    rw [(h.quit hq).1] at hshutdown
    cases hshutdown
  refine ⟨rfl, ⟨rfl, fun hq => hnone (Or.inl hq), rfl⟩, h.published, fun hloop hid => ?_,
    fun hq => absurd hq hnone, h.exists_icon, fun v hv => ?_, fun hw => ?_⟩
  · rcases h.claimed hloop hid with ⟨t, ht⟩ | ⟨-, hq⟩
    · rw [hui] at ht
      cases ht
    · exact absurd (Or.inl hq) hnone
  · exact (h.applying v hv).imp_right fun howed => by simpa [Owed, hui] using howed
  · exact (h.shown hw).imp_right fun howed => by simpa [Owed, hui] using howed

/-- **The window thread keeps the invariant.** -/
theorem Inv.uiStep (h : Inv s) (hstep : s.uiStep = some s') : Inv s' := by
  have hwanted := h.wanted
  have hcalls : s.Calls := h.calls
  unfold Tray.uiStep at hstep
  unfold Calls at hcalls
  cases hui : s.ui with
  | idle => simp [hui] at hstep
  | storeDesired visible =>
    simp only [hui, Option.some.injEq] at hstep hwanted hcalls
    have hbusy : s.ui ≠ .idle := by simp [hui]
    have hid := h.threadId_ne_zero hbusy (by simp [hui])
    subst hstep
    exact ⟨hwanted, hcalls, h.published, fun hloop hzero => absurd hzero (hid hloop),
      fun hq => absurd hq (h.not_quit hbusy), h.exists_icon,
      fun _ _ => Or.inr (Or.inr (Or.inl rfl)), fun _ => Or.inr (Or.inr (Or.inl rfl))⟩
  | loadId =>
    simp only [hui, Option.some.injEq] at hstep hwanted hcalls
    have hbusy : s.ui ≠ .idle := by simp [hui]
    have hid := h.threadId_ne_zero hbusy (by simp [hui])
    subst hstep
    by_cases hzero : s.threadId ≠ 0
    · rw [if_pos hzero]
      exact ⟨hwanted, ⟨hcalls, h.looping_of_threadId hbusy hzero⟩, h.published,
        fun _ hid => absurd hid hzero, fun hq => absurd hq (h.not_quit hbusy), h.exists_icon,
        fun _ _ => Or.inr (Or.inr (Or.inr (Or.inl ⟨_, rfl⟩))),
        fun _ => Or.inr (Or.inr (Or.inr (Or.inl ⟨_, rfl⟩)))⟩
    · -- no thread is in its loop: the first reading is still to come
      rw [if_neg hzero]
      have hnot : ¬ s.thread.looping = true := fun hloop => hzero (hid hloop)
      exact ⟨hwanted, fun hshutdown => absurd (hcalls.symm.trans hshutdown) (by decide),
        h.published, fun hloop => absurd hloop hnot, fun hq => absurd hq (h.not_quit hbusy),
        h.exists_icon,
        fun v hv => absurd (looping_of_applying hv) hnot,
        fun hw => absurd (looping_of_waiting hw) hnot⟩
  | post t =>
    simp only [hui, Option.some.injEq] at hstep hwanted hcalls
    have hbusy : s.ui ≠ .idle := by simp [hui]
    have hid := h.threadId_ne_zero hbusy (by simp [hui])
    rw [postMessage_of_looping hcalls.2] at hstep
    subst hstep
    refine ⟨hwanted, fun hshutdown => absurd (hcalls.1.symm.trans hshutdown) (by decide),
      h.published, fun hloop hzero => absurd hzero (hid hloop), fun hq => ?_, h.exists_icon,
      fun _ _ => Or.inr (Or.inl (by simp)), fun _ => Or.inr (Or.inl (by simp))⟩
    exact absurd (hq.imp_left fun hmem => by simpa using hmem) (h.not_quit hbusy)
  | hide =>
    simp only [hui, Option.some.injEq] at hstep hwanted hcalls
    have hbusy : s.ui ≠ .idle := by simp [hui]
    have hid := h.threadId_ne_zero hbusy (by simp [hui])
    subst hstep
    exact ⟨hwanted, hcalls, h.published, fun hloop hzero => absurd hzero (hid hloop),
      fun hq => absurd hq (h.not_quit hbusy), h.exists_icon,
      fun _ _ => Or.inr (Or.inr (Or.inr (Or.inr (Or.inl rfl)))),
      fun _ => Or.inr (Or.inr (Or.inr (Or.inr (Or.inl rfl))))⟩
  | claimId =>
    simp only [hui, Option.some.injEq] at hstep hwanted hcalls
    have hbusy : s.ui ≠ .idle := by simp [hui]
    have hid := h.threadId_ne_zero hbusy (by simp [hui])
    subst hstep
    by_cases hzero : s.threadId ≠ 0
    · rw [if_pos hzero]
      exact ⟨hwanted, ⟨hcalls.1, h.looping_of_threadId hbusy hzero, hcalls.2.2⟩,
        fun hne => absurd rfl hne, fun _ _ => Or.inl ⟨_, rfl⟩,
        fun hq => absurd hq (h.not_quit hbusy), h.exists_icon,
        fun _ _ => Or.inr (Or.inr (Or.inr (Or.inr (Or.inr ⟨_, rfl⟩)))),
        fun _ => Or.inr (Or.inr (Or.inr (Or.inr (Or.inr ⟨_, rfl⟩))))⟩
    · -- no thread is in its loop: the first reading is still to come
      rw [if_neg hzero]
      have hnot : ¬ s.thread.looping = true := fun hloop => hzero (hid hloop)
      exact ⟨hwanted, fun _ => hcalls.2.2, fun hne => absurd rfl hne,
        fun hloop => absurd hloop hnot, fun hq => absurd hq (h.not_quit hbusy), h.exists_icon,
        fun v hv => absurd (looping_of_applying hv) hnot,
        fun hw => absurd (looping_of_waiting hw) hnot⟩
  | postQuit t =>
    simp only [hui, Option.some.injEq] at hstep hwanted hcalls
    obtain ⟨hshutdown, hloop, hvisible⟩ := hcalls
    rw [postMessage_of_looping hloop] at hstep
    subst hstep
    exact ⟨hwanted, fun _ => hvisible, h.published, fun _ _ => Or.inr ⟨rfl, by simp⟩,
      fun _ => ⟨hshutdown, rfl⟩, h.exists_icon, fun _ _ => Or.inr (Or.inl (by simp)),
      fun _ => Or.inr (Or.inl (by simp))⟩

/-- The icon thread does not disturb a call that is under way. -/
theorem Calls.of_thread (h : s.Calls) {threadId : ℕ} {queue : List Message} {thread : ThreadPhase}
    {icon : Option Bool} (hqueue : .quit ∈ queue → .quit ∈ s.queue)
    (hloop : s.ui ≠ .idle → s.thread.looping = true → thread.looping = true) :
    Calls { s with threadId, queue, thread, icon } := by
  unfold Calls at h ⊢
  cases hui : s.ui with
  | idle | storeDesired visible | loadId =>
    simp only [hui] at h ⊢
    exact h
  | post t =>
    simp only [hui] at h ⊢
    exact h.imp_right (hloop (by simp [hui]))
  | hide | claimId =>
    simp only [hui] at h ⊢
    exact ⟨h.1, fun hq => h.2.1 (hqueue hq), h.2.2⟩
  | postQuit t =>
    simp only [hui] at h ⊢
    exact ⟨h.1, hloop (by simp [hui]) h.2.1, h.2.2⟩

theorem Inv.not_published (h : Inv s) (hloop : s.thread.looping = false)
    (hquit : s.thread ≠ .quitting) : s.threadId = 0 := by
  by_contra hid
  rcases h.published hid with htrue | hq
  · rw [hloop] at htrue
    cases htrue
  · exact hquit hq

/-- Where nothing else is under way, only the message to quit says that the thread is to end. -/
theorem Inv.quit_mem (h : Inv s) {queue : List Message} {thread : ThreadPhase}
    (hqueue : .quit ∈ queue → .quit ∈ s.queue) (hquitting : thread ≠ .quitting)
    (hdropping : thread ≠ .dropping) (hended : thread ≠ .ended) :
    (.quit ∈ queue ∨ thread = .quitting ∨ thread = .dropping ∨ thread = .ended) →
      s.shutdown = true ∧ s.ui = .idle := by
  rintro (hq | hq | hq | hq)
  · exact h.quit (Or.inl (hqueue hq))
  · exact absurd hq hquitting
  · exact absurd hq hdropping
  · exact absurd hq hended

/-- The icon is created, or the thread ends without one. -/
theorem Inv.create (h : Inv s) (hthread : s.thread = .starting) (ok : Bool) :
    Inv (if ok then { s with icon := some true, thread := .created }
      else { s with thread := .failed }) := by
  have hid : s.threadId = 0 := h.not_published (by rw [hthread]; rfl) (by simp [hthread])
  have hcalls : ∀ thread icon, Calls { s with thread, icon } := fun thread icon =>
    h.calls.of_thread id fun _ hloop => by simp [hthread, ThreadPhase.looping] at hloop
  have hicon : s.icon.isSome = false := by
    rw [h.exists_icon, hthread]
    rfl
  cases ok with
  | true =>
    exact ⟨h.wanted, hcalls _ _, fun hne => absurd hid hne, nofun,
      h.quit_mem id nofun nofun nofun, rfl, nofun, nofun⟩
  | false =>
    exact ⟨h.wanted, hcalls _ _, fun hne => absurd hid hne, nofun,
      h.quit_mem id nofun nofun nofun, hicon, nofun, nofun⟩

/-- The icon thread reads what is wanted. -/
theorem Inv.read (h : Inv s) (hthread : s.thread = .published ∨ s.thread = .received) :
    Inv { s with thread := .applying s.desired } := by
  have hloop : s.thread.looping = true := by rcases hthread with ht | ht <;> rw [ht] <;> rfl
  have hicon : s.icon.isSome = true := by rw [h.exists_icon, hasIcon_of_looping hloop]
  refine ⟨h.wanted, h.calls.of_thread id fun _ _ => rfl, fun _ => Or.inl rfl,
    fun _ => h.claimed hloop, h.quit_mem id nofun nofun nofun, hicon, ?_, nofun⟩
  intro visible hv
  cases hv
  exact Or.inl rfl

/-- **The icon thread keeps the invariant.** -/
theorem Inv.threadStep (h : Inv s) (hstep : s.threadStep tid = some s') : Inv s' := by
  have hicon := h.exists_icon
  unfold Tray.threadStep at hstep
  cases hthread : s.thread with
  | starting | failed | ended => simp [hthread] at hstep
  -- the thread publishes its id before it is in its loop
  | created =>
    simp only [hthread, Option.some.injEq] at hstep hicon
    subst hstep
    exact ⟨h.wanted, h.calls.of_thread id fun _ _ => rfl, fun _ => Or.inl rfl,
      fun _ hzero => absurd hzero tid.ne_zero, h.quit_mem id nofun nofun nofun, hicon, nofun, nofun⟩
  | published | received =>
    simp only [hthread, Option.some.injEq] at hstep
    subst hstep
    exact h.read (by simp [hthread])
  | applying visible =>
    simp only [hthread, Option.some.injEq] at hstep
    subst hstep
    refine ⟨h.wanted, h.calls.of_thread id fun _ _ => rfl, fun _ => Or.inl rfl,
      fun _ => h.claimed (looping_of_applying hthread), h.quit_mem id nofun nofun nofun, rfl,
      nofun, fun _ => ?_⟩
    exact (h.applying visible hthread).imp_left fun hv => congrArg some hv
  | waiting =>
    simp only [hthread] at hstep hicon
    have hloop : s.thread.looping = true := looping_of_waiting hthread
    cases hq : s.queue with
    | nil => simp [hq] at hstep
    | cons m queue =>
      have hmem : Message.quit ∈ queue → Message.quit ∈ s.queue := fun hm => by
        rw [hq]
        exact List.mem_cons_of_mem m hm
      cases m with
      -- the message says nothing: what is wanted is read when it is handled
      | applyVisible =>
        simp only [hq, Option.some.injEq] at hstep
        subst hstep
        refine ⟨h.wanted, h.calls.of_thread hmem fun _ _ => rfl, fun _ => Or.inl rfl,
          fun _ hzero => ?_, h.quit_mem hmem nofun nofun nofun, hicon, nofun, nofun⟩
        exact (h.claimed hloop hzero).imp_right fun hidle => ⟨hidle.1, by simpa [hq] using hidle.2⟩
      | quit =>
        simp only [hq, Option.some.injEq] at hstep
        subst hstep
        have hidle := h.quit (Or.inl (by simp [hq]))
        exact ⟨h.wanted, h.calls.of_thread hmem fun hui => absurd hidle.2 hui, fun _ => Or.inr rfl,
          nofun, fun _ => hidle, hicon, nofun, nofun⟩
  -- the window thread has shut down and is idle, so that no message follows
  | quitting =>
    simp only [hthread, Option.some.injEq] at hstep hicon
    subst hstep
    have hidle := h.quit (Or.inr (Or.inl hthread))
    exact ⟨h.wanted, h.calls.of_thread id fun hui => absurd hidle.2 hui, fun hne => absurd rfl hne,
      nofun, fun _ => hidle, hicon, nofun, nofun⟩
  | dropping =>
    simp only [hthread, Option.some.injEq] at hstep
    subst hstep
    have hidle := h.quit (Or.inr (Or.inr (Or.inl hthread)))
    have hid : s.threadId = 0 := h.not_published (by rw [hthread]; rfl) (by simp [hthread])
    exact ⟨h.wanted, h.calls.of_thread id fun hui => absurd hidle.2 hui, fun hne => absurd hid hne,
      nofun, fun _ => hidle, rfl, nofun, nofun⟩

/-- **Every step keeps the invariant.** -/
theorem Inv.step (h : Inv s) {a : Action} (hstep : step tid s a = some s') : Inv s' := by
  cases a with
  | setVisible visible =>
    obtain ⟨hui, hs⟩ := Option.ite_none_right_eq_some.mp hstep
    cases hs
    by_cases hkeep : (s.shutdown || s.visible = some visible) = true
    · rw [if_pos hkeep]
      exact h
    · rw [if_neg hkeep]
      exact h.setVisible hui visible (by simp_all)
  | shutdown =>
    obtain ⟨hui, hs⟩ := Option.ite_none_right_eq_some.mp hstep
    cases hs
    by_cases hkeep : s.shutdown = true
    · rw [if_pos hkeep]
      exact h
    · rw [if_neg hkeep]
      exact h.callShutdown hui (by simpa using hkeep)
  | ui => exact h.uiStep hstep
  | create ok =>
    obtain ⟨hthread, hs⟩ := Option.ite_none_right_eq_some.mp hstep
    cases hs
    exact h.create hthread ok
  | thread => exact h.threadStep hstep

end Step

/-! ### The icon thread comes to rest -/

/-- Nothing is under way: the icon thread has handled what was posted to it. -/
def Settled (s : Tray) : Prop :=
  s.ui = .idle ∧ (s.thread = .waiting ∧ s.queue = [] ∨ s.thread = .failed ∨ s.thread = .ended)

/-- How many steps the phase is away from the next message or the end. -/
def ThreadPhase.rank : ThreadPhase → ℕ
  | .created => 3
  | .published | .received | .quitting => 2
  | .applying _ | .dropping => 1
  | .starting | .waiting | .failed | .ended => 0

/-- A bound on the steps the icon thread takes until it rests. -/
def rank (s : Tray) : ℕ := 3 * s.queue.length + s.thread.rank

section Rest

variable {tid : ℕ+} {s s' : Tray}

/-- A step of the icon thread lowers the rank. -/
theorem rank_lt (hstep : s.threadStep tid = some s') : s'.rank < s.rank := by
  unfold threadStep at hstep
  cases hthread : s.thread with
  | starting | failed | ended => simp [hthread] at hstep
  | created | published | received | quitting | dropping | applying visible =>
    simp only [hthread, Option.some.injEq] at hstep
    subst hstep
    simp [rank, hthread, ThreadPhase.rank]
  | waiting =>
    simp only [hthread] at hstep
    cases hq : s.queue with
    | nil => simp [hq] at hstep
    | cons m queue =>
      cases m with
      | applyVisible | quit =>
        simp only [hq, Option.some.injEq] at hstep
        subst hstep
        simp only [rank, hq, hthread, ThreadPhase.rank, List.length_cons]
        omega

theorem threadStep_ui (hstep : s.threadStep tid = some s') : s'.ui = s.ui := by
  unfold threadStep at hstep
  split at hstep <;> try cases hstep <;> rfl
  split at hstep <;> cases hstep <;> rfl

theorem threadStep_not_starting (hstep : s.threadStep tid = some s') :
    s'.thread ≠ .starting := by
  unfold threadStep at hstep
  split at hstep <;> try cases hstep <;> nofun
  split at hstep <;> cases hstep <;> nofun

/-- A thread that has no step to take rests. -/
theorem settled_of_stuck (hui : s.ui = .idle) (hstarted : s.thread ≠ .starting)
    (hstuck : s.threadStep tid = none) : s.Settled := by
  unfold threadStep at hstuck
  cases hthread : s.thread with
  | starting => exact absurd hthread hstarted
  | failed => exact ⟨hui, Or.inr (Or.inl hthread)⟩
  | ended => exact ⟨hui, Or.inr (Or.inr hthread)⟩
  | created | published | received | quitting | dropping | applying visible =>
    simp [hthread] at hstuck
  | waiting =>
    simp only [hthread] at hstuck
    cases hq : s.queue with
    | nil => exact ⟨hui, Or.inl ⟨hthread, hq⟩⟩
    | cons m queue => cases m <;> simp [hq] at hstuck

/-- **Once the icon thread has created its icon, or failed to, and no call is under way, it comes to
rest by itself.** -/
theorem comes_to_rest (tid : ℕ+) (hui : s.ui = .idle) (hstarted : s.thread ≠ .starting) :
    ∃ n s', Machine.exec (step tid) s (List.replicate n .thread) = some s' ∧ s'.Settled := by
  induction hn : s.rank using Nat.strong_induction_on generalizing s with
  | _ n ih =>
    cases hstep : s.threadStep tid with
    | none => exact ⟨0, s, rfl, settled_of_stuck hui hstarted hstep⟩
    | some t =>
      obtain ⟨k, s', hrun, hsettled⟩ := ih t.rank (hn ▸ rank_lt hstep)
        ((threadStep_ui hstep).trans hui) (threadStep_not_starting hstep) rfl
      exact ⟨k + 1, s', Machine.exec_cons_eq_some.mpr ⟨t, hstep, hrun⟩, hsettled⟩

end Rest

/-! ### What was asked for -/

/-- What the shell is last asked for. -/
def lastAsked (initiallyVisible : Bool) (as : List Action) : Bool :=
  as.foldl (fun asked a => match a with
    | .setVisible visible => visible
    | _ => asked) initiallyVisible

section Asked

variable {tid : ℕ+} {s s' : Tray}

theorem uiStep_frame (hstep : s.uiStep = some s') :
    s'.visible = s.visible ∧ s'.shutdown = s.shutdown ∧ s'.icon = s.icon ∧
      s'.thread = s.thread := by
  unfold uiStep postMessage at hstep
  split at hstep <;> try cases hstep <;> exact ⟨rfl, rfl, rfl, rfl⟩
  all_goals
    split at hstep <;> cases hstep <;> exact ⟨rfl, rfl, rfl, rfl⟩

theorem threadStep_asked (hstep : s.threadStep tid = some s') :
    s'.visible = s.visible ∧ s'.shutdown = s.shutdown := by
  unfold threadStep at hstep
  split at hstep <;> try cases hstep <;> exact ⟨rfl, rfl⟩
  split at hstep <;> cases hstep <;> exact ⟨rfl, rfl⟩

/-- Before the shutdown, the shell remembers what it is asked for. -/
theorem asked_step {a : Action} {asked : Bool} (hstep : step tid s a = some s')
    (ha : a ≠ .shutdown) (hshutdown : s.shutdown = false) (hvisible : s.visible = some asked) :
    s'.shutdown = false ∧ s'.visible = some (lastAsked asked [a]) := by
  cases a with
  | setVisible visible =>
    obtain ⟨hui, hs⟩ := Option.ite_none_right_eq_some.mp hstep
    cases hs
    by_cases hkeep : s.visible = some visible
    · -- asked for again
      rw [if_pos (by simp [hkeep])]
      exact ⟨hshutdown, hkeep⟩
    · rw [if_neg (by simp [hshutdown, hkeep])]
      exact ⟨hshutdown, rfl⟩
  | shutdown => exact absurd rfl ha
  | ui =>
    obtain ⟨hv, hsd, -⟩ := uiStep_frame hstep
    exact ⟨hsd.trans hshutdown, hv.trans hvisible⟩
  | create ok =>
    obtain ⟨-, hs⟩ := Option.ite_none_right_eq_some.mp hstep
    cases hs
    cases ok <;> exact ⟨hshutdown, hvisible⟩
  | thread =>
    obtain ⟨hv, hsd⟩ := threadStep_asked hstep
    exact ⟨hsd.trans hshutdown, hv.trans hvisible⟩

/-- Until the shutdown, the shell remembers what it was last asked for. -/
theorem asked_exec {as : List Action} {asked : Bool}
    (hrun : Machine.exec (step tid) s as = some s') (has : .shutdown ∉ as)
    (hshutdown : s.shutdown = false) (hvisible : s.visible = some asked) :
    s'.shutdown = false ∧ s'.visible = some (lastAsked asked as) := by
  induction as generalizing s asked with
  | nil =>
    cases hrun
    exact ⟨hshutdown, hvisible⟩
  | cons a as ih =>
    obtain ⟨t, ht, hrest⟩ := Machine.exec_cons_eq_some.mp hrun
    rw [List.mem_cons, not_or] at has
    obtain ⟨hsd, hv⟩ := asked_step ht (Ne.symm has.1) hshutdown hvisible
    exact ih hrest has.2 hsd hv

/-- A shutdown is for good. -/
theorem shutdown_step {a : Action} (hstep : step tid s a = some s')
    (h : s.shutdown = true ∨ a = .shutdown) : s'.shutdown = true := by
  cases a with
  | setVisible visible =>
    obtain ⟨-, hs⟩ := Option.ite_none_right_eq_some.mp hstep
    cases hs
    rw [if_pos (by simp [h.resolve_right nofun])]
    exact h.resolve_right nofun
  | shutdown =>
    obtain ⟨-, hs⟩ := Option.ite_none_right_eq_some.mp hstep
    cases hs
    split
    · assumption
    · rfl
  | ui => exact (uiStep_frame hstep).2.1.trans (h.resolve_right nofun)
  | create ok =>
    obtain ⟨-, hs⟩ := Option.ite_none_right_eq_some.mp hstep
    cases hs
    cases ok <;> exact h.resolve_right nofun
  | thread => exact (threadStep_asked hstep).2.trans (h.resolve_right nofun)

theorem shutdown_exec {as : List Action} (hrun : Machine.exec (step tid) s as = some s')
    (h : s.shutdown = true ∨ .shutdown ∈ as) : s'.shutdown = true := by
  induction as generalizing s with
  | nil =>
    cases hrun
    exact h.resolve_right List.not_mem_nil
  | cons a as ih =>
    obtain ⟨t, ht, hrest⟩ := Machine.exec_cons_eq_some.mp hrun
    rw [List.mem_cons, eq_comm (b := a), ← or_assoc] at h
    exact ih hrest (h.imp_left (shutdown_step ht))

end Asked

/-! ### After a shutdown -/

/-- The icon is hidden or gone, and nothing is under way that could show it. -/
structure Hidden (s : Tray) : Prop where
  shutdown : s.shutdown = true
  idle : s.ui = .idle
  desired : s.desired = false
  icon : s.icon ≠ some true
  started : s.thread ≠ .starting
  applying : s.thread ≠ .applying true

section Hidden

variable {tid : ℕ+} {s s' : Tray}

/-- Where nothing is owed, the icon shows what was asked for. -/
theorem Inv.settled_icon (h : Inv s) (hsettled : s.Settled) (hwaiting : s.thread = .waiting) :
    s.icon = s.visible := by
  obtain ⟨hui, hqueue⟩ : s.ui = .idle ∧ s.queue = [] := by
    obtain ⟨hui, ⟨-, hqueue⟩ | hfailed | hended⟩ := hsettled
    · exact ⟨hui, hqueue⟩
    · rw [hwaiting] at hfailed
      cases hfailed
    · rw [hwaiting] at hended
      cases hended
  have hwanted := h.wanted
  rw [hui] at hwanted
  rw [hwanted]
  exact (h.shown hwaiting).resolve_right fun howed => by simp [Owed, hui, hqueue] at howed

theorem Inv.icon_of_ended (h : Inv s) (hthread : s.thread = .failed ∨ s.thread = .ended) :
    s.icon = none := by
  have hicon := h.exists_icon
  rcases hthread with ht | ht <;> rw [ht] at hicon <;> simpa [ThreadPhase.hasIcon] using hicon

theorem Inv.hidden (h : Inv s) (hsettled : s.Settled) (hshutdown : s.shutdown = true) :
    Hidden s := by
  have hcalls : s.Calls := h.calls
  have hwanted := h.wanted
  simp only [Calls, hsettled.1] at hcalls hwanted
  have hdesired : s.desired = false := Option.some.inj (hwanted.symm.trans (hcalls hshutdown))
  refine ⟨hshutdown, hsettled.1, hdesired, ?_, ?_, ?_⟩
  · rcases hsettled.2 with ⟨hwaiting, -⟩ | hended
    · rw [h.settled_icon hsettled hwaiting, hcalls hshutdown]
      nofun
    · rw [h.icon_of_ended hended]
      nofun
  all_goals
    rcases hsettled.2 with ⟨hthread, -⟩ | hthread | hthread <;> rw [hthread] <;> nofun

/-- No step shows the icon again. -/
theorem Hidden.step (h : Hidden s) {a : Action} (hstep : step tid s a = some s') : Hidden s' := by
  cases a with
  | setVisible visible =>
    obtain ⟨-, hs⟩ := Option.ite_none_right_eq_some.mp hstep
    cases hs
    rw [if_pos (by simp [h.shutdown])]
    exact h
  | shutdown =>
    obtain ⟨-, hs⟩ := Option.ite_none_right_eq_some.mp hstep
    cases hs
    rw [if_pos h.shutdown]
    exact h
  | ui =>
    have hidle : s.uiStep = none := by simp [uiStep, h.idle]
    exact nomatch hidle.symm.trans hstep
  | create ok => exact absurd (Option.ite_none_right_eq_some.mp hstep).1 h.started
  | thread =>
    replace hstep : s.threadStep tid = some s' := hstep
    have happlying := h.applying
    unfold threadStep at hstep
    cases hthread : s.thread with
    | starting | failed | ended => simp [hthread] at hstep
    | created | quitting =>
      simp only [hthread, Option.some.injEq] at hstep
      subst hstep
      exact ⟨h.shutdown, h.idle, h.desired, h.icon, nofun, nofun⟩
    | published | received =>
      simp only [hthread, Option.some.injEq] at hstep
      subst hstep
      refine ⟨h.shutdown, h.idle, h.desired, h.icon, nofun, ?_⟩
      rw [h.desired]
      nofun
    | applying visible =>
      simp only [hthread, Option.some.injEq] at hstep
      rw [hthread] at happlying
      subst hstep
      refine ⟨h.shutdown, h.idle, h.desired, fun hshown => happlying ?_, nofun, nofun⟩
      exact congrArg ThreadPhase.applying (Option.some.inj hshown)
    | dropping =>
      simp only [hthread, Option.some.injEq] at hstep
      subst hstep
      exact ⟨h.shutdown, h.idle, h.desired, nofun, nofun, nofun⟩
    | waiting =>
      simp only [hthread] at hstep
      cases hq : s.queue with
      | nil => simp [hq] at hstep
      | cons m queue =>
        cases m with
        | applyVisible | quit =>
          simp only [hq, Option.some.injEq] at hstep
          subst hstep
          exact ⟨h.shutdown, h.idle, h.desired, h.icon, nofun, nofun⟩

end Hidden

section Handshake

variable {tid : ℕ+} {initiallyVisible : Bool} {as : List Action} {s : Tray}

/-- **The icon at rest is as it was last asked for.**  Until a shutdown, an icon that could be
created shows what the last call asked for; after one the icon is hidden or gone, whatever is called
then. -/
theorem visibility_handshake
    (hrun : Machine.exec (step tid) (start initiallyVisible) as = some s) (hsettled : s.Settled) :
    (.shutdown ∉ as → s.thread ≠ .failed → s.icon = some (lastAsked initiallyVisible as)) ∧
      (.shutdown ∈ as → s.icon ≠ some true ∧
        ∀ bs s', Machine.exec (step tid) s bs = some s' → s'.icon ≠ some true) := by
  have hinv : Inv s :=
    Machine.invariant (fun _ _ _ h hstep => h.step hstep) (Inv.start initiallyVisible) hrun
  constructor
  · intro has hfailed
    obtain ⟨hshutdown, hvisible⟩ := asked_exec hrun has rfl rfl
    have hwaiting : s.thread = .waiting := by
      obtain ⟨-, ⟨hwaiting, -⟩ | hthread | hthread⟩ := hsettled
      · exact hwaiting
      · exact absurd hthread hfailed
      · -- only the message to quit ends the thread
        have hquit := (hinv.quit (Or.inr (Or.inr (Or.inr hthread)))).1
        rw [hshutdown] at hquit
        cases hquit
    exact (hinv.settled_icon hsettled hwaiting).trans hvisible
  · intro has
    have hhidden : Hidden s := hinv.hidden hsettled (shutdown_exec hrun (Or.inr has))
    refine ⟨hhidden.icon, fun bs s' hbs => ?_⟩
    exact (Machine.invariant (fun _ _ _ h hstep => Hidden.step h hstep) hhidden hbs).icon

end Handshake

/-- The first call overlaps the start of the icon thread; the shutdown finds it waiting. -/
theorem visibility_handshake_overlap :
    ∃ s t : Tray, s.icon = some false ∧ t.icon = none ∧
      Machine.exec (step 7) (start true) [.setVisible false, .create true, .ui, .thread, .thread,
        .ui, .thread, .ui, .thread, .thread, .thread] = some s ∧
      Machine.exec (step 7) s [.shutdown, .ui, .ui, .ui, .thread, .thread, .thread] = some t ∧
      ∀ bs t', Machine.exec (step 7) t bs = some t' → t'.icon ≠ some true := by
  let early : List Action := [.setVisible false, .create true, .ui, .thread, .thread, .ui,
    .thread, .ui, .thread, .thread, .thread]
  let late : List Action := [.shutdown, .ui, .ui, .ui, .thread, .thread, .thread]
  let s : Tray :=
    { desired := false, threadId := 7, visible := some false, thread := .waiting
      icon := some false }
  let t : Tray := { desired := false, visible := some false, shutdown := true, thread := .ended }
  have hearly : Machine.exec (step 7) (start true) early = some s := by decide +kernel
  have hlate : Machine.exec (step 7) s late = some t := by decide +kernel
  have hboth : Machine.exec (step 7) (start true) (early ++ late) = some t := by decide +kernel
  have hicon : s.icon = some false :=
    (visibility_handshake hearly ⟨rfl, Or.inl ⟨rfl, rfl⟩⟩).1 (by decide +kernel) (by decide +kernel)
  exact ⟨s, t, hicon, rfl, hearly, hlate,
    ((visibility_handshake hboth ⟨rfl, Or.inr (Or.inr rfl)⟩).2 (by decide +kernel)).2⟩

end Tray

end Taskman
