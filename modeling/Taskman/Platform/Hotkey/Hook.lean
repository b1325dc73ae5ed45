import Taskman.LTS.Handles
import Mathlib.Data.Nat.Notation

/-!
# The keyboard hook of the hotkey

The low-level keyboard hook that takes Ctrl+Shift+Escape: its callback, and what the hook thread
does to the copies of the hook that are installed.

* `lowLevelKeyboardProc` : the callback; it swallows an event or passes it on;
* `setHook`, `beginMoveToFront`, `finishMoveToFront` : the operations on the two hook slots;
* `swallowEscapePress` : the decision about an Escape keydown.

The globals are one record.  What a callback asks the system (key states, the tick count, whether a
hook could be installed or a message posted) is a `Reading`; the tick count is in milliseconds.
-/

namespace Taskman

namespace Hotkey

/-! ### Keys and messages -/

/-- A virtual-key code. -/
abbrev VirtualKey := ℕ

/-- `VK_SHIFT`. -/
def vkShift : VirtualKey := 0x10

/-- `VK_CONTROL`. -/
def vkControl : VirtualKey := 0x11

/-- `VK_MENU`, the Alt key. -/
def vkMenu : VirtualKey := 0x12

/-- `VK_ESCAPE`. -/
def vkEscape : VirtualKey := 0x1B

/-- `VK_LWIN`. -/
def vkLwin : VirtualKey := 0x5B

/-- `VK_RWIN`. -/
def vkRwin : VirtualKey := 0x5C

/-- `VK_LSHIFT`. -/
def vkLshift : VirtualKey := 0xA0

/-- `VK_RSHIFT`. -/
def vkRshift : VirtualKey := 0xA1

/-- `VK_LCONTROL`. -/
def vkLcontrol : VirtualKey := 0xA2

/-- `VK_RCONTROL`. -/
def vkRcontrol : VirtualKey := 0xA3

/-- The keyboard messages a low-level hook is called for. -/
inductive KeyMessage where
  | keyDown
  | sysKeyDown
  | keyUp
  | sysKeyUp
  deriving DecidableEq

/-- A key goes down. -/
def KeyMessage.isDown : KeyMessage → Bool
  | keyDown => true
  | sysKeyDown => true
  | _ => false

/-- What a callback is called with; `action` is `code == HC_ACTION`. -/
structure KeyEvent where
  action : Bool := true
  msg : KeyMessage
  vkCode : VirtualKey
  deriving DecidableEq

/-- The messages of the hook thread's queue. -/
inductive HookMsg where
  | setHook (install : Bool)
  | retireHook
  | moveToFront
  | quit
  deriving DecidableEq

/-- How long a swallowed press stays eligible to have its release swallowed too. -/
def consumedDownTtlMs : ℕ := 1000

/-! ### State -/

/-- The globals that other threads write. -/
structure Shared where
  replacementEnabled : Bool := false
  uiStalled : Bool := false
  targetWindow : ℕ := 0
  workerBusy : Bool := false
  triggerEvent : ℕ := 0
  deriving DecidableEq

/-- What the callback remembers of the last swallowed Escape press. -/
structure EscapeTrack where
  consumedDown : Bool := false
  lastDownTick : ℕ := 0
  deriving DecidableEq

/-- The two hook slots with the hooks the system has installed and the thread's message queue. -/
structure HookSlots where
  currentHook : ℕ := 0
  retiringHook : ℕ := 0
  chain : HandleTable ℕ := {}
  queue : List HookMsg := []
  deriving DecidableEq

/-- What one callback, or one message, is answered by the system. -/
structure Reading where
  /-- `GetAsyncKeyState(key) < 0` -/
  down : VirtualKey → Bool
  /-- `GetTickCount64` -/
  now : ℕ
  setEvent : Bool := true
  /-- The handle `SetWindowsHookExW` returns. -/
  installed : Option ℕ := none
  /-- `PostThreadMessageW` succeeds. -/
  posted : Bool := true

/-! ### The hook slots -/

/-- `unhook` -/
def HookSlots.unhook (s : HookSlots) (raw : ℕ) : HookSlots :=
  if raw ≠ 0 then { s with chain := s.chain.release raw } else s

/-- `finish_move_to_front` -/
def HookSlots.finishMoveToFront (s : HookSlots) : HookSlots :=
  { s.unhook s.retiringHook with retiringHook := 0 }

/-- `begin_move_to_front` -/
def HookSlots.beginMoveToFront (s : HookSlots) (r : Reading) : HookSlots :=
  let current := s.currentHook
  if current = 0 ∨ s.retiringHook ≠ 0 then s else
  match r.installed with
  | none => s
  | some fresh =>
    let s := { s with
      chain := s.chain.acquire fresh
      retiringHook := current
      currentHook := fresh }
    if r.posted then { s with queue := s.queue ++ [.retireHook] }
    -- nothing would ever remove the old copy: undo
    else { s.unhook fresh with currentHook := current, retiringHook := 0 }

/-- `set_hook` -/
def setHook (wanted : Bool) (s : HookSlots) (e : EscapeTrack) (r : Reading) :
    HookSlots × EscapeTrack :=
  match wanted, decide (s.currentHook ≠ 0) with
  | true, true => (s, e)
  | false, false => (s, e)
  | true, false =>
    match r.installed with
    | some installed =>
      ({ s with chain := s.chain.acquire installed, currentHook := installed }, e)
    | none => (s, e)
  | false, true =>
    let s := s.finishMoveToFront
    ({ s.unhook s.currentHook with currentHook := 0 }, {})

/-! ### The callback -/

/-- `combo_could_be_swallowed` -/
def comboCouldBeSwallowed (g : Shared) : Bool :=
  g.replacementEnabled && g.targetWindow != 0 && !g.uiStalled

/-- `completes_chord` -/
def completesChord (vk : VirtualKey) (down : VirtualKey → Bool) : Bool :=
  let completes (this other : VirtualKey) : Bool :=
    down other && !down this && !down vkMenu && !down vkLwin && !down vkRwin
  if [vkControl, vkLcontrol, vkRcontrol].contains vk then completes vkControl vkShift
  else if [vkShift, vkLshift, vkRshift].contains vk then completes vkShift vkControl
  else false

/-- `is_repeat_of_swallowed_press` -/
def isRepeatOfSwallowedPress (e : EscapeTrack) (now : ℕ) : Bool :=
  e.consumedDown && e.lastDownTick != 0 && decide (now - e.lastDownTick ≤ consumedDownTtlMs)

/-- `claim_worker` -/
def claimWorker (g : Shared) (r : Reading) : Bool × Shared :=
  if g.triggerEvent = 0 ∨ g.targetWindow = 0 ∨ g.uiStalled = true then (false, g)
  else if g.workerBusy then (false, g)
  else if !r.setEvent then (false, { g with workerBusy := false })
  else (true, { g with workerBusy := true })

/-- Ctrl and Shift are held, Alt and the Windows keys are not. -/
def comboHeld (down : VirtualKey → Bool) : Bool :=
  down vkControl && down vkShift && !down vkMenu && !(down vkLwin || down vkRwin)

/-- `swallow_escape_press` -/
def swallowEscapePress (g : Shared) (e : EscapeTrack) (r : Reading) :
    Bool × Shared × EscapeTrack :=
  if !g.replacementEnabled then (false, g, e)
  else if !comboHeld r.down then (false, g, e)
  -- auto-repeat of the press being served: swallowed, and kept fresh
  else if isRepeatOfSwallowedPress e r.now then (true, g, { e with lastDownTick := r.now })
  else
    match claimWorker g r with
    | (false, g) => (false, g, e)
    | (true, g) => (true, g, { consumedDown := true, lastDownTick := r.now })

/-- What becomes of a key event. -/
inductive Verdict where
  | swallowed
  | passed
  deriving DecidableEq

/-- The Escape part of the callback. -/
def escapeProc (g : Shared) (e : EscapeTrack) (msg : KeyMessage) (r : Reading) :
    Verdict × Shared × EscapeTrack :=
  if msg.isDown then
    match swallowEscapePress g e r with
    | (true, g, e) => (.swallowed, g, e)
    -- this press reaches the application, so its release must too
    | (false, g, _) => (.passed, g, {})
  else
    let matchesRecentPress :=
      e.lastDownTick != 0 && decide (r.now - e.lastDownTick ≤ consumedDownTtlMs)
    (if e.consumedDown && matchesRecentPress then .swallowed else .passed, g, {})

/-- `low_level_keyboard_proc` -/
def lowLevelKeyboardProc (s : HookSlots) (g : Shared) (e : EscapeTrack) (ev : KeyEvent)
    (r : Reading) : Verdict × HookSlots × Shared × EscapeTrack :=
  if !ev.action then (.passed, s, g, e) else
  let s :=
    if ev.msg.isDown && comboCouldBeSwallowed g && completesChord ev.vkCode r.down then
      s.beginMoveToFront r
    else s
  if ev.vkCode = vkEscape then
    let (verdict, g, e) := escapeProc g e ev.msg r
    (verdict, s, g, e)
  else (.passed, s, g, e)

end Hotkey

end Taskman
