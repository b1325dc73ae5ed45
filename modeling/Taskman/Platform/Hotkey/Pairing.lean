import Taskman.LTS.Machine
import Taskman.Platform.Hotkey.Hook

/-!
# Presses and releases of Escape

The stream of keyboard events as the installed copies of the hook see it.  Each event goes through
the copies in turn until one swallows it; an event no copy swallows is delivered.  Between any two
callbacks the other threads may have written their globals, so every callback is given what it
finds there.

* `KeyStream.deliver` : one event through the copies;
* `KeyStream.step` : one event, with the verdicts of the keydowns since Escape was last up;
* `KeyStream.Paired` : what a release owes to the press it ends;
* `escape_paired` : **releases go where their presses went**, as long as no auto-repeat of a
  delivered press is swallowed as a new one;
* `escape_stuck` : what happens otherwise.
-/

namespace Taskman

namespace Hotkey

/-- The callback of one copy: the shared globals it finds and what the system answers. -/
structure Callback where
  shared : Shared
  reading : Reading

/-- The hook's own state, and what became of the keydowns of the present Escape press. -/
structure KeyStream where
  slots : HookSlots := {}
  escape : EscapeTrack := {}
  /-- The verdicts on the Escape keydowns since Escape was last up, newest first. -/
  press : List Verdict := []
  /-- When the last swallowed keydown was seen. -/
  lastSwallow : ℕ := 0
  /-- The last swallowed keydown of a press that was released unseen. -/
  lost : Option ℕ := none

/-- What can happen to a key. -/
inductive KeyAction where
  /-- An event is seen by one copy of the hook, and by further ones while it is passed on. -/
  | key (ev : KeyEvent) (first : Callback) (rest : List Callback)
  /-- Escape is released where the hook does not see it: on the secure desktop, for example. -/
  | lostRelease

namespace KeyStream

/-- One event through the copies of the hook: the verdict, the tick count of the last callback, and
the hook's state. -/
def deliver (ev : KeyEvent) :
    HookSlots → EscapeTrack → Callback → List Callback → Verdict × ℕ × HookSlots × EscapeTrack
  | slots, escape, cb, [] =>
    let (verdict, slots, _, escape) := lowLevelKeyboardProc slots cb.shared escape ev cb.reading
    (verdict, cb.reading.now, slots, escape)
  | slots, escape, cb, next :: rest =>
    match lowLevelKeyboardProc slots cb.shared escape ev cb.reading with
    | (.swallowed, slots, _, escape) => (.swallowed, cb.reading.now, slots, escape)
    | (.passed, slots, _, escape) => deliver ev slots escape next rest

/-- The verdict on an event. -/
def verdict (s : KeyStream) (ev : KeyEvent) (first : Callback) (rest : List Callback) : Verdict :=
  (deliver ev s.slots s.escape first rest).1

/-- The event is about Escape. -/
def isEscape (ev : KeyEvent) : Bool := ev.action && ev.vkCode == vkEscape

/-- One event, or an unseen release. -/
def step (s : KeyStream) : KeyAction → Option KeyStream
  | .key ev first rest =>
    let (verdict, now, slots, escape) := deliver ev s.slots s.escape first rest
    let s := { s with slots := slots, escape := escape }
    if !isEscape ev then some s
    else if ev.msg.isDown then
      some { s with
        press := verdict :: s.press
        lastSwallow := if verdict = .swallowed then now else s.lastSwallow
        lost := none }
    else some { s with press := [], lost := none }
  | .lostRelease =>
    match s.press with
    | [] => some s
    | last :: _ =>
      some { s with press := [], lost := if last = .swallowed then some s.lastSwallow else none }

/-- The hook as it is installed; Escape may be down already. -/
def start (held : Bool) : KeyStream := { press := if held then [.passed] else [] }

/-- What a release owes to its press.  It is swallowed only if every keydown of the press was, or
within the staleness window of a swallowed press whose own release was lost; it is delivered if a
keydown was; and it is swallowed within the window if every keydown was. -/
def Paired (s : KeyStream) (ev : KeyEvent) (first : Callback) (rest : List Callback) : Prop :=
  (s.verdict ev first rest = .swallowed →
    (s.press ≠ [] ∧ ∀ d ∈ s.press, d = .swallowed) ∨
      (s.press = [] ∧ ∃ t cb, s.lost = some t ∧ cb ∈ first :: rest ∧
        cb.reading.now - t ≤ consumedDownTtlMs)) ∧
  (.passed ∈ s.press → s.verdict ev first rest = .passed) ∧
  (s.press ≠ [] → (∀ d ∈ s.press, d = .swallowed) →
    first.reading.now - s.lastSwallow ≤ consumedDownTtlMs →
      s.verdict ev first rest = .swallowed)

/-- The callback finds the chord held and the worker free to take a new press. -/
def wouldClaim (cb : Callback) : Bool :=
  cb.shared.replacementEnabled && comboHeld cb.reading.down &&
    (claimWorker cb.shared cb.reading).1

/-- No auto-repeat of a press of which a keydown was delivered could be taken as a new press; the
system has been up for a tick. -/
def NoLateClaim (s : KeyStream) : KeyAction → Prop
  | .key ev first rest =>
    isEscape ev = true → ev.msg.isDown = true →
      (∀ cb ∈ first :: rest, 0 < cb.reading.now) ∧
      (.passed ∈ s.press → ∀ cb ∈ first :: rest, wouldClaim cb = false)
  | .lostRelease => True

instance (s : KeyStream) : ∀ a, Decidable (NoLateClaim s a)
  | .key ev first rest => inferInstanceAs (Decidable
      (isEscape ev = true → ev.msg.isDown = true →
        (∀ cb ∈ first :: rest, 0 < cb.reading.now) ∧
        (.passed ∈ s.press → ∀ cb ∈ first :: rest, wouldClaim cb = false)))
  | .lostRelease => inferInstanceAs (Decidable True)

/-! ### One callback -/

theorem escapeProc_up {msg : KeyMessage} (h : msg.isDown = false) (g : Shared) (e : EscapeTrack)
    (r : Reading) :
    escapeProc g e msg r =
      (if e.consumedDown && (e.lastDownTick != 0 &&
          decide (r.now - e.lastDownTick ≤ consumedDownTtlMs)) then .swallowed else .passed,
        g, {}) := by
  unfold escapeProc
  rw [if_neg (by rw [h]; exact Bool.false_ne_true)]

/-- On an Escape event the callback does what its Escape part does. -/
theorem proc_escape (slots : HookSlots) (e : EscapeTrack) {ev : KeyEvent}
    (hev : isEscape ev = true) (cb : Callback) :
    (lowLevelKeyboardProc slots cb.shared e ev cb.reading).1 =
        (escapeProc cb.shared e ev.msg cb.reading).1 ∧
      (lowLevelKeyboardProc slots cb.shared e ev cb.reading).2.2.2 =
        (escapeProc cb.shared e ev.msg cb.reading).2.2 := by
  simp only [isEscape, Bool.and_eq_true, beq_iff_eq] at hev
  simp only [lowLevelKeyboardProc, hev.1, hev.2, Bool.not_true, Bool.false_eq_true, if_false,
    if_true, and_self]

/-- Every other event is passed on, and what is remembered of Escape stays. -/
theorem proc_other (slots : HookSlots) (e : EscapeTrack) {ev : KeyEvent}
    (hev : isEscape ev = false) (cb : Callback) :
    (lowLevelKeyboardProc slots cb.shared e ev cb.reading).1 = .passed ∧
      (lowLevelKeyboardProc slots cb.shared e ev cb.reading).2.2.2 = e := by
  unfold lowLevelKeyboardProc
  cases ha : ev.action with
  | false => exact ⟨rfl, rfl⟩
  | true =>
    have hvk : ev.vkCode ≠ vkEscape := by simpa [isEscape, ha] using hev
    simp [hvk]

/-- A keydown that is swallowed is remembered with its tick, one that is passed is not. -/
theorem escapeProc_down {msg : KeyMessage} (hmsg : msg.isDown = true) (g : Shared) (e : EscapeTrack)
    (r : Reading) :
    ((escapeProc g e msg r).1 = .swallowed ∧
      (escapeProc g e msg r).2.2 = { consumedDown := true, lastDownTick := r.now }) ∨
    ((escapeProc g e msg r).1 = .passed ∧ (escapeProc g e msg r).2.2 = {}) := by
  unfold escapeProc
  rw [if_pos hmsg]
  unfold swallowEscapePress
  split_ifs with henabled hheld hrepeat
  · exact Or.inr ⟨rfl, rfl⟩
  · exact Or.inr ⟨rfl, rfl⟩
  · left
    simp only [isRepeatOfSwallowedPress, Bool.and_eq_true] at hrepeat
    rw [hrepeat.1.1]
    exact ⟨rfl, rfl⟩
  · rcases claimWorker g r with ⟨_ | _, g'⟩
    · exact Or.inr ⟨rfl, rfl⟩
    · exact Or.inl ⟨rfl, rfl⟩

/-- With nothing remembered, a keydown is swallowed only where the worker would be claimed. -/
theorem escapeProc_down_of_empty {msg : KeyMessage} (hmsg : msg.isDown = true) {cb : Callback}
    (hclaim : wouldClaim cb = false) :
    (escapeProc cb.shared {} msg cb.reading).1 = .passed := by
  unfold escapeProc
  rw [if_pos hmsg]
  unfold swallowEscapePress
  split_ifs with henabled hheld hrepeat
  · rfl
  · rfl
  · cases hrepeat
  · have hfalse : (claimWorker cb.shared cb.reading).1 = false := by
      simp only [Bool.not_eq_true', Bool.not_eq_false] at henabled hheld
      simpa only [wouldClaim, henabled, hheld, Bool.true_and] using hclaim
    rcases hc : claimWorker cb.shared cb.reading with ⟨_ | _, g'⟩
    · rfl
    · rw [hc] at hfalse
      cases hfalse

/-! ### One event -/

/-- The event goes through the first copy, and on if it is passed. -/
theorem deliver_cases (ev : KeyEvent) (slots : HookSlots) (e : EscapeTrack) (cb : Callback)
    (rest : List Callback) :
    ∃ slots' e', e' = (lowLevelKeyboardProc slots cb.shared e ev cb.reading).2.2.2 ∧
      (((lowLevelKeyboardProc slots cb.shared e ev cb.reading).1 = .swallowed ∧
          deliver ev slots e cb rest = (.swallowed, cb.reading.now, slots', e')) ∨
        ((lowLevelKeyboardProc slots cb.shared e ev cb.reading).1 = .passed ∧
          deliver ev slots e cb rest = match rest with
            | [] => (.passed, cb.reading.now, slots', e')
            | next :: rest => deliver ev slots' e' next rest)) := by
  cases rest with
  | nil =>
    rw [deliver]
    rcases lowLevelKeyboardProc slots cb.shared e ev cb.reading with ⟨_ | _, slots', g', e'⟩
    · exact ⟨slots', e', rfl, Or.inl ⟨rfl, rfl⟩⟩
    · exact ⟨slots', e', rfl, Or.inr ⟨rfl, rfl⟩⟩
  | cons next rest =>
    rw [deliver]
    rcases lowLevelKeyboardProc slots cb.shared e ev cb.reading with ⟨_ | _, slots', g', e'⟩
    · exact ⟨slots', e', rfl, Or.inl ⟨rfl, rfl⟩⟩
    · exact ⟨slots', e', rfl, Or.inr ⟨rfl, rfl⟩⟩

/-- An event that is not about Escape is delivered and changes nothing that is remembered. -/
theorem deliver_other {ev : KeyEvent} (hev : isEscape ev = false) (rest : List Callback) :
    ∀ (slots : HookSlots) (e : EscapeTrack) (cb : Callback),
      (deliver ev slots e cb rest).2.2.2 = e := by
  induction rest with
  | nil =>
    intro slots e cb
    obtain ⟨hv, he⟩ := proc_other slots e hev cb
    obtain ⟨slots', e', rfl, ⟨hs, -⟩ | ⟨-, hd⟩⟩ := deliver_cases ev slots e cb []
    · rw [hv] at hs
      cases hs
    · rw [hd]
      exact he
  | cons next rest ih =>
    intro slots e cb
    obtain ⟨hv, he⟩ := proc_other slots e hev cb
    obtain ⟨slots', e', rfl, ⟨hs, -⟩ | ⟨-, hd⟩⟩ := deliver_cases ev slots e cb (next :: rest)
    · rw [hv] at hs
      cases hs
    · rw [hd, he]
      exact ih slots' e next

/-- After an Escape keydown: remembered with the tick of the copy that swallowed it, or not. -/
theorem deliver_down {ev : KeyEvent} (hev : isEscape ev = true) (hdown : ev.msg.isDown = true)
    (rest : List Callback) : ∀ (slots : HookSlots) (e : EscapeTrack) (cb : Callback),
      (∃ cb' ∈ cb :: rest, (deliver ev slots e cb rest).1 = .swallowed ∧
        (deliver ev slots e cb rest).2.1 = cb'.reading.now ∧
        (deliver ev slots e cb rest).2.2.2 = ⟨true, cb'.reading.now⟩) ∨
      ((deliver ev slots e cb rest).1 = .passed ∧ (deliver ev slots e cb rest).2.2.2 = {}) := by
  induction rest with
  | nil =>
    intro slots e cb
    obtain ⟨hv, he⟩ := proc_escape slots e hev cb
    obtain ⟨slots', e', rfl, ⟨hs, hd⟩ | ⟨hp, hd⟩⟩ := deliver_cases ev slots e cb [] <;>
      rcases escapeProc_down hdown cb.shared e cb.reading with ⟨hv', he'⟩ | ⟨hv', he'⟩
    · exact Or.inl ⟨cb, List.mem_cons_self, by rw [hd], by rw [hd], by rw [hd, he, he']⟩
    · rw [hv, hv'] at hs
      cases hs
    · rw [hv, hv'] at hp
      cases hp
    · exact Or.inr ⟨by rw [hd], by rw [hd, he, he']⟩
  | cons next rest ih =>
    intro slots e cb
    obtain ⟨hv, he⟩ := proc_escape slots e hev cb
    obtain ⟨slots', e', rfl, ⟨hs, hd⟩ | ⟨hp, hd⟩⟩ := deliver_cases ev slots e cb (next :: rest)
    · rcases escapeProc_down hdown cb.shared e cb.reading with ⟨hv', he'⟩ | ⟨hv', he'⟩
      · exact Or.inl ⟨cb, List.mem_cons_self, by rw [hd], by rw [hd], by rw [hd, he, he']⟩
      · rw [hv, hv'] at hs
        cases hs
    · rw [hd]
      rcases ih slots' _ next with ⟨cb', hmem, h⟩ | h
      · exact Or.inl ⟨cb', List.mem_cons_of_mem cb hmem, h⟩
      · exact Or.inr h

/-- With nothing remembered and no copy that would claim the worker, an Escape keydown is
delivered. -/
theorem deliver_down_of_empty {ev : KeyEvent} (hev : isEscape ev = true)
    (hdown : ev.msg.isDown = true) (rest : List Callback) :
    ∀ (slots : HookSlots) (cb : Callback), (∀ cb' ∈ cb :: rest, wouldClaim cb' = false) →
      (deliver ev slots {} cb rest).1 = .passed := by
  induction rest with
  | nil =>
    intro slots cb hclaim
    obtain ⟨hv, -⟩ := proc_escape slots {} hev cb
    have hpass := escapeProc_down_of_empty hdown (hclaim cb List.mem_cons_self)
    obtain ⟨slots', e', -, ⟨hs, -⟩ | ⟨-, hd⟩⟩ := deliver_cases ev slots {} cb []
    · rw [hv, hpass] at hs
      cases hs
    · rw [hd]
  | cons next rest ih =>
    intro slots cb hclaim
    obtain ⟨hv, he⟩ := proc_escape slots {} hev cb
    have hpass := escapeProc_down_of_empty hdown (hclaim cb List.mem_cons_self)
    have hempty : (escapeProc cb.shared {} ev.msg cb.reading).2.2 = {} := by
      rcases escapeProc_down hdown cb.shared {} cb.reading with ⟨hs, -⟩ | ⟨-, h⟩
      · rw [hpass] at hs
        cases hs
      · exact h
    obtain ⟨slots', e', rfl, ⟨hs, -⟩ | ⟨-, hd⟩⟩ := deliver_cases ev slots {} cb (next :: rest)
    · rw [hv, hpass] at hs
      cases hs
    · rw [hd, he, hempty]
      exact ih slots' next fun cb' hmem => hclaim cb' (List.mem_cons_of_mem cb hmem)

/-- Whether the release belongs to a press that is remembered, and recent at `now`. -/
def recent (e : EscapeTrack) (now : ℕ) : Bool :=
  e.consumedDown && (e.lastDownTick != 0 && decide (now - e.lastDownTick ≤ consumedDownTtlMs))

/-- A release forgets the press, and the first copy decides about it. -/
theorem deliver_up {ev : KeyEvent} (hev : isEscape ev = true) (hup : ev.msg.isDown = false)
    (rest : List Callback) : ∀ (slots : HookSlots) (e : EscapeTrack) (cb : Callback),
      (deliver ev slots e cb rest).2.2.2 = {} ∧
      ((deliver ev slots e cb rest).1 = .swallowed ↔ recent e cb.reading.now = true) := by
  have hproc : ∀ (slots : HookSlots) (e : EscapeTrack) (cb : Callback),
      (lowLevelKeyboardProc slots cb.shared e ev cb.reading).1 =
          (if recent e cb.reading.now = true then Verdict.swallowed else .passed) ∧
        (lowLevelKeyboardProc slots cb.shared e ev cb.reading).2.2.2 = {} := by
    intro slots e cb
    obtain ⟨hv, he⟩ := proc_escape slots e hev cb
    rw [escapeProc_up hup] at hv he
    exact ⟨hv, he⟩
  induction rest with
  | nil =>
    intro slots e cb
    obtain ⟨hv, he⟩ := hproc slots e cb
    obtain ⟨slots', e', rfl, ⟨hs, hd⟩ | ⟨hp, hd⟩⟩ := deliver_cases ev slots e cb []
    · rw [hd]
      refine ⟨he, iff_of_true rfl ?_⟩
      by_contra hrecent
      rw [hv, if_neg hrecent] at hs
      cases hs
    · rw [hd]
      refine ⟨he, iff_of_false (by simp) fun hrecent => ?_⟩
      rw [hv, if_pos hrecent] at hp
      cases hp
  | cons next rest ih =>
    intro slots e cb
    obtain ⟨hv, he⟩ := hproc slots e cb
    obtain ⟨slots', e', rfl, ⟨hs, hd⟩ | ⟨hp, hd⟩⟩ := deliver_cases ev slots e cb (next :: rest)
    · rw [hd]
      refine ⟨he, iff_of_true rfl ?_⟩
      by_contra hrecent
      rw [hv, if_neg hrecent] at hs
      cases hs
    · rw [hd, he]
      obtain ⟨he', hs'⟩ := ih slots' {} next
      refine ⟨he', iff_of_false (fun hs => ?_) fun hrecent => ?_⟩
      · cases hs'.mp hs
      · rw [hv, if_pos hrecent] at hp
        cases hp

/-! ### Every run -/

/-- What is remembered is the press: a delivered keydown is not, a swallowed press is with the tick
of its last keydown, and a press that was released unseen may still be. -/
structure Ok (s : KeyStream) : Prop where
  passed : .passed ∈ s.press → s.escape = {}
  swallowed : s.press ≠ [] → (∀ d ∈ s.press, d = .swallowed) →
    s.escape = ⟨true, s.lastSwallow⟩ ∧ s.lastSwallow ≠ 0
  up : s.press = [] → s.escape = {} ∨ ∃ t, s.lost = some t ∧ s.escape = ⟨true, t⟩

theorem ok_start (held : Bool) : Ok (start held) := by
  cases held with
  | false => exact ⟨fun _ => rfl, fun h => absurd rfl h, fun _ => Or.inl rfl⟩
  | true =>
    refine ⟨fun _ => rfl, fun _ hall => ?_, fun h => by cases h⟩
    cases hall .passed List.mem_cons_self

/-- The press either has a delivered keydown or was swallowed whole. -/
theorem passed_or_all (press : List Verdict) :
    .passed ∈ press ∨ ∀ d ∈ press, d = .swallowed := by
  by_cases hp : .passed ∈ press
  · exact Or.inl hp
  · refine Or.inr fun d hd => ?_
    cases d with
    | swallowed => rfl
    | passed => exact absurd hd hp

/-- **One event keeps what is remembered right.** -/
theorem ok_step {s s' : KeyStream} {a : KeyAction} (h : Ok s) (hc : NoLateClaim s a)
    (hstep : s.step a = some s') : Ok s' := by
  cases a with
  | key ev first rest =>
    simp only [step] at hstep
    -- only Escape is remembered
    cases hev : isEscape ev with
    | false =>
      rw [hev, Bool.not_false, if_pos rfl] at hstep
      cases hstep
      have he : (deliver ev s.slots s.escape first rest).2.2.2 = s.escape :=
        deliver_other hev rest s.slots s.escape first
      exact ⟨fun hp => he.trans (h.passed hp),
        fun hne hall => ⟨he.trans (h.swallowed hne hall).1, (h.swallowed hne hall).2⟩,
        fun hnil => by rw [he]; exact h.up hnil⟩
    | true =>
      rw [hev, Bool.not_true, if_neg Bool.false_ne_true] at hstep
      cases hdown : ev.msg.isDown with
      | false =>
        rw [hdown, if_neg Bool.false_ne_true] at hstep
        cases hstep
        have he := (deliver_up hev hdown rest s.slots s.escape first).1
        exact ⟨fun hp => absurd hp List.not_mem_nil, fun hne => absurd rfl hne,
          fun _ => Or.inl he⟩
      | true =>
        rw [hdown, if_pos rfl] at hstep
        cases hstep
        obtain ⟨hnow, hclaim⟩ := hc hev hdown
        rcases deliver_down hev hdown rest s.slots s.escape first with
          ⟨cb, hmem, hv, hn, he⟩ | ⟨hv, he⟩
        · -- swallowed: then no earlier keydown of this press was delivered
          refine ⟨fun hp => ?_, fun _ _ => ?_, fun hnil => by cases hnil⟩
          · have hold : .passed ∈ s.press := by
              rcases List.mem_cons.mp hp with hp | hp
              · rw [hv] at hp
                cases hp
              · exact hp
            have hpass := deliver_down_of_empty hev hdown rest s.slots first (hclaim hold)
            rw [h.passed hold, hpass] at hv
            cases hv
          · simp only [hv, if_true, hn]
            exact ⟨he, Nat.pos_iff_ne_zero.mp (hnow cb hmem)⟩
        · refine ⟨fun _ => he, fun _ hall => ?_, fun hnil => by cases hnil⟩
          have hhead := hall _ List.mem_cons_self
          rw [hv] at hhead
          cases hhead
  | lostRelease =>
    simp only [step] at hstep
    split at hstep
    · cases hstep
      exact h
    · rename_i last older hpress
      cases hstep
      refine ⟨fun hp => absurd hp List.not_mem_nil, fun hne => absurd rfl hne, fun _ => ?_⟩
      -- either something of the press was delivered, or all of it was swallowed
      rcases passed_or_all s.press with hp | hall
      · exact Or.inl (h.passed hp)
      · have hne : s.press ≠ [] := by
          rw [hpress]
          exact List.cons_ne_nil _ _
        have hlast : last = .swallowed := hall last (hpress ▸ List.mem_cons_self)
        refine Or.inr ⟨s.lastSwallow, ?_, (h.swallowed hne hall).1⟩
        rw [if_pos hlast]

/-- A release that finds the right thing remembered is paired. -/
theorem Ok.paired {s : KeyStream} (h : Ok s) {ev : KeyEvent} (hev : isEscape ev = true)
    (hup : ev.msg.isDown = false) (first : Callback) (rest : List Callback) :
    Paired s ev first rest := by
  have hv := (deliver_up hev hup rest s.slots s.escape first).2
  have hempty : s.escape = {} → s.verdict ev first rest = .passed := by
    intro he
    cases hd : s.verdict ev first rest with
    | swallowed =>
      have hrecent := hv.mp hd
      rw [he] at hrecent
      cases hrecent
    | passed => rfl
  refine ⟨fun hs => ?_, fun hp => hempty (h.passed hp), fun hne hall hrecent => hv.mpr ?_⟩
  · by_cases hnil : s.press = []
    · rcases h.up hnil with he | ⟨t, hlost, he⟩
      · rw [hempty he] at hs
        cases hs
      · have hrecent := hv.mp hs
        rw [he] at hrecent
        simp only [recent, Bool.true_and, Bool.and_eq_true, decide_eq_true_eq] at hrecent
        exact Or.inr ⟨hnil, t, first, hlost, List.mem_cons_self, hrecent.2⟩
    · rcases passed_or_all s.press with hp | hall
      · rw [hempty (h.passed hp)] at hs
        cases hs
      · exact Or.inl ⟨hnil, hall⟩
  · obtain ⟨he, hne0⟩ := h.swallowed hne hall
    rw [he]
    simp only [recent, Bool.true_and, Bool.and_eq_true, decide_eq_true_eq, bne_iff_ne]
    exact ⟨hne0, hrecent⟩

end KeyStream

open KeyStream

/-- **Every release goes where its press went**, in every stream of events through any number of
copies of the hook, whatever other threads write in between, provided that no auto-repeat of a
press of which a keydown was delivered could be taken as a new press. -/
theorem escape_paired {held : Bool} {s : KeyStream} {as : List KeyAction}
    (hclaim : Machine.Along step NoLateClaim (start held) as)
    (hrun : Machine.exec step (start held) as = some s) {ev : KeyEvent}
    (hev : isEscape ev = true) (hup : ev.msg.isDown = false) (first : Callback)
    (rest : List Callback) : Paired s ev first rest := by
  have h : Ok s := Machine.invariant_of_along (fun _ _ _ h hc hstep => ok_step h hc hstep)
    (ok_start held) hclaim hrun
  exact h.paired hev hup first rest

/-- A callback at tick `now` that finds Ctrl and Shift held and the worker busy or not. -/
def chordCallback (now : ℕ) (busy : Bool) : Callback where
  shared := { replacementEnabled := true, targetWindow := 1, workerBusy := busy, triggerEvent := 1 }
  reading := { down := fun key => key == vkControl || key == vkShift, now := now }

/-- Escape goes down. -/
def escapeDown : KeyEvent := { msg := .keyDown, vkCode := vkEscape }

/-- Escape goes up. -/
def escapeUp : KeyEvent := { msg := .keyUp, vkCode := vkEscape }

/-- A press at tick 100 and an auto-repeat at tick 130; the worker is busy or not each time. -/
def press (busy busyLater : Bool) : List KeyAction :=
  [.key escapeDown (chordCallback 100 busy) [], .key escapeDown (chordCallback 130 busyLater) []]

/-- The worker takes the press, and the auto-repeat and the release go with it. -/
theorem escape_paired_press : ∃ s, Machine.exec step (start false) (press false true) = some s ∧
    s.press = [.swallowed, .swallowed] ∧ Paired s escapeUp (chordCallback 150 true) [] := by
  obtain ⟨s, hs⟩ : ∃ s, Machine.exec step (start false) (press false true) = some s := ⟨_, rfl⟩
  have hpress : s.press = [.swallowed, .swallowed] := by
    cases hs
    rfl
  exact ⟨s, hs, hpress, escape_paired (by decide) hs rfl rfl (chordCallback 150 true) []⟩

/-- **Escape is left down.**  The press comes while the worker still serves the previous one and is
delivered; its auto-repeat finds the worker free and is swallowed as a new press; so the release is
swallowed, and the application has seen Escape go down only. -/
theorem escape_stuck : ∃ s, Machine.exec step (start false) (press true false) = some s ∧
    s.press = [.swallowed, .passed] ∧
    s.verdict escapeUp (chordCallback 150 true) [] = .swallowed ∧
    ¬ Paired s escapeUp (chordCallback 150 true) [] := by
  refine ⟨_, rfl, rfl, rfl, fun h => ?_⟩
  have hpassed := h.2.1 (by decide)
  cases hpassed

end Hotkey

end Taskman
