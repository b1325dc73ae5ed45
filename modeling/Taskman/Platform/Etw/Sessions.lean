import Taskman.LTS.Machine
import Taskman.Text.Basic
import Mathlib.Data.List.Nodup
import Mathlib.Logic.Function.Basic
import Mathlib.Order.Defs.LinearOrder
import Mathlib.Order.Fin.Basic

/-!
# Live trace sessions

A trace session is a kernel object with one of eight fixed names; it outlives the process that
started it.  For each name a flag says whether this process started a session and has not dropped
it; the panic hook and the shutdown stop the sessions whose flags are set.  Starting a session sets
the flag, dropping one clears it, and a broker trace that ended is replaced in place: the new
session is started before the old one is dropped.

* `Sessions.step` : what the owners of sessions do, what other programs do to them, and what a
  consumer notices;
* `Sessions.stopLiveSessions` : the clean-up;
* `Sessions.Marked` : the flags say what this process would leave running;
* `Sessions.marked_iff` : **the flags are right after every step of a run exactly while no session
  is restarted in place, dropped beside a running one of its name, or taken over while its flag is
  set**.
-/

namespace Taskman.Etw

/-- Every session name this program can ever start. -/
def SESSION_NAMES : List Text :=
  ["TaskMan-Net-Service".toList, "TaskMan-Net-App".toList, "TaskMan-Disk-Service".toList,
    "TaskMan-Disk-App".toList, "TaskMan-Profile-Service".toList, "TaskMan-Profile-App".toList,
    "TaskMan-Modules-Service".toList, "TaskMan-Modules-App".toList]

/-- A name, by its place in the table. -/
abbrev SessionName := Fin SESSION_NAMES.length

/-- The session of a name. -/
def sessionIndex (name : Text) : Option SessionName :=
  (List.finRange SESSION_NAMES.length).find? fun known => SESSION_NAMES[known] = name

theorem sessionIndex_get :
    ∀ known : SessionName, sessionIndex SESSION_NAMES[known] = some known := by
  decide +kernel

/-- A session the kernel runs. -/
structure KernelSession where
  id : ℕ
  /-- This process started it. -/
  ours : Bool
  deriving DecidableEq

/-- A `Session` this process holds. -/
structure Session where
  name : SessionName
  id : ℕ
  /-- Its consumer saw the kernel session end. -/
  ended : Bool := false
  deriving DecidableEq

/-- The sessions of the system, those the program holds and the flags it keeps of them. -/
structure Sessions where
  kernel : SessionName → Option KernelSession
  held : List Session := []
  /-- `LIVE_SESSIONS` -/
  live : SessionName → Bool := fun _ => false
  /-- No session has had this id yet. -/
  next : ℕ

namespace Sessions

/-- How far `try_start` gets. -/
inductive Start where
  /-- The session is not started, and no other is stopped. -/
  | refused
  /-- An old session of the name is stopped and no new one started, or one is started and stopped
  again: its provider, its consumer or the consumer's thread failed. -/
  | undone
  | started
  deriving DecidableEq

/-- What the owners of the sessions do. -/
inductive Action where
  /-- An owner without a session starts one. -/
  | start (name : SessionName) (outcome : Start)
  /-- An owner whose session ended starts another one and puts it in its place. -/
  | restart (index : ℕ) (outcome : Start)
  /-- An owner drops its session. -/
  | drop (index : ℕ)
  /-- Another program stops the session of a name, and may start its own. -/
  | outside (name : SessionName) (restarted : Bool)
  /-- The consumer of a session sees that it ended. -/
  | ended (index : ℕ)
  deriving DecidableEq

/-- The flag of a name put up or taken down. -/
def markSession (s : Sessions) (name : SessionName) (live : Bool) : Sessions :=
  { s with live := Function.update s.live name live }

/-- `ControlTraceW` with `STOP`: it ends the session if it is still this one. -/
def stopSession (s : Sessions) (x : Session) : Sessions :=
  if s.kernel x.name = some ⟨x.id, true⟩ then
    { s with kernel := Function.update s.kernel x.name none }
  else s

/-- `Session::try_start`; starting a session stops an old one of its name. -/
def tryStart (s : Sessions) (name : SessionName) : Start → Option Session × Sessions
  | .refused => (none, s)
  | .undone => (none, { s with kernel := Function.update s.kernel name none })
  | .started =>
    (some ⟨name, s.next, false⟩,
      markSession { s with
        kernel := Function.update s.kernel name (some ⟨s.next, true⟩)
        next := s.next + 1 } name true)

/-- `Drop for Session`: one that ended may by now be another program's. -/
def dropSession (s : Sessions) (x : Session) : Sessions :=
  let s := s.markSession x.name false
  if x.ended then s else s.stopSession x

/-- What an owner does next. -/
def step (s : Sessions) : Action → Option Sessions
  | .start name outcome =>
    let (x, s) := s.tryStart name outcome
    some { s with held := s.held ++ x.toList }
  | .restart index outcome =>
    match s.held.drop index with
    | [] => none
    | old :: post =>
      if old.ended then
        match s.tryStart old.name outcome with
        | (none, s) => some s
        | (some x, s) => some ({ s with held := s.held.take index ++ x :: post }.dropSession old)
      else none
  | .drop index =>
    match s.held.drop index with
    | [] => none
    | x :: post => some ({ s with held := s.held.take index ++ post }.dropSession x)
  | .outside name restarted =>
    some { s with
      kernel := Function.update s.kernel name (if restarted then some ⟨s.next, false⟩ else none)
      next := s.next + 1 }
  | .ended index =>
    match s.held.drop index with
    | [] => none
    | x :: post =>
      if s.kernel x.name ≠ some ⟨x.id, true⟩ then
        some { s with held := s.held.take index ++ { x with ended := true } :: post }
      else none

/-- Stops every session whose flag is set, by name. -/
def stopLiveSessions (s : Sessions) : Sessions :=
  (List.finRange SESSION_NAMES.length).foldl (fun s name =>
    if s.live name then
      { s with
        live := Function.update s.live name false
        kernel := Function.update s.kernel name none }
    else s) s

/-- The kernel session of a held one still runs. -/
def Runs (s : Sessions) (x : Session) : Prop := s.kernel x.name = some ⟨x.id, true⟩

instance (s : Sessions) (x : Session) : Decidable (s.Runs x) :=
  inferInstanceAs (Decidable (_ = _))

/-- The flags are right. -/
structure Marked (s : Sessions) : Prop where
  set : ∀ x ∈ s.held, s.Runs x → s.live x.name = true
  clear : ∀ name, (∀ x ∈ s.held, x.name ≠ name) → s.live name = false
  /-- The clean-up stops exactly the sessions this process would leave running. -/
  stops : ∀ name, s.stopLiveSessions.kernel name = (s.kernel name).filter (!·.ours)

/-- No session is restarted in place; none is dropped while another one of its name is held and
runs; none is taken over by another program while its flag is set. -/
def Orderly (s : Sessions) : Action → Prop
  | .restart index outcome => outcome = .started → ∀ old ∈ s.held[index]?, old.ended = false
  | .drop index =>
    ∀ x ∈ s.held[index]?, ∀ y ∈ s.held.eraseIdx index, y.name = x.name → ¬ s.Runs y
  | .outside name restarted => restarted = true → s.live name = false
  | .start .. | .ended _ => True

instance (s : Sessions) : ∀ a, Decidable (s.Orderly a)
  | .restart index outcome =>
    inferInstanceAs (Decidable (outcome = .started → ∀ old ∈ s.held[index]?, old.ended = false))
  | .drop index =>
    inferInstanceAs (Decidable (∀ x ∈ s.held[index]?, ∀ y ∈ s.held.eraseIdx index,
      y.name = x.name → ¬ s.Runs y))
  | .outside name restarted =>
    inferInstanceAs (Decidable (restarted = true → s.live name = false))
  | .start .. | .ended _ => inferInstanceAs (Decidable True)

/-! ### The clean-up -/

theorem kernel_foldl (names : List SessionName) (s : Sessions) (name : SessionName) :
    (names.foldl (fun s name =>
      if s.live name then
        { s with
          live := Function.update s.live name false
          kernel := Function.update s.kernel name none }
      else s) s).kernel name =
      if name ∈ names ∧ s.live name = true then none else s.kernel name := by
  induction names generalizing s with
  | nil => simp
  | cons n names ih =>
    rw [List.foldl_cons, ih]
    by_cases hn : name = n
    · subst hn
      cases hlive : s.live name <;> simp [hlive]
    · have hne : n ≠ name := Ne.symm hn
      cases hlive : s.live n <;> simp [hn, Function.update_of_ne]

theorem kernel_stopLiveSessions (s : Sessions) (name : SessionName) :
    s.stopLiveSessions.kernel name = if s.live name = true then none else s.kernel name := by
  unfold stopLiveSessions
  rw [kernel_foldl]
  simp

/-- The clean-up is exact where the flag of every session the kernel runs says whose it is. -/
theorem stops_iff {s : Sessions} {name : SessionName} :
    s.stopLiveSessions.kernel name = (s.kernel name).filter (!·.ours) ↔
      ∀ k ∈ s.kernel name, s.live name = k.ours := by
  rw [kernel_stopLiveSessions]
  cases hkernel : s.kernel name with
  | none => simp
  | some k =>
    obtain ⟨id, ours⟩ := k
    cases hlive : s.live name <;> cases ours <;> simp [Option.filter]

/-! ### Sessions and their owners -/

/-- Who holds what. -/
structure Owned (s : Sessions) : Prop where
  distinct : (s.held.map Session.id).Nodup
  held_lt : ∀ x ∈ s.held, x.id < s.next
  kernel_lt : ∀ name, ∀ k ∈ s.kernel name, k.id < s.next
  /-- A session whose consumer saw it end does not run. -/
  ended : ∀ x ∈ s.held, x.ended = true → ¬ s.Runs x
  /-- A session this process started and the kernel runs is held. -/
  owner : ∀ name id, s.kernel name = some ⟨id, true⟩ → ∃ x ∈ s.held, x.name = name ∧ x.id = id

theorem Owned.start {kernel : SessionName → Option KernelSession} {next : ℕ}
    (hforeign : ∀ name, ∀ k ∈ kernel name, k.ours = false ∧ k.id < next) :
    Owned { kernel, next } := by
  refine ⟨List.nodup_nil, nofun, fun name k hk => (hforeign name k hk).2, nofun, ?_⟩
  intro name id hkernel
  cases (hforeign name _ hkernel).1

section Step

variable {s s' : Sessions}

/-- The kernel session of a name is gone. -/
theorem Owned.stop (h : s.Owned) (name : SessionName) :
    Owned { s with kernel := Function.update s.kernel name none } := by
  have hkernel : ∀ {n : SessionName} {k}, Function.update s.kernel name none n = some k →
      s.kernel n = some k := by
    intro n k hk
    by_cases hn : n = name
    · subst hn
      simp at hk
    · rwa [Function.update_of_ne hn] at hk
  exact ⟨h.distinct, h.held_lt, fun n k hk => h.kernel_lt n k (hkernel hk),
    fun x hx hended hruns => h.ended x hx hended (hkernel hruns),
    fun n id hk => h.owner n id (hkernel hk)⟩

/-- A new session is held, and those that run beside it. -/
theorem Owned.started (h : s.Owned) (name : SessionName) {held : List Session}
    (hdistinct : (held.map Session.id).Nodup) (hnew : ⟨name, s.next, false⟩ ∈ held)
    (hheld : ∀ x ∈ held, x = ⟨name, s.next, false⟩ ∨ x ∈ s.held)
    (hkept : ∀ x ∈ s.held, s.Runs x → x ∈ held) (live : SessionName → Bool) :
    Owned { s with
      kernel := Function.update s.kernel name (some ⟨s.next, true⟩)
      held := held
      live := live
      next := s.next + 1 } := by
  refine ⟨hdistinct, fun x hx => ?_, fun n k hk => ?_, fun x hx hended hruns => ?_,
    fun n id hk => ?_⟩
  · rcases hheld x hx with rfl | hold
    · exact Nat.lt_succ_self _
    · exact Nat.lt_succ_of_lt (h.held_lt x hold)
  · by_cases hn : n = name
    · subst hn
      simp only [Function.update_self, Option.mem_def, Option.some.injEq] at hk
      exact hk ▸ Nat.lt_succ_self _
    · simp only [Function.update_of_ne hn] at hk
      exact Nat.lt_succ_of_lt (h.kernel_lt n k hk)
  · rcases hheld x hx with rfl | hold
    · cases hended
    · by_cases hn : x.name = name
      · simp only [Runs, hn, Function.update_self, Option.some.injEq,
          KernelSession.mk.injEq] at hruns
        exact absurd hruns.1.symm (Nat.ne_of_lt (h.held_lt x hold))
      · simp only [Runs, Function.update_of_ne hn] at hruns
        exact h.ended x hold hended hruns
  · by_cases hn : n = name
    · subst hn
      simp only [Function.update_self, Option.some.injEq, KernelSession.mk.injEq] at hk
      exact ⟨_, hnew, rfl, hk.1⟩
    · simp only [Function.update_of_ne hn] at hk
      obtain ⟨x, hx, rfl, rfl⟩ := h.owner n id hk
      exact ⟨x, hkept x hx hk, rfl, rfl⟩

section Place

variable {index : ℕ} {x : Session} {post : List Session}

theorem held_eq (hdrop : s.held.drop index = x :: post) :
    s.held = s.held.take index ++ x :: post := by rw [← hdrop, List.take_append_drop]

theorem getElem?_held (hdrop : s.held.drop index = x :: post) : s.held[index]? = some x := by
  have hhead : (s.held.drop index)[0]? = s.held[index + 0]? := List.getElem?_drop
  rw [hdrop] at hhead
  simpa using hhead.symm

theorem eraseIdx_held (hdrop : s.held.drop index = x :: post) :
    s.held.eraseIdx index = s.held.take index ++ post := by
  rw [List.eraseIdx_eq_take_drop_succ, ← List.drop_drop, hdrop]
  rfl

theorem Owned.id_ne (h : s.Owned) (hdrop : s.held.drop index = x :: post) {y : Session}
    (hy : y ∈ s.held.take index ++ post) : y.id ≠ x.id := by
  have hdistinct := h.distinct
  rw [held_eq hdrop, List.map_append, List.map_cons, List.nodup_middle, List.nodup_cons,
    ← List.map_append] at hdistinct
  exact fun hid => hdistinct.1 (hid ▸ List.mem_map_of_mem hy)

theorem mem_held (hdrop : s.held.drop index = x :: post) {y : Session} :
    y ∈ s.held ↔ y = x ∨ y ∈ s.held.take index ++ post := by
  conv_lhs => rw [held_eq hdrop]
  rw [List.mem_append, List.mem_cons, List.mem_append, or_left_comm]

theorem kernel_dropSession (s : Sessions) (x : Session) :
    (s.dropSession x).kernel =
      if s.Runs x ∧ x.ended = false then Function.update s.kernel x.name none else s.kernel := by
  unfold dropSession stopSession markSession Runs
  cases x.ended with
  | true => simp
  | false =>
    by_cases hruns : s.kernel x.name = some ⟨x.id, true⟩ <;> simp [hruns]

theorem live_dropSession (s : Sessions) (x : Session) :
    (s.dropSession x).live = Function.update s.live x.name false := by
  unfold dropSession stopSession markSession
  dsimp only
  split
  · rfl
  · split <;> rfl

theorem held_dropSession (s : Sessions) (x : Session) : (s.dropSession x).held = s.held := by
  unfold dropSession stopSession markSession
  dsimp only
  split
  · rfl
  · split <;> rfl

theorem next_dropSession (s : Sessions) (x : Session) : (s.dropSession x).next = s.next := by
  unfold dropSession stopSession markSession
  dsimp only
  split
  · rfl
  · split <;> rfl

/-- Dropping a session stops no other one. -/
theorem kernel_of_dropSession {name : SessionName} {k : KernelSession}
    (h : (s.dropSession x).kernel name = some k) : s.kernel name = some k := by
  rw [kernel_dropSession] at h
  split at h
  · by_cases hname : name = x.name
    · subst hname
      simp at h
    · rwa [Function.update_of_ne hname] at h
  · exact h

/-- A session that is dropped does not run any more. -/
theorem not_runs_dropSession (h : s.Owned) (hx : x ∈ s.held) : ¬ (s.dropSession x).Runs x := by
  intro hruns
  have hbefore : s.Runs x := kernel_of_dropSession hruns
  cases hended : x.ended with
  | true => exact h.ended x hx hended hbefore
  | false =>
    rw [Runs, kernel_dropSession, if_pos ⟨hbefore, hended⟩, Function.update_self] at hruns
    cases hruns

/-- An owner drops its session. -/
theorem Owned.drop (h : s.Owned) (hdrop : s.held.drop index = x :: post) :
    Owned ({ s with held := s.held.take index ++ post }.dropSession x) := by
  have hmem : ∀ {y}, y ∈ s.held.take index ++ post → y ∈ s.held := fun hy =>
    (mem_held hdrop).mpr (Or.inr hy)
  have hx : x ∈ s.held := (mem_held hdrop).mpr (Or.inl rfl)
  have hkernel : ∀ {name k},
      ({ s with held := s.held.take index ++ post }.dropSession x).kernel name = some k →
        (s.dropSession x).kernel name = some k := fun hk => by
    rw [kernel_dropSession] at hk ⊢
    exact hk
  constructor
  · rw [held_dropSession, ← eraseIdx_held hdrop]
    exact h.distinct.sublist ((List.eraseIdx_sublist ..).map _)
  · rw [held_dropSession, next_dropSession]
    exact fun y hy => h.held_lt y (hmem hy)
  · rw [next_dropSession]
    exact fun name k hk => h.kernel_lt name k (kernel_of_dropSession (hkernel hk))
  · rw [held_dropSession]
    exact fun y hy hended hruns =>
      h.ended y (hmem hy) hended (kernel_of_dropSession (hkernel hruns))
  · rw [held_dropSession]
    intro name id hk
    obtain ⟨y, hy, rfl, rfl⟩ := h.owner name id (kernel_of_dropSession (hkernel hk))
    rcases (mem_held hdrop).mp hy with rfl | hother
    · exact absurd (hkernel hk) (not_runs_dropSession h hx)
    · exact ⟨y, hother, rfl, rfl⟩

/-- A session that ended is replaced in place: its flag is cleared after it was set. -/
theorem restart_eq (hended : x.ended = true) (new : Session) (s : Sessions) :
    ({ s.markSession x.name true with held := s.held.take index ++ new :: post }.dropSession x) =
      { s with
        held := s.held.take index ++ new :: post
        live := Function.update s.live x.name false } := by
  simp [dropSession, hended, markSession]

theorem Owned.restart (h : s.Owned) (hdrop : s.held.drop index = x :: post)
    (hended : x.ended = true) :
    Owned ({ (s.tryStart x.name .started).2 with
      held := s.held.take index ++ Session.mk x.name s.next false :: post }.dropSession x) := by
  have hlt : ∀ y ∈ s.held, y.id ≠ s.next := fun y hy => Nat.ne_of_lt (h.held_lt y hy)
  have hmem : ∀ {y}, y ∈ s.held.take index ++ post → y ∈ s.held := fun hy =>
    (mem_held hdrop).mpr (Or.inr hy)
  simp only [dropSession, hended, if_pos, markSession, tryStart]
  refine h.started x.name ?_ (by simp) (fun y hy => ?_) (fun y hy hruns => ?_) _
  · rw [List.map_append, List.map_cons, List.nodup_middle, List.nodup_cons, ← List.map_append,
      ← eraseIdx_held hdrop]
    refine ⟨fun hid => ?_, h.distinct.sublist ((List.eraseIdx_sublist ..).map _)⟩
    obtain ⟨y, hy, hid⟩ := List.mem_map.mp hid
    exact hlt y (List.mem_of_mem_eraseIdx hy) hid
  · rw [List.mem_append, List.mem_cons, or_left_comm, ← List.mem_append] at hy
    exact hy.imp_right hmem
  · rcases (mem_held hdrop).mp hy with rfl | hother
    · exact absurd hruns (h.ended y hy hended)
    · rw [List.mem_append, List.mem_cons, or_left_comm, ← List.mem_append]
      exact Or.inr hother

/-- A consumer sees that its session ended. -/
theorem Owned.notice (h : s.Owned) (hdrop : s.held.drop index = x :: post) (hgone : ¬ s.Runs x) :
    Owned { s with held := s.held.take index ++ { x with ended := true } :: post } := by
  have hmem : ∀ y ∈ s.held.take index ++ { x with ended := true } :: post,
      y = { x with ended := true } ∨ y ∈ s.held := fun y hy => by
    rw [List.mem_append, List.mem_cons, or_left_comm, ← List.mem_append] at hy
    exact hy.imp_right fun hother => (mem_held hdrop).mpr (Or.inr hother)
  have hx : x ∈ s.held := (mem_held hdrop).mpr (Or.inl rfl)
  constructor
  · have hdistinct := h.distinct
    rw [held_eq hdrop, List.map_append, List.map_cons] at hdistinct
    rwa [List.map_append, List.map_cons]
  · intro y hy
    rcases hmem y hy with rfl | hold
    · exact h.held_lt x hx
    · exact h.held_lt y hold
  · exact h.kernel_lt
  · intro y hy hended hruns
    rcases hmem y hy with rfl | hold
    · exact hgone hruns
    · exact h.ended y hold hended hruns
  · intro name id hk
    obtain ⟨y, hy, rfl, rfl⟩ := h.owner name id hk
    rcases (mem_held hdrop).mp hy with rfl | hother
    · exact absurd hk hgone
    · refine ⟨y, ?_, rfl, rfl⟩
      rw [List.mem_append, List.mem_cons, or_left_comm, ← List.mem_append]
      exact Or.inr hother

end Place

/-- Another program stops the session of a name, and may start its own. -/
theorem Owned.outside (h : s.Owned) (name : SessionName) (restarted : Bool) :
    Owned { s with
      kernel := Function.update s.kernel name (if restarted then some ⟨s.next, false⟩ else none)
      next := s.next + 1 } := by
  have hours : ∀ {n id},
      Function.update s.kernel name (if restarted then some ⟨s.next, false⟩ else none) n =
        some ⟨id, true⟩ → s.kernel n = some ⟨id, true⟩ := by
    intro n id hk
    by_cases hn : n = name
    · subst hn
      cases restarted <;> simp at hk
    · rwa [Function.update_of_ne hn] at hk
  refine ⟨h.distinct, fun x hx => Nat.lt_succ_of_lt (h.held_lt x hx), fun n k hk => ?_,
    fun x hx hended hruns => h.ended x hx hended (hours hruns),
    fun n id hk => h.owner n id (hours hk)⟩
  by_cases hn : n = name
  · subst hn
    cases restarted with
    | true =>
      simp only [Function.update_self, if_pos, Option.mem_def, Option.some.injEq] at hk
      exact hk ▸ Nat.lt_succ_self _
    | false => simp at hk
  · simp only [Function.update_of_ne hn] at hk
    exact Nat.lt_succ_of_lt (h.kernel_lt n k hk)

/-- Who holds what stays right. -/
theorem Owned.step (h : s.Owned) {a : Action} (hstep : step s a = some s') : s'.Owned := by
  cases a with
  | start name outcome =>
    cases Option.some.inj hstep
    cases outcome with
    | refused => simpa [tryStart] using h
    | undone => simpa [tryStart] using h.stop name
    | started =>
      have hlt : ∀ x ∈ s.held, x.id ≠ s.next := fun x hx => Nat.ne_of_lt (h.held_lt x hx)
      refine h.started name ?_ (by simp) (fun x hx => ?_) (fun x hx _ => ?_) _
      · rw [List.map_append, List.nodup_append]
        refine ⟨h.distinct, List.nodup_singleton _, ?_⟩
        intro id hid id' hid'
        obtain ⟨x, hx, rfl⟩ := List.mem_map.mp hid
        obtain rfl := List.mem_singleton.mp hid'
        exact hlt x hx
      · exact (List.mem_append.mp hx).symm.imp_left List.mem_singleton.mp
      · exact List.mem_append_left _ hx
  | restart index outcome =>
    simp only [Sessions.step] at hstep
    cases hdrop : s.held.drop index with
    | nil => simp [hdrop] at hstep
    | cons old post =>
      simp only [hdrop, Option.ite_none_right_eq_some] at hstep
      obtain ⟨hended, hstep⟩ := hstep
      cases outcome with
      | refused => exact Option.some.inj hstep ▸ h
      | undone => exact Option.some.inj hstep ▸ h.stop old.name
      | started => exact Option.some.inj hstep ▸ h.restart hdrop hended
  | drop index =>
    simp only [Sessions.step] at hstep
    cases hdrop : s.held.drop index with
    | nil => simp [hdrop] at hstep
    | cons x post =>
      simp only [hdrop, Option.some.injEq] at hstep
      exact hstep ▸ h.drop hdrop
  | outside name restarted =>
    exact Option.some.inj hstep ▸ h.outside name restarted
  | ended index =>
    simp only [Sessions.step] at hstep
    cases hdrop : s.held.drop index with
    | nil => simp [hdrop] at hstep
    | cons x post =>
      simp only [hdrop, Option.ite_none_right_eq_some, Option.some.injEq] at hstep
      obtain ⟨hgone, rfl⟩ := hstep
      exact h.notice hdrop hgone

/-! ### The flags -/

theorem marked_iff_live :
    s.Marked ↔ (∀ x ∈ s.held, s.Runs x → s.live x.name = true) ∧
      (∀ name, (∀ x ∈ s.held, x.name ≠ name) → s.live name = false) ∧
      ∀ name, ∀ k ∈ s.kernel name, s.live name = k.ours :=
  ⟨fun h => ⟨h.set, h.clear, fun name => stops_iff.mp (h.stops name)⟩,
    fun h => ⟨h.1, h.2.1, fun name => stops_iff.mpr (h.2.2 name)⟩⟩

theorem Marked.ours (h : s.Marked) {name : SessionName} {k : KernelSession}
    (hk : s.kernel name = some k) : s.live name = k.ours := stops_iff.mp (h.stops name) k hk

theorem Marked.stop (h : s.Marked) (name : SessionName) :
    Marked { s with kernel := Function.update s.kernel name none } := by
  have hkernel : ∀ {n : SessionName} {k}, Function.update s.kernel name none n = some k →
      s.kernel n = some k := by
    intro n k hk
    by_cases hn : n = name
    · subst hn
      simp at hk
    · rwa [Function.update_of_ne hn] at hk
  exact marked_iff_live.mpr ⟨fun x hx hruns => h.set x hx (hkernel hruns), h.clear,
    fun n k hk => h.ours (hkernel hk)⟩

theorem Marked.started (h : s.Marked) (name : SessionName) :
    Marked { s with
      kernel := Function.update s.kernel name (some ⟨s.next, true⟩)
      held := s.held ++ [⟨name, s.next, false⟩]
      live := Function.update s.live name true
      next := s.next + 1 } := by
  refine marked_iff_live.mpr ⟨fun x hx hruns => ?_, fun n hn => ?_, fun n k hk => ?_⟩
  · by_cases hname : x.name = name
    · simp only [hname, Function.update_self]
    · simp only [Runs, Function.update_of_ne hname] at hruns ⊢
      rcases List.mem_append.mp hx with hx | hx
      · exact h.set x hx hruns
      · exact absurd (List.mem_singleton.mp hx ▸ rfl) hname
  · have hname : n ≠ name := fun heq =>
      hn ⟨name, s.next, false⟩ (List.mem_append_right _ List.mem_cons_self) heq.symm
    simp only [Function.update_of_ne hname]
    exact h.clear n fun x hx => hn x (List.mem_append_left _ hx)
  · by_cases hname : n = name
    · subst hname
      simp only [Function.update_self, Option.mem_def, Option.some.injEq] at hk ⊢
      rw [← hk]
    · simp only [Function.update_of_ne hname] at hk ⊢
      exact h.ours hk

section Place

variable {index : ℕ} {x : Session} {post : List Session}

/-- Dropping a session keeps the flags right exactly where no other one of its name runs. -/
theorem Marked.drop_iff (h : s.Marked) (howned : s.Owned) (hdrop : s.held.drop index = x :: post) :
    ({ s with held := s.held.take index ++ post }.dropSession x).Marked ↔
      ∀ y ∈ s.held.take index ++ post, y.name = x.name → ¬ s.Runs y := by
  have hx : x ∈ s.held := (mem_held hdrop).mpr (Or.inl rfl)
  have hmem : ∀ {y}, y ∈ s.held.take index ++ post → y ∈ s.held := fun hy =>
    (mem_held hdrop).mpr (Or.inr hy)
  rw [marked_iff_live, held_dropSession, live_dropSession]
  constructor
  · rintro ⟨hset, -, -⟩ y hy hname hruns
    have hother : ({ s with held := s.held.take index ++ post }.dropSession x).Runs y := by
      rw [Runs, kernel_dropSession, if_neg]
      · exact hruns
      · rintro ⟨hxruns, -⟩
        have heq : some (KernelSession.mk y.id true) = some ⟨x.id, true⟩ :=
          hruns.symm.trans (hname ▸ hxruns)
        simp only [Option.some.injEq, KernelSession.mk.injEq, and_true] at heq
        exact howned.id_ne hdrop hy heq
    have hflag := hset y hy hother
    simp [hname] at hflag
  · intro hfree
    refine ⟨fun y hy hruns => ?_, fun name hname => ?_, fun name k hk => ?_⟩
    · have hbefore : s.Runs y := by
        exact kernel_of_dropSession (s := { s with held := s.held.take index ++ post }) hruns
      have hne : y.name ≠ x.name := fun heq => hfree y hy heq hbefore
      simp only [Function.update_of_ne hne]
      exact h.set y (hmem hy) hbefore
    · by_cases hxname : name = x.name
      · subst hxname
        simp only [Function.update_self]
      · simp only [Function.update_of_ne hxname]
        refine h.clear name fun y hy => ?_
        rcases (mem_held hdrop).mp hy with rfl | hother
        · exact Ne.symm hxname
        · exact hname y hother
    · have hbefore := kernel_of_dropSession hk
      by_cases hxname : name = x.name
      · subst hxname
        simp only [Function.update_self]
        -- a session of this process that still runs would be another one of its name
        obtain ⟨id, ours⟩ := k
        cases ours with
        | false => rfl
        | true =>
          exfalso
          obtain ⟨y, hy, hyname, rfl⟩ := howned.owner x.name id hbefore
          rcases (mem_held hdrop).mp hy with rfl | hother
          · refine not_runs_dropSession howned hy ?_
            rw [Runs, kernel_dropSession]
            rw [Option.mem_def, kernel_dropSession] at hk
            exact hk
          · refine hfree y hother hyname ?_
            rw [Runs, hyname]
            exact hbefore
      · simp only [Function.update_of_ne hxname]
        exact h.ours hbefore

/-- A session that is replaced in place is not marked any more. -/
theorem not_marked_restart (hended : x.ended = true) :
    ¬ ({ (s.tryStart x.name .started).2 with
      held :=
        s.held.take index ++ Session.mk x.name s.next false :: post }.dropSession x).Marked := by
  intro hmarked
  have hflag := hmarked.set (Session.mk x.name s.next false) (by simp [held_dropSession])
    (by simp [Runs, kernel_dropSession, hended, tryStart, markSession])
  simp [live_dropSession] at hflag

/-- Noticing that a session ended keeps the flags right. -/
theorem Marked.notice (h : s.Marked) (hdrop : s.held.drop index = x :: post) :
    Marked { s with held := s.held.take index ++ { x with ended := true } :: post } := by
  have hx : x ∈ s.held := (mem_held hdrop).mpr (Or.inl rfl)
  refine marked_iff_live.mpr ⟨fun y hy hruns => ?_, fun name hname => ?_, fun n k hk => h.ours hk⟩
  · rw [List.mem_append, List.mem_cons, or_left_comm, ← List.mem_append] at hy
    rcases hy with rfl | hother
    · exact h.set x hx hruns
    · exact h.set y ((mem_held hdrop).mpr (Or.inr hother)) hruns
  · refine h.clear name fun y hy => ?_
    rcases (mem_held hdrop).mp hy with rfl | hother
    · exact hname { y with ended := true } (by simp)
    · refine hname y ?_
      rw [List.mem_append, List.mem_cons, or_left_comm, ← List.mem_append]
      exact Or.inr hother

end Place

/-- Another program stops or takes over the session of a name; only taking over one whose flag is
set makes the flag wrong. -/
theorem Marked.outside_iff (h : s.Marked) (name : SessionName)
    (restarted : Bool) :
    Marked { s with
        kernel := Function.update s.kernel name (if restarted then some ⟨s.next, false⟩ else none)
        next := s.next + 1 } ↔ (restarted = true → s.live name = false) := by
  rw [marked_iff_live]
  constructor
  · rintro ⟨-, -, hours⟩ rfl
    exact hours name ⟨s.next, false⟩ (by simp)
  · intro hfree
    refine ⟨fun x hx hruns => ?_, h.clear, fun n k hk => ?_⟩
    · by_cases hname : x.name = name
      · simp only [Runs, hname, Function.update_self] at hruns
        cases restarted <;> simp at hruns
      · simp only [Runs, Function.update_of_ne hname] at hruns
        exact h.set x hx hruns
    · by_cases hname : n = name
      · subst hname
        cases restarted with
        | true =>
          simp only [Function.update_self, if_pos, Option.mem_def, Option.some.injEq] at hk
          rw [← hk]
          exact hfree rfl
        | false => simp at hk
      · simp only [Function.update_of_ne hname] at hk
        exact h.ours hk

/-- **A step keeps the flags right exactly where it is orderly.** -/
theorem marked_step_iff (h : s.Marked) (howned : s.Owned) {a : Action}
    (hstep : Sessions.step s a = some s') : s'.Marked ↔ s.Orderly a := by
  cases a with
  | start name outcome =>
    refine iff_of_true ?_ trivial
    cases Option.some.inj hstep
    cases outcome with
    | refused => simpa [tryStart] using h
    | undone => simpa [tryStart] using h.stop name
    | started => exact h.started name
  | restart index outcome =>
    simp only [Sessions.step] at hstep
    cases hdrop : s.held.drop index with
    | nil => simp [hdrop] at hstep
    | cons old post =>
      simp only [hdrop, Option.ite_none_right_eq_some] at hstep
      obtain ⟨hended, hstep⟩ := hstep
      cases outcome with
      | refused => exact iff_of_true (Option.some.inj hstep ▸ h) nofun
      | undone => exact iff_of_true (Option.some.inj hstep ▸ h.stop old.name) nofun
      | started =>
        refine iff_of_false (Option.some.inj hstep ▸ not_marked_restart hended) fun horderly => ?_
        have hnot := horderly rfl old (getElem?_held hdrop)
        rw [hended] at hnot
        cases hnot
  | drop index =>
    simp only [Sessions.step] at hstep
    cases hdrop : s.held.drop index with
    | nil => simp [hdrop] at hstep
    | cons x post =>
      simp only [hdrop, Option.some.injEq] at hstep
      rw [← hstep, h.drop_iff howned hdrop, Orderly, getElem?_held hdrop, eraseIdx_held hdrop]
      simp
  | outside name restarted =>
    rw [← Option.some.inj hstep]
    exact h.outside_iff name restarted
  | ended index =>
    refine iff_of_true ?_ trivial
    simp only [Sessions.step] at hstep
    cases hdrop : s.held.drop index with
    | nil => simp [hdrop] at hstep
    | cons x post =>
      simp only [hdrop, Option.ite_none_right_eq_some, Option.some.injEq] at hstep
      exact hstep.2 ▸ h.notice hdrop

end Step

/-! ### Whole runs -/

/-- Before this process starts anything; sessions of other programs may run. -/
def fresh (kernel : SessionName → Option KernelSession) (next : ℕ) : Sessions where
  kernel := kernel
  next := next

/-- **The flags are right in every state of a run exactly if all its steps are orderly.** -/
theorem marked_iff {kernel : SessionName → Option KernelSession} {next : ℕ}
    (hforeign : ∀ name, ∀ k ∈ kernel name, k.ours = false ∧ k.id < next) {as : List Action}
    {s : Sessions} (hrun : Machine.exec step (fresh kernel next) as = some s) :
    Machine.Throughout step Marked (fresh kernel next) as ↔
      Machine.Along step Orderly (fresh kernel next) as := by
  have hmarked : Marked (fresh kernel next) :=
    marked_iff_live.mpr ⟨nofun, fun _ _ => rfl, fun name k hk => ((hforeign name k hk).1).symm⟩
  exact Machine.throughout_iff_along (I := Owned) (fun s a s' h hstep => h.step hstep)
    (fun s a s' h hm hstep => marked_step_iff hm h hstep) (Owned.start hforeign) hmarked hrun

/-! ### A broker trace that ended -/

/-- `TaskMan-Net-Service` -/
def netService : SessionName := ⟨0, by decide⟩

/-- No session runs, and this process holds none. -/
def quiet : Sessions := fresh (fun _ => none) 0

/-- The network trace is started, idles out, and is started again. -/
def startedTwice : List Action :=
  [.start netService .started, .drop 0, .start netService .started]

theorem marked_iff_startedTwice :
    ∃ s, Machine.exec step quiet startedTwice = some s ∧ s.live netService = true ∧
      Machine.Throughout step Marked quiet startedTwice := by
  have hrun : Machine.exec step quiet startedTwice =
      some ((Machine.exec step quiet startedTwice).get rfl) := (Option.some_get _).symm
  refine ⟨_, hrun, by decide +kernel, (marked_iff ?_ hrun).mpr (by decide +kernel)⟩
  exact fun _ _ hk => nomatch hk

/-- The network trace is stopped by another program and replaced in place. -/
def restartedInPlace : List Action :=
  [.start netService .started, .outside netService false, .ended 0, .restart 0 .started]

/-- Its new session runs and is held, and its flag is clear. -/
theorem not_marked_restartedInPlace :
    ∃ s, Machine.exec step quiet restartedInPlace = some s ∧ ¬ s.Marked := by
  have hrun : Machine.exec step quiet restartedInPlace =
      some ((Machine.exec step quiet restartedInPlace).get rfl) := (Option.some_get _).symm
  refine ⟨_, hrun, fun h => ?_⟩
  have hflag := h.set ⟨netService, 2, false⟩ (by decide +kernel) (by decide +kernel)
  exact absurd hflag (by decide +kernel)

end Sessions

end Taskman.Etw
