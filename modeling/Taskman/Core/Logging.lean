import Taskman.LTS.Machine
import Taskman.Text.Basic
import Mathlib.Data.List.Perm.Subperm
import Mathlib.Logic.Function.Basic

/-!
# Early log records

Until the first frame is shown records go into a bounded buffer.  `attach_file_logging` then takes
the buffer, replays it into the file and publishes the file as the sink.  A thread that logs first
looks for the sink and, where there is none, appends its record to the buffer: two critical
sections, between which the buffer may be taken.  The cell of the sink is made by the first record;
an attachment that finds no cell returns, and no file is ever attached.

* `Logging.step` : one critical section of a thread that logs, or one of the attachment;
* `Logging.Counted` : every record is in one place, in every run that does not overflow the buffer;
* `Logging.Ordered` : each thread's records are on their way in the order it logged them, as long
  as nothing is appended to a buffer that was taken;
* `Logging.complete_iff` : **no record is lost exactly where none is appended after the buffer was
  taken, or after the attachment returned without it**.
-/

namespace Taskman

/-- A formatted record of a thread. -/
structure LogLine (τ : Type*) where
  thread : τ
  text : Text
  deriving DecidableEq

/-- Where `attach_file_logging` is, which is called once. -/
inductive Attachment (τ : Type*) where
  /-- Before it is called. -/
  | waiting
  /-- It has found the cell of the sink, and opens the file. -/
  | opening
  /-- It found no cell and returned what `init` returns, which does nothing after `init_early`. -/
  | refused
  /-- It has taken the buffer; these lines are not replayed yet. -/
  | replaying (lines : List (LogLine τ))
  /-- The sink is published. -/
  | attached
  deriving DecidableEq

/-- The buffer is still to be taken. -/
def Attachment.beforeTake {τ : Type*} : Attachment τ → Bool
  | .waiting | .opening => true
  | .refused | .replaying _ | .attached => false

/-- What the threads that log share. -/
structure Logging (τ : Type*) where
  /-- `EARLY` -/
  early : List (LogLine τ) := []
  attachment : Attachment τ := .waiting
  /-- `SINK.get().is_some()`: a record has reached the layer. -/
  sinkCell : Bool := false
  /-- What was written to the file. -/
  written : List (LogLine τ) := []
  /-- The record of a thread that found no sink and has not appended it. -/
  pending : τ → Option Text := fun _ => none
  /-- All records, in the order in which they were logged. -/
  logged : List (LogLine τ) := []
  /-- Those of them that found no sink. -/
  before : List (LogLine τ) := []

namespace Logging

/-- Lines the buffer holds. -/
def EARLY_CAP : ℕ := 512

/-- What ends a text that was cut off. -/
def ellipsis : Text := " …".toList

/-- A full buffer keeps a single truncation mark instead of growing. -/
def pushEarly {τ : Type*} (lines : List (LogLine τ)) (line : LogLine τ) : List (LogLine τ) :=
  if lines.length < EARLY_CAP then lines ++ [line]
  else
    match lines.getLast? with
    | none => lines
    | some last =>
      if last.text.getLast? = some '…' then lines
      else lines.dropLast ++ [{ last with text := last.text ++ ellipsis }]

/-- One critical section. -/
inductive Action (τ : Type*) where
  /-- A thread logs a record: it looks for the sink and writes to it if there is one. -/
  | log (line : LogLine τ)
  /-- A thread that found no sink appends its record to the buffer. -/
  | append (thread : τ)
  /-- The attachment looks for the cell of the sink. -/
  | attach
  /-- It takes the buffer. -/
  | take
  /-- It replays one line. -/
  | replay
  | publish
  deriving DecidableEq

/-- The lines that are taken and not replayed. -/
def unreplayed {τ : Type*} : Attachment τ → List (LogLine τ)
  | .replaying lines => lines
  | .waiting | .opening | .refused | .attached => []

/-- The record a thread is about to append. -/
def pendingLine {τ : Type*} (pending : τ → Option Text) (thread : τ) : List (LogLine τ) :=
  ((pending thread).map (LogLine.mk thread)).toList

variable {τ : Type*} [DecidableEq τ]

/-- One critical section of the layer or of the attachment. -/
def step (s : Logging τ) : Action τ → Option (Logging τ)
  | .log line =>
    if s.pending line.thread = none then
      some (if s.attachment = .attached then
          { s with
            sinkCell := true
            written := s.written ++ [line]
            logged := s.logged ++ [line] }
        else
          { s with
            sinkCell := true
            pending := Function.update s.pending line.thread (some line.text)
            logged := s.logged ++ [line]
            before := s.before ++ [line] })
    else none
  | .append thread =>
    (s.pending thread).map fun text =>
      { s with
        early := pushEarly s.early ⟨thread, text⟩
        pending := Function.update s.pending thread none }
  | .attach =>
    match s.attachment with
    | .waiting => some { s with attachment := if s.sinkCell then .opening else .refused }
    | _ => none
  | .take =>
    match s.attachment with
    | .opening => some { s with attachment := .replaying s.early, early := [] }
    | _ => none
  | .replay =>
    match s.attachment with
    | .replaying (line :: lines) =>
      some { s with written := s.written ++ [line], attachment := .replaying lines }
    | _ => none
  | .publish =>
    match s.attachment with
    | .replaying [] => some { s with attachment := .attached }
    | _ => none

/-- The records of one thread. -/
def ofThread (thread : τ) (lines : List (LogLine τ)) : List (LogLine τ) :=
  lines.filter (·.thread = thread)

/-- Every record is written exactly once, and those of each thread in the order it logged them. -/
structure Complete (s : Logging τ) : Prop where
  once : s.written.Perm s.logged
  inOrder : ∀ thread, ofThread thread s.written = ofThread thread s.logged

/-- Nothing is under way: the attachment has returned, and no thread is about to append a record. -/
structure Settled (s : Logging τ) : Prop where
  returned : s.attachment = .attached ∨ s.attachment = .refused
  pending : ∀ thread, s.pending thread = none

/-- The step appends nothing to a buffer that was taken, or that nobody will take. -/
def InTime (s : Logging τ) : Action τ → Prop
  | .append _ => s.attachment.beforeTake = true
  | _ => True

instance (s : Logging τ) : ∀ a, Decidable (InTime s a)
  | .append _ => inferInstanceAs (Decidable (s.attachment.beforeTake = true))
  | .log _ | .attach | .take | .replay | .publish => inferInstanceAs (Decidable True)

/-! ### What one step does -/

/-- What a step does, as long as the buffer is not full. -/
inductive Steps (s : Logging τ) : Logging τ → Action τ → Prop where
  | write (line : LogLine τ) (hattached : s.attachment = .attached)
      (hidle : s.pending line.thread = none) :
      Steps s { s with
        sinkCell := true
        written := s.written ++ [line]
        logged := s.logged ++ [line] } (.log line)
  | miss (line : LogLine τ) (hattached : s.attachment ≠ .attached)
      (hidle : s.pending line.thread = none) :
      Steps s { s with
        sinkCell := true
        pending := Function.update s.pending line.thread (some line.text)
        logged := s.logged ++ [line]
        before := s.before ++ [line] } (.log line)
  | append (line : LogLine τ) (hpending : s.pending line.thread = some line.text) :
      Steps s { s with
        early := s.early ++ [line]
        pending := Function.update s.pending line.thread none } (.append line.thread)
  | attach (hwaiting : s.attachment = .waiting) (hcell : s.sinkCell = true) :
      Steps s { s with attachment := .opening } .attach
  | refuse (hwaiting : s.attachment = .waiting) (hcell : s.sinkCell = false) :
      Steps s { s with attachment := .refused } .attach
  | take (hopening : s.attachment = .opening) :
      Steps s { s with attachment := .replaying s.early, early := [] } .take
  | replay (line : LogLine τ) (lines : List (LogLine τ))
      (hreplaying : s.attachment = .replaying (line :: lines)) :
      Steps s { s with written := s.written ++ [line], attachment := .replaying lines } .replay
  | publish (hreplaying : s.attachment = .replaying []) :
      Steps s { s with attachment := .attached } .publish

theorem steps_of_step {s s' : Logging τ} {a : Action τ} (h : step s a = some s')
    (hroom : ∀ thread, (s.pending thread).isSome = true → s.early.length < EARLY_CAP) :
    Steps s s' a := by
  cases a with
  | log line =>
    obtain ⟨hidle, hs⟩ := Option.ite_none_right_eq_some.mp h
    cases hs
    by_cases hatt : s.attachment = .attached
    · rw [if_pos hatt]
      exact .write line hatt hidle
    · rw [if_neg hatt]
      exact .miss line hatt hidle
  | append thread =>
    obtain ⟨text, hpending, rfl⟩ := Option.map_eq_some_iff.mp h
    rw [pushEarly, if_pos (hroom thread (by simp [hpending]))]
    exact .append ⟨thread, text⟩ hpending
  | attach =>
    unfold step at h
    cases hatt : s.attachment with
    | waiting =>
      simp only [hatt, Option.some.injEq] at h
      by_cases hcell : s.sinkCell = true
      · rw [if_pos hcell] at h
        exact h ▸ .attach hatt hcell
      · rw [if_neg hcell] at h
        exact h ▸ .refuse hatt (Bool.eq_false_iff.mpr hcell)
    | opening | refused | attached | replaying lines => simp [hatt] at h
  | take =>
    unfold step at h
    cases hatt : s.attachment with
    | opening =>
      simp only [hatt, Option.some.injEq] at h
      exact h ▸ .take hatt
    | waiting | refused | attached | replaying lines => simp [hatt] at h
  | replay =>
    unfold step at h
    cases hatt : s.attachment with
    | waiting | opening | refused | attached => simp [hatt] at h
    | replaying lines =>
      cases lines with
      | nil => simp [hatt] at h
      | cons line lines =>
        simp only [hatt, Option.some.injEq] at h
        exact h ▸ .replay line lines hatt
  | publish =>
    unfold step at h
    cases hatt : s.attachment with
    | waiting | opening | refused | attached => simp [hatt] at h
    | replaying lines =>
      cases lines with
      | nil =>
        simp only [hatt, Option.some.injEq] at h
        exact h ▸ .publish hatt
      | cons line lines => simp [hatt] at h

/-! ### What a thread is about to append -/

section Pending

variable {pending : τ → Option Text} {line : LogLine τ}

/-- A thread that begins to log holds its record. -/
theorem pendingLine_hold (hidle : pending line.thread = none) (thread : τ) :
    pendingLine (Function.update pending line.thread (some line.text)) thread =
      pendingLine pending thread ++ ofThread thread [line] := by
  unfold pendingLine
  by_cases hthread : thread = line.thread
  · subst hthread
    simp [hidle, ofThread]
  · rw [Function.update_of_ne hthread]
    simp [ofThread, Ne.symm hthread]

/-- A thread that appends its record holds none. -/
theorem pendingLine_release (hpending : pending line.thread = some line.text) (thread : τ) :
    pendingLine pending thread =
      ofThread thread [line] ++
        pendingLine (Function.update pending line.thread none) thread := by
  unfold pendingLine
  by_cases hthread : thread = line.thread
  · subst hthread
    simp [hpending, ofThread]
  · rw [Function.update_of_ne hthread]
    simp [ofThread, Ne.symm hthread]

theorem pendingLine_comm (hidle : pending line.thread = none) (thread : τ) :
    ofThread thread [line] ++ pendingLine pending thread =
      pendingLine pending thread ++ ofThread thread [line] := by
  by_cases hthread : thread = line.thread
  · subst hthread
    simp [pendingLine, hidle]
  · simp [ofThread, Ne.symm hthread]

theorem count_ofThread (line : LogLine τ) (lines : List (LogLine τ)) :
    (ofThread line.thread lines).count line = lines.count line :=
  List.count_filter (by simp)

@[simp] theorem ofThread_append (thread : τ) (lines more : List (LogLine τ)) :
    ofThread thread (lines ++ more) = ofThread thread lines ++ ofThread thread more :=
  List.filter_append ..

end Pending

/-! ### Every record is in one place -/

/-- A record is in the file, taken but not replayed, in the buffer, or on its way there; the last
two only where it found no sink. -/
structure Counted (s : Logging τ) : Prop where
  places : ∀ line, s.written.count line + (unreplayed s.attachment).count line +
    s.early.count line + (pendingLine s.pending line.thread).count line = s.logged.count line
  held : ∀ line, s.early.count line + (pendingLine s.pending line.thread).count line ≤
    s.before.count line

section Counted

variable {s s' : Logging τ} {a : Action τ}

theorem Counted.start : Counted ({} : Logging τ) := ⟨fun _ => rfl, fun _ => Nat.zero_le _⟩

/-- There is room in the buffer for what is about to be appended. -/
theorem Counted.early_length_lt (h : s.Counted) {thread : τ}
    (hpending : (s.pending thread).isSome = true) : s.early.length < s.before.length := by
  obtain ⟨text, htext⟩ := Option.isSome_iff_exists.mp hpending
  have hsub : List.Subperm (s.early ++ [LogLine.mk thread text]) s.before := by
    refine List.subperm_ext_iff.mpr fun line _ => ?_
    have hheld := h.held line
    by_cases hline : line = ⟨thread, text⟩
    · subst hline
      simpa [pendingLine, htext] using hheld
    · rw [List.count_append, List.count_singleton, if_neg (by simpa using Ne.symm hline)]
      omega
  have hlength := hsub.length_le
  rwa [List.length_append, List.length_singleton] at hlength

/-- Every step keeps every record in one place. -/
theorem Counted.step (h : s.Counted) (hstep : Steps s s' a) : s'.Counted := by
  cases hstep with
  | write line hattached hidle =>
    refine ⟨fun other => ?_, h.held⟩
    have hplaces := h.places other
    simp only [List.count_append]
    omega
  | miss line hattached hidle =>
    refine ⟨fun other => ?_, fun other => ?_⟩
    · have hplaces := h.places other
      simp only [pendingLine_hold hidle, List.count_append, count_ofThread]
      omega
    · have hheld := h.held other
      simp only [pendingLine_hold hidle, List.count_append, count_ofThread]
      omega
  | append line hpending =>
    refine ⟨fun other => ?_, fun other => ?_⟩
    · have hplaces := h.places other
      simp only [pendingLine_release hpending, List.count_append, count_ofThread] at hplaces ⊢
      omega
    · have hheld := h.held other
      simp only [pendingLine_release hpending, List.count_append, count_ofThread] at hheld ⊢
      omega
  | attach hwaiting hcell | refuse hwaiting hcell =>
    refine ⟨fun other => ?_, h.held⟩
    simpa [hwaiting, unreplayed] using h.places other
  | take hopening =>
    refine ⟨fun other => ?_, fun other => ?_⟩
    · have hplaces := h.places other
      simp only [hopening, unreplayed, List.count_nil] at hplaces ⊢
      omega
    · have hheld := h.held other
      simp only [List.count_nil]
      omega
  | replay line lines hreplaying =>
    refine ⟨fun other => ?_, h.held⟩
    have hplaces := h.places other
    simp only [hreplaying, unreplayed, List.count_append, List.count_cons, List.count_nil]
      at hplaces ⊢
    omega
  | publish hreplaying =>
    refine ⟨fun other => ?_, h.held⟩
    simpa [hreplaying, unreplayed] using h.places other

/-- What found no sink stays counted. -/
theorem prefix_of_step (hstep : step s a = some s') : s.before <+: s'.before := by
  cases a with
  | log line =>
    obtain ⟨-, hs⟩ := Option.ite_none_right_eq_some.mp hstep
    cases hs
    split
    · exact List.prefix_rfl
    · exact List.prefix_append _ _
  | append thread =>
    obtain ⟨text, -, rfl⟩ := Option.map_eq_some_iff.mp hstep
    exact List.prefix_rfl
  | attach | take | replay | publish =>
    simp only [step] at hstep
    split at hstep <;> cases hstep
    exact List.prefix_rfl

theorem before_length_le {as : List (Action τ)} (hrun : Machine.exec step s as = some s') :
    s.before.length ≤ s'.before.length := by
  induction as generalizing s with
  | nil =>
    cases hrun
    exact Nat.le_refl _
  | cons a as ih =>
    obtain ⟨t, ht, hrest⟩ := Machine.exec_cons_eq_some.mp hrun
    exact Nat.le_trans (prefix_of_step ht).length_le (ih hrest)

end Counted

/-! ### The order of each thread -/

/-- The records of each thread are on their way in the order it logged them. -/
structure Ordered (s : Logging τ) : Prop where
  route : ∀ thread, ofThread thread s.written ++ ofThread thread (unreplayed s.attachment) ++
    ofThread thread s.early ++ pendingLine s.pending thread = ofThread thread s.logged
  taken : s.attachment.beforeTake = false → s.early = []
  /-- Before the first record nothing was appended, and nothing is about to be. -/
  fresh : s.sinkCell = false → s.early = [] ∧ ∀ thread, s.pending thread = none

section Ordered

variable {s s' : Logging τ} {a : Action τ}

theorem Ordered.start : Ordered ({} : Logging τ) :=
  ⟨fun _ => rfl, nofun, fun _ => ⟨rfl, fun _ => rfl⟩⟩

/-- **A step that appends nothing to a buffer that was taken keeps the order.** -/
theorem Ordered.step (h : s.Ordered) (hstep : Steps s s' a) (hintime : InTime s a) :
    s'.Ordered := by
  cases hstep with
  | write line hattached hidle =>
    have htaken : s.attachment.beforeTake = false := by rw [hattached]; rfl
    refine ⟨fun thread => ?_, h.taken, nofun⟩
    have hroute := h.route thread
    simp only [hattached, h.taken htaken, unreplayed, ofThread_append] at hroute ⊢
    rw [← hroute]
    simpa [ofThread] using pendingLine_comm hidle thread
  | miss line hattached hidle =>
    refine ⟨fun thread => ?_, h.taken, nofun⟩
    simp only [pendingLine_hold hidle, ofThread_append, ← h.route thread, List.append_assoc]
  | append line hpending =>
    refine ⟨fun thread => ?_, fun htaken => ?_, fun hcell => ?_⟩
    · simp only [← h.route thread, pendingLine_release hpending thread, ofThread_append,
        List.append_assoc]
    · have hopen : s.attachment.beforeTake = true := hintime
      exact absurd (hopen.symm.trans htaken) nofun
    · rw [(h.fresh hcell).2 line.thread] at hpending
      cases hpending
  | attach hwaiting hcell =>
    refine ⟨fun thread => ?_, nofun, h.fresh⟩
    simpa [hwaiting, unreplayed, ofThread] using h.route thread
  | refuse hwaiting hcell =>
    refine ⟨fun thread => ?_, fun _ => (h.fresh hcell).1, h.fresh⟩
    simpa [hwaiting, unreplayed, ofThread] using h.route thread
  | take hopening =>
    refine ⟨fun thread => ?_, fun _ => rfl, fun hcell => ⟨rfl, (h.fresh hcell).2⟩⟩
    simpa [hopening, unreplayed, ofThread] using h.route thread
  | replay line lines hreplaying =>
    refine ⟨fun thread => ?_, fun _ => h.taken (by rw [hreplaying]; rfl), h.fresh⟩
    have hsplit : ofThread thread (line :: lines) =
        ofThread thread [line] ++ ofThread thread lines := ofThread_append thread [line] lines
    simp only [← h.route thread, hreplaying, unreplayed, hsplit, ofThread_append, List.append_assoc]
  | publish hreplaying =>
    refine ⟨fun thread => ?_, fun _ => h.taken (by rw [hreplaying]; rfl), h.fresh⟩
    simpa [hreplaying, unreplayed, ofThread] using h.route thread

end Ordered

/-! ### Whole runs -/

/-- Some record is in a buffer that was taken, or that nobody will take. -/
def Stranded (s : Logging τ) : Prop := s.attachment.beforeTake = false ∧ s.early ≠ []

section Runs

variable {s s' : Logging τ} {as : List (Action τ)}

/-- Nobody reads such a buffer. -/
theorem Stranded.step {a : Action τ} (h : s.Stranded) (hstep : Steps s s' a) : s'.Stranded := by
  cases hstep with
  | write | miss => exact h
  | append line hpending => exact ⟨h.1, by simp⟩
  | attach hwaiting | refuse hwaiting =>
    have htaken := h.1
    rw [hwaiting] at htaken
    cases htaken
  | take hopening =>
    have htaken := h.1
    rw [hopening] at htaken
    cases htaken
  | replay | publish => exact ⟨rfl, h.2⟩

theorem stranded_of_late {a : Action τ} (hstep : Steps s s' a) (hlate : ¬ InTime s a) :
    s'.Stranded := by
  cases hstep with
  | append line hpending => exact ⟨Bool.eq_false_iff.mpr hlate, by simp⟩
  | write | miss | attach | refuse | take | replay | publish => exact absurd trivial hlate

/-- A run that does not overflow the buffer takes the steps it seems to. -/
theorem Counted.steps (h : s.Counted) {a : Action τ} {t : Logging τ}
    (ht : Logging.step s a = some t) (hrest : Machine.exec Logging.step t as = some s')
    (hcap : s'.before.length ≤ EARLY_CAP) :
    Steps s t a := by
  refine steps_of_step ht fun thread hpending => ?_
  have hroom := h.early_length_lt hpending
  have hgrow := (prefix_of_step ht).length_le
  have hrun := before_length_le hrest
  omega

theorem Counted.exec (h : s.Counted) (hrun : Machine.exec Logging.step s as = some s')
    (hcap : s'.before.length ≤ EARLY_CAP) : s'.Counted := by
  induction as generalizing s with
  | nil =>
    cases hrun
    exact h
  | cons a as ih =>
    obtain ⟨t, ht, hrest⟩ := Machine.exec_cons_eq_some.mp hrun
    exact ih (h.step (h.steps ht hrest hcap)) hrest

theorem Ordered.exec (h : s.Ordered) (hcounted : s.Counted)
    (hrun : Machine.exec Logging.step s as = some s') (hcap : s'.before.length ≤ EARLY_CAP)
    (hintime : Machine.Along Logging.step InTime s as) : s'.Ordered := by
  induction as generalizing s with
  | nil =>
    cases hrun
    exact h
  | cons a as ih =>
    obtain ⟨t, ht, hrest⟩ := Machine.exec_cons_eq_some.mp hrun
    have hsteps := hcounted.steps ht hrest hcap
    exact ih (h.step hsteps hintime.1) (hcounted.step hsteps) hrest (hintime.2 t ht)

theorem Stranded.exec (h : s.Stranded) (hcounted : s.Counted)
    (hrun : Machine.exec Logging.step s as = some s') (hcap : s'.before.length ≤ EARLY_CAP) :
    s'.Stranded := by
  induction as generalizing s with
  | nil =>
    cases hrun
    exact h
  | cons a as ih =>
    obtain ⟨t, ht, hrest⟩ := Machine.exec_cons_eq_some.mp hrun
    have hsteps := hcounted.steps ht hrest hcap
    exact ih (h.step hsteps) (hcounted.step hsteps) hrest

/-- A run after which no record is stranded appended nothing to such a buffer. -/
theorem along_inTime (hcounted : s.Counted) (hrun : Machine.exec Logging.step s as = some s')
    (hcap : s'.before.length ≤ EARLY_CAP) (hfree : ¬ s'.Stranded) :
    Machine.Along step InTime s as := by
  induction as generalizing s with
  | nil => trivial
  | cons a as ih =>
    obtain ⟨t, ht, hrest⟩ := Machine.exec_cons_eq_some.mp hrun
    have hsteps := hcounted.steps ht hrest hcap
    constructor
    · by_contra hlate
      exact hfree ((stranded_of_late hsteps hlate).exec (hcounted.step hsteps) hrest hcap)
    · intro t' ht'
      obtain rfl := Option.some.inj (ht.symm.trans ht')
      exact ih (hcounted.step hsteps) hrest

theorem Counted.settled (h : s.Counted) (hsettled : s.Settled) (line : LogLine τ) :
    s.written.count line + s.early.count line = s.logged.count line := by
  have hplaces := h.places line
  rcases hsettled.returned with hatt | hatt
  · simpa [unreplayed, pendingLine, hatt, hsettled.pending] using hplaces
  · simpa [unreplayed, pendingLine, hatt, hsettled.pending] using hplaces

/-- **No record is lost, and none overtakes an older one of its thread, exactly where none is
appended after the buffer was taken, or after the attachment returned without it**, as long as the
buffer can hold what is logged before the sink is published. -/
theorem complete_iff (hrun : Machine.exec step {} as = some s) (hsettled : s.Settled)
    (hcap : s.before.length ≤ EARLY_CAP) :
    s.Complete ↔ Machine.Along step InTime {} as := by
  have hcounted : s.Counted := Counted.start.exec hrun hcap
  constructor
  · intro hcomplete
    refine along_inTime Counted.start hrun hcap fun hstranded => ?_
    obtain ⟨line, hline⟩ := List.exists_mem_of_ne_nil _ hstranded.2
    have hcount := hcounted.settled hsettled line
    rw [hcomplete.once.count_eq] at hcount
    have hpos := List.count_pos_iff.mpr hline
    omega
  · intro hintime
    have hordered : s.Ordered := Ordered.start.exec Counted.start hrun hcap hintime
    have hearly : s.early = [] := hordered.taken (by
      rcases hsettled.returned with hatt | hatt <;> rw [hatt] <;> rfl)
    constructor
    · refine List.perm_iff_count.mpr fun line => ?_
      simpa [hearly] using hcounted.settled hsettled line
    · intro thread
      have hroute := hordered.route thread
      rcases hsettled.returned with hatt | hatt
      · simpa [unreplayed, pendingLine, hatt, hsettled.pending, hearly, ofThread] using hroute
      · simpa [unreplayed, pendingLine, hatt, hsettled.pending, hearly, ofThread] using hroute

end Runs

/-! ### Two threads at the attachment -/

/-- Two threads log; one record is replayed, the others are written once the sink is published. -/
theorem complete_iff_replayed :
    ∃ s : Logging ℕ, Machine.exec step {} [.log ⟨1, "first".toList⟩, .append 1, .attach, .take,
        .replay, .publish, .log ⟨2, "second".toList⟩, .log ⟨1, "third".toList⟩] = some s ∧
      s.written.length = 3 ∧ s.Complete := by
  let first : LogLine ℕ := ⟨1, "first".toList⟩
  let rest : List (LogLine ℕ) := [⟨2, "second".toList⟩, ⟨1, "third".toList⟩]
  let s : Logging ℕ :=
    { attachment := .attached
      sinkCell := true
      written := first :: rest
      pending := Function.update (Function.update (fun _ => none) 1 (some first.text)) 1 none
      logged := first :: rest
      before := [first] }
  have hrun : Machine.exec step {} [.log first, .append 1, .attach, .take, .replay, .publish,
      .log ⟨2, "second".toList⟩, .log ⟨1, "third".toList⟩] = some s := rfl
  have hsettled : s.Settled := by
    refine ⟨Or.inl rfl, fun thread => ?_⟩
    by_cases hthread : thread = 1 <;> simp [s, hthread]
  exact ⟨s, hrun, rfl, (complete_iff hrun hsettled (by decide +kernel)).mpr (by decide +kernel)⟩

/-- A thread finds no sink; the buffer is taken before the thread appends its record. -/
theorem not_complete_late :
    ∃ s : Logging ℕ, Machine.exec step {} [.log ⟨1, "late".toList⟩, .attach, .take, .publish,
        .append 1] = some s ∧
      s.attachment = .attached ∧ s.Settled ∧ s.before.length ≤ EARLY_CAP ∧ ¬ s.Complete := by
  refine ⟨_, rfl, rfl, ⟨Or.inl rfl, fun thread => ?_⟩, by decide +kernel, fun hcomplete => ?_⟩
  · by_cases hthread : thread = 1 <;> simp [hthread]
  · exact absurd hcomplete.once.length_eq (by decide +kernel)

theorem not_complete_refused :
    ∃ s : Logging ℕ, Machine.exec step {} [.attach, .log ⟨1, "warning".toList⟩, .append 1] =
        some s ∧
      s.attachment = .refused ∧ s.Settled ∧ s.before.length ≤ EARLY_CAP ∧ ¬ s.Complete := by
  refine ⟨_, rfl, rfl, ⟨Or.inr rfl, fun thread => ?_⟩, by decide +kernel, fun hcomplete => ?_⟩
  · by_cases hthread : thread = 1 <;> simp [hthread]
  · exact absurd hcomplete.once.length_eq (by decide +kernel)

end Logging

end Taskman
