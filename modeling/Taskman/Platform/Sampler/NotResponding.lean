import Taskman.LTS.Since
import Mathlib.Data.Finset.Basic

/-!
# Not responding

A window counts as hung from the moment its thread has not pumped messages for five seconds.  A
process is reported only after it has been so without interruption for a grace period; the start of
each uninterrupted hang is kept by pid, with the creation time beside it.

* `NotRespondingHold` : the hold, `observe` and `retainWindowed`;
* `Tick`, `Tick.calls`, `history` : one tick of the sampler, and the calls it makes;
* `HungSince` : an observation of the hang, after which nothing interrupts it;
* `NotRespondingHold.follows` : the entries of the hold are these;
* `observe_iff_hungSince` : **the answer is `true` exactly if the process is hung, and has been
  since some observation at least the grace period ago**;
* `unobserved_tick` : a tick in which the process owns a window but is not looked at does not end
  it.
-/

namespace Taskman.Sampler

/-- How long a process must stay hung before it is reported, in ns. -/
def NOT_RESPONDING_GRACE : ℕ := 10000000000

/-- Per-process start of the current uninterrupted hang. -/
structure NotRespondingHold where
  since : ℕ → Option (Option ℤ × ℕ) := fun _ => none

/-- What a tick saw of one process. -/
structure Observation where
  pid : ℕ
  startEpochS : Option ℤ
  hungNow : Bool
  deriving DecidableEq

namespace NotRespondingHold

/-- Folds one observation in, and answers whether the process has been hung long enough. -/
def observe (h : NotRespondingHold) (o : Observation) (now : ℕ) : NotRespondingHold × Bool :=
  if !o.hungNow then ({ since := Function.update h.since o.pid none }, false)
  else
    let entry := (h.since o.pid).getD (o.startEpochS, now)
    let entry := if entry.1 ≠ o.startEpochS then (o.startEpochS, now) else entry
    ({ since := Function.update h.since o.pid (some entry) },
      decide (NOT_RESPONDING_GRACE ≤ now - entry.2))

/-- Forgets every pid that owns no window this tick. -/
def retainWindowed (h : NotRespondingHold) (windowed : Finset ℕ) : NotRespondingHold :=
  { since := fun pid => if pid ∈ windowed then h.since pid else none }

end NotRespondingHold

/-- One tick: what it observed, and the pids that own a window. -/
structure Tick where
  now : ℕ
  observations : List Observation
  windowed : Finset ℕ

/-- The two operations of the hold. -/
inductive Call where
  | observe (now : ℕ) (o : Observation)
  | retain (windowed : Finset ℕ)

/-- The calls for the observations of a tick. -/
def Tick.observes (now : ℕ) (observations : List Observation) : List Call :=
  observations.map (Call.observe now)

/-- All calls of a tick: the observations, and which processes still own windows. -/
def Tick.calls (t : Tick) : List Call :=
  Tick.observes t.now t.observations ++ [.retain t.windowed]

/-- The calls made before an observation: those of the ticks before, and the earlier ones of its
own tick. -/
def history (past : List Tick) (now : ℕ) (before : List Observation) : List Call :=
  past.flatMap Tick.calls ++ Tick.observes now before

namespace NotRespondingHold

/-- What a call does to the hold. -/
def apply (h : NotRespondingHold) : Call → NotRespondingHold
  | .observe now o => (h.observe o now).1
  | .retain windowed => h.retainWindowed windowed

/-- The hold after some calls. -/
def after (calls : List Call) : NotRespondingHold := calls.foldl apply {}

end NotRespondingHold

/-! ### Hung without interruption -/

/-- Nothing a call reports ends the hang of this process: it owns a window, and where it is looked
at it is still hung, and still the same process. -/
def Call.Keeps (pid : ℕ) (start : Option ℤ) : Call → Prop
  | .observe _ o => o.pid = pid → o.startEpochS = start ∧ o.hungNow = true
  | .retain windowed => pid ∈ windowed

/-- The process was seen hung, at least `d` before `now`. -/
def Call.Starts (pid : ℕ) (start : Option ℤ) (d now : ℕ) (c : Call) : Prop :=
  ∃ t, c = .observe t ⟨pid, start, true⟩ ∧ t + d ≤ now

/-- The process was seen hung at least `d` before `now`, and nothing has ended that since. -/
def HungSince (pid : ℕ) (start : Option ℤ) (d now : ℕ) (calls : List Call) : Prop :=
  Since (Call.Keeps pid start) (Call.Starts pid start d now) calls

/-- When a call looked at a process. -/
def Call.time : Call → Option ℕ
  | .observe now _ => some now
  | .retain _ => none

/-- The calls look at processes in the order of time. -/
def Timed (calls : List Call) : Prop := (calls.filterMap Call.time).Pairwise (· ≤ ·)

namespace NotRespondingHold

/-- What the entries of the hold stand for: the first time of an uninterrupted hang. -/
structure Follows (h : NotRespondingHold) (calls : List Call) : Prop where
  hung : ∀ pid start d now,
    HungSince pid start d now calls ↔ ∃ t, h.since pid = some (start, t) ∧ t + d ≤ now
  seen : ∀ pid start t, h.since pid = some (start, t) → t ∈ calls.filterMap Call.time

variable {h : NotRespondingHold} {calls : List Call}

theorem Follows.retainWindowed (hf : Follows h calls) (windowed : Finset ℕ) :
    Follows (h.retainWindowed windowed) (calls ++ [.retain windowed]) := by
  have hentry : ∀ pid start t, (h.retainWindowed windowed).since pid = some (start, t) ↔
      pid ∈ windowed ∧ h.since pid = some (start, t) := fun pid start t =>
    Option.ite_none_right_eq_some
  refine ⟨fun pid start d now => ?_, fun pid start t ht => ?_⟩
  · rw [HungSince, since_concat]
    constructor
    · rintro (⟨hsince, hkeeps⟩ | ⟨t, ht, -⟩)
      · obtain ⟨t, ht, hle⟩ := (hf.hung pid start d now).mp hsince
        exact ⟨t, (hentry pid start t).mpr ⟨hkeeps, ht⟩, hle⟩
      · cases ht
    · rintro ⟨t, ht, hle⟩
      obtain ⟨hmem, ht⟩ := (hentry pid start t).mp ht
      exact Or.inl ⟨(hf.hung pid start d now).mpr ⟨t, ht, hle⟩, hmem⟩
  · rw [List.filterMap_append]
    exact List.mem_append_left _ (hf.seen pid start t ((hentry pid start t).mp ht).2)

/-- What an observation leaves in the hold. -/
theorem since_observe (h : NotRespondingHold) (o : Observation) (now pid : ℕ) :
    (h.observe o now).1.since pid =
      if pid = o.pid then
        if o.hungNow then
          match h.since pid with
          | some (start, t) => if start = o.startEpochS then some (start, t)
            else some (o.startEpochS, now)
          | none => some (o.startEpochS, now)
        else none
      else h.since pid := by
  unfold observe
  cases o.hungNow with
  | false =>
    change Function.update h.since o.pid none pid = _
    rw [Function.update_apply]
    simp
  | true =>
    change Function.update h.since o.pid (some _) pid = _
    rw [Function.update_apply]
    by_cases hpid : pid = o.pid
    · subst hpid
      simp only [if_true]
      cases hsince : h.since o.pid with
      | none => simp
      | some entry =>
        obtain ⟨start, t⟩ := entry
        by_cases hstart : start = o.startEpochS
        · simp [hstart]
        · simp [hstart]
    · simp [hpid]

theorem starts_observe_iff {pid d now bound : ℕ} {start : Option ℤ} {o : Observation} :
    Call.Starts pid start d bound (.observe now o) ↔
      o.pid = pid ∧ o.startEpochS = start ∧ o.hungNow = true ∧ now + d ≤ bound := by
  obtain ⟨pid', start', hung⟩ := o
  constructor
  · rintro ⟨t, heq, hle⟩
    cases heq
    exact ⟨rfl, rfl, rfl, hle⟩
  · rintro ⟨rfl, rfl, rfl, hle⟩
    exact ⟨now, rfl, hle⟩

/-- Looking at a process keeps the hold and the history together. -/
theorem Follows.observe (hf : Follows h calls) {o : Observation} {now : ℕ}
    (hnow : ∀ t ∈ calls.filterMap Call.time, t ≤ now) :
    Follows (h.observe o now).1 (calls ++ [.observe now o]) := by
  refine ⟨fun pid start d bound => ?_, fun pid start t ht => ?_⟩
  · rw [HungSince, since_concat, starts_observe_iff, since_observe]
    change HungSince pid start d bound calls ∧ _ ∨ _ ↔ _
    rw [hf.hung]
    -- an observation says nothing about the other pids
    by_cases hpid : pid = o.pid
    · subst hpid
      have hkeeps : Call.Keeps o.pid start (.observe now o) ↔
          o.startEpochS = start ∧ o.hungNow = true := ⟨fun hk => hk rfl, fun hk _ => hk⟩
      rw [hkeeps, if_pos rfl]
      cases hhung : o.hungNow with
      | false => simp
      | true =>
        cases hentry : h.since o.pid with
        | none => simp
        | some entry =>
          obtain ⟨start', t'⟩ := entry
          have hle : t' ≤ now := hnow t' (hf.seen _ _ _ hentry)
          by_cases hstart : start' = o.startEpochS
          · -- the entry stays, and an observation as late as this one adds nothing to it
            subst hstart
            simp only [Option.some.injEq, Prod.mk.injEq, if_true]
            constructor
            · rintro (⟨⟨t, ⟨rfl, rfl⟩, hbound⟩, -⟩ | ⟨-, rfl, -, hbound⟩)
              · exact ⟨_, ⟨rfl, rfl⟩, hbound⟩
              · exact ⟨_, ⟨rfl, rfl⟩, by omega⟩
            · rintro ⟨t, ⟨rfl, rfl⟩, hbound⟩
              exact Or.inl ⟨⟨_, ⟨rfl, rfl⟩, hbound⟩, rfl, trivial⟩
          · -- another process had the pid: the hang starts now
            simp only [Option.some.injEq, Prod.mk.injEq, if_true, if_neg hstart]
            constructor
            · rintro (⟨⟨t, ⟨rfl, rfl⟩, -⟩, heq, -⟩ | ⟨-, rfl, -, hbound⟩)
              · exact absurd heq.symm hstart
              · exact ⟨_, ⟨rfl, rfl⟩, hbound⟩
            · rintro ⟨t, ⟨rfl, rfl⟩, hbound⟩
              exact Or.inr ⟨trivial, rfl, trivial, hbound⟩
    · have hkeeps : Call.Keeps pid start (.observe now o) := fun heq => absurd heq.symm hpid
      rw [if_neg hpid]
      constructor
      · rintro (⟨hentry, -⟩ | ⟨heq, -⟩)
        · exact hentry
        · exact absurd heq.symm hpid
      · exact fun hentry => Or.inl ⟨hentry, hkeeps⟩
  · rw [List.filterMap_append]
    rw [since_observe] at ht
    have hlast : now ∈ [Call.observe now o].filterMap Call.time := by simp [Call.time]
    by_cases hpid : pid = o.pid
    · subst hpid
      -- the time of an entry is that of this call, or of an earlier one
      cases hhung : o.hungNow with
      | false => simp [hhung] at ht
      | true =>
        cases hentry : h.since o.pid with
        | none =>
          simp only [hhung, hentry, if_true, Option.some.injEq, Prod.mk.injEq] at ht
          obtain ⟨-, rfl⟩ := ht
          exact List.mem_append_right _ hlast
        | some entry =>
          obtain ⟨start', t'⟩ := entry
          by_cases hstart : start' = o.startEpochS
          · simp only [hhung, hentry, if_true, if_pos hstart, Option.some.injEq,
              Prod.mk.injEq] at ht
            obtain ⟨-, rfl⟩ := ht
            exact List.mem_append_left _ (hf.seen _ _ _ hentry)
          · simp only [hhung, hentry, if_true, if_neg hstart, Option.some.injEq,
              Prod.mk.injEq] at ht
            obtain ⟨-, rfl⟩ := ht
            exact List.mem_append_right _ hlast
    · rw [if_neg hpid] at ht
      exact List.mem_append_left _ (hf.seen _ _ _ ht)

/-- **The entries of the hold are the uninterrupted hangs**, after any calls in the order of
time. -/
theorem follows (htimed : Timed calls) : Follows (after calls) calls := by
  induction calls using List.reverseRecOn with
  | nil =>
    refine ⟨fun pid start d now => ?_, fun pid start t ht => ?_⟩
    · refine iff_of_false not_since_nil ?_
      rintro ⟨t, ht, -⟩
      cases ht
    · cases ht
  | append_singleton calls c ih =>
    rw [Timed, List.filterMap_append, List.pairwise_append] at htimed
    obtain ⟨hbefore, -, hlast⟩ := htimed
    have hstep : after (calls ++ [c]) = (after calls).apply c := by
      rw [after, List.foldl_append]
      rfl
    rw [hstep]
    cases c with
    | observe now o =>
      exact (ih hbefore).observe fun t ht => hlast t ht now (by simp [Call.time])
    | retain windowed => exact (ih hbefore).retainWindowed windowed

/-- What an observation answers, from the hang the hold has for its process. -/
theorem observe_eq_true_iff (h : NotRespondingHold) (o : Observation) (now : ℕ) :
    (h.observe o now).2 = true ↔ o.hungNow = true ∧
      ∃ t, (h.observe o now).1.since o.pid = some (o.startEpochS, t) ∧
        t + NOT_RESPONDING_GRACE ≤ now := by
  have hgrace : 0 < NOT_RESPONDING_GRACE := by decide
  cases hhung : o.hungNow with
  | false => simp [observe, hhung]
  | true =>
    have hentry : ∃ t, (h.observe o now).1.since o.pid = some (o.startEpochS, t) ∧
        (h.observe o now).2 = decide (NOT_RESPONDING_GRACE ≤ now - t) := by
      unfold observe
      rw [hhung]
      simp only [Bool.not_true, Bool.false_eq_true, if_false, Function.update_self]
      split
      · exact ⟨now, rfl, rfl⟩
      · rename_i hstart
        exact ⟨_, congrArg some (Prod.ext (not_not.mp hstart) rfl), rfl⟩
    obtain ⟨t, hsince, hanswer⟩ := hentry
    rw [hanswer, decide_eq_true_iff]
    constructor
    · exact fun hle => ⟨rfl, t, hsince, by omega⟩
    · rintro ⟨-, t', hsince', hle⟩
      obtain ⟨-, rfl⟩ := Prod.mk.inj (Option.some.inj (hsince.symm.trans hsince'))
      omega

end NotRespondingHold

/-! ### Ticks -/

/-- The ticks follow one another in time. -/
structure InTime (past : List Tick) (now : ℕ) : Prop where
  order : past.Pairwise fun t t' => t.now ≤ t'.now
  before : ∀ t ∈ past, t.now ≤ now

theorem time_observes {now t : ℕ} {observations : List Observation}
    (ht : t ∈ (Tick.observes now observations).filterMap Call.time) : t = now := by
  obtain ⟨c, hc, htime⟩ := List.mem_filterMap.mp ht
  obtain ⟨o, -, rfl⟩ := List.mem_map.mp hc
  exact (Option.some.inj htime).symm

theorem time_calls {tick : Tick} {t : ℕ} (ht : t ∈ tick.calls.filterMap Call.time) :
    t = tick.now := by
  rw [Tick.calls, List.filterMap_append] at ht
  rcases List.mem_append.mp ht with ht | ht
  · exact time_observes ht
  · cases ht

/-- Such ticks make their calls in the order of time. -/
theorem InTime.timed {past : List Tick} {now : ℕ} (h : InTime past now)
    (before : List Observation) : Timed (history past now before) := by
  rw [Timed, history, List.filterMap_append, List.pairwise_append, List.filterMap_flatMap,
    List.pairwise_flatMap]
  refine ⟨⟨fun tick _ => ?_, h.order.imp ?_⟩, ?_, ?_⟩
  · refine List.pairwise_of_forall_mem_list fun t ht t' ht' => ?_
    rw [time_calls ht, time_calls ht']
  · intro tick tick' hle t ht t' ht'
    rw [time_calls ht, time_calls ht']
    exact hle
  · refine List.pairwise_of_forall_mem_list fun t ht t' ht' => ?_
    rw [time_observes ht, time_observes ht']
  · intro t ht t' ht'
    obtain ⟨tick, htick, ht⟩ := List.mem_flatMap.mp ht
    rw [time_calls ht, time_observes ht']
    exact h.before tick htick

/-- **A process is reported exactly if it is hung now, and was seen hung at least the grace period
ago with no observation since that found it responding or found another process under its pid, and
no tick since at which it owned no window.** -/
theorem observe_iff_hungSince (past : List Tick) (now : ℕ) (before : List Observation)
    (o : Observation) (htime : InTime past now) :
    ((NotRespondingHold.after (history past now before)).observe o now).2 = true ↔
      o.hungNow = true ∧
        HungSince o.pid o.startEpochS NOT_RESPONDING_GRACE now (history past now before) := by
  have hgrace : 0 < NOT_RESPONDING_GRACE := by decide
  have hcalls : history past now (before ++ [o]) = history past now before ++ [.observe now o] := by
    simp [history, Tick.observes]
  have hfollows := NotRespondingHold.follows (htime.timed (before ++ [o]))
  have hafter : NotRespondingHold.after (history past now (before ++ [o])) =
      ((NotRespondingHold.after (history past now before)).observe o now).1 := by
    rw [hcalls, NotRespondingHold.after, List.foldl_append]
    rfl
  rw [NotRespondingHold.observe_eq_true_iff, ← hafter, ← hfollows.hung, hcalls, HungSince,
    since_concat]
  constructor
  · rintro ⟨hhung, ⟨hsince, -⟩ | hstarts⟩
    · exact ⟨hhung, hsince⟩
    · -- the observation itself is not yet the grace period old
      obtain ⟨-, -, -, hle⟩ := NotRespondingHold.starts_observe_iff.mp hstarts
      omega
  · rintro ⟨hhung, hsince⟩
    exact ⟨hhung, Or.inl ⟨hsince, fun _ => ⟨rfl, hhung⟩⟩⟩

/-- The process was seen hung at every tick since one at least the grace period ago. -/
def SeenHungAtEveryTick (past : List Tick) (o : Observation) (now : ℕ) : Prop :=
  ∃ earlier tick later, past = earlier ++ tick :: later ∧
    tick.now + NOT_RESPONDING_GRACE ≤ now ∧ ∀ t ∈ tick :: later, o ∈ t.observations

/-- Ten seconds after it was seen hung a process is reported, also when nothing looked at it five
seconds after, as long as it owned a window then. -/
theorem unobserved_tick :
    let o : Observation := ⟨1, none, true⟩
    let past : List Tick := [⟨0, [o], {1}⟩, ⟨5000000000, [], {1}⟩]
    ((NotRespondingHold.after (history past 10000000000 [])).observe o 10000000000).2 = true ∧
      InTime past 10000000000 ∧ ¬ SeenHungAtEveryTick past o 10000000000 := by
  intro o past
  refine ⟨by decide +kernel, ⟨?_, ?_⟩, ?_⟩
  · simp [past]
  · simp [past]
  · rintro ⟨earlier, tick, later, hpast, -, hseen⟩
    have hlast : ⟨5000000000, [], {1}⟩ ∈ tick :: later := by
      have hne : tick :: later ≠ [] := List.cons_ne_nil _ _
      have hgetLast : past.getLast? = (tick :: later).getLast? := by
        rw [hpast, List.getLast?_append_of_ne_nil _ hne]
      exact List.mem_of_getLast? hgetLast.symm
    exact absurd (hseen _ hlast) List.not_mem_nil

theorem observe_iff_hungSince_unobserved :
    let o : Observation := ⟨1, none, true⟩
    let past : List Tick := [⟨0, [o], {1}⟩, ⟨5000000000, [], {1}⟩]
    ((NotRespondingHold.after (history past 10000000000 [])).observe o 10000000000).2 = true ↔
      o.hungNow = true ∧
        HungSince 1 none NOT_RESPONDING_GRACE 10000000000 (history past 10000000000 []) :=
  observe_iff_hungSince _ _ [] ⟨1, none, true⟩ ⟨by simp, by simp⟩

end Taskman.Sampler
