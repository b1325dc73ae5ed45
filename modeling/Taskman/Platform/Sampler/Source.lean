import Mathlib.Data.Nat.Basic

/-!
# Where per-process counters come from

The traces behind the network and disk columns need rights that the GUI does not have.  The
protected service hosts them and is asked once or more in a tick; a trace under the own token is the
fallback, started only when the service is absent and tried again after a while.

* `Source`, `Brokered` : the source in use, and what the service answers;
* `Outside` : everything that is answered from outside during one tick;
* `Source.poll` : the counters of one tick and the source for the next; the network and the disk
  columns differ in how they `probe` an undecided source.
-/

namespace Taskman.Sampler

/-- How long to wait before starting the local trace again after it failed, in ms. -/
abbrev NET_SOURCE_RETRY : ℕ := 30000

/-- Consecutive unreachable ticks until a working broker source is given up. -/
abbrev BROKER_MISS_TOLERANCE : ℕ := 3

/-- What the service answers: a sample, an explicit refusal, or nothing. -/
inductive Brokered (α : Type*) where
  | sample (sample : α)
  | rejected
  | unavailable

/-- Where the samples come from. -/
inductive Source where
  /-- Not probed yet, also after the UI stops asking. -/
  | undecided
  /-- The service answers; it was missed on so many consecutive ticks. -/
  | broker (misses : ℕ)
  /-- The own token runs the trace. -/
  | localTrace
  /-- Neither works, since then. -/
  | unavailable (since : ℕ)
  deriving DecidableEq

/-- What is answered from outside during one tick. -/
structure Outside (α β : Type*) where
  /-- Whether the UI wants the column. -/
  demanded : Bool
  now : ℕ
  /-- The answer of the service to the `n`-th call of the tick. -/
  ask : ℕ → Brokered α
  /-- Whether a local trace can be started. -/
  starts : Bool
  /-- Whether the local trace is still running, and what it then reports. -/
  running : Bool
  totals : β

/-- What a sample of the service says, where its own trace runs. -/
structure Samples (α β : Type*) where
  active : α → Bool
  convert : α → β

section

variable {α β : Type*} (kind : Samples α β)

/-- A sample in the form the sampler uses, if its trace runs. -/
def Samples.read (sample : α) : Option β :=
  if kind.active sample then some (kind.convert sample) else none

/-- A turn of the broker source.  A refusal is final, an unreachable service gets a few ticks. -/
def brokerTurn (misses now : ℕ) : Brokered α → Source × Option β
  | .sample sample => (.broker 0, kind.read sample)
  | .rejected => (.unavailable now, none)
  | .unavailable =>
    (if BROKER_MISS_TOLERANCE ≤ misses + 1 then .unavailable now else .broker (misses + 1), none)

/-- A turn of a source that was chosen, the service being asked for the `n`-th time. -/
def settledTurn (outside : Outside α β) (n : ℕ) : Source → Source × Option β
  | .broker misses => brokerTurn kind misses outside.now (outside.ask n)
  | .localTrace =>
    if outside.running then (.localTrace, some outside.totals) else (.unavailable outside.now, none)
  | source => (source, none)

/-- An undecided source is probed, and then has its turn unless the probe answered already. -/
def decideTurn (probe : Outside α β → ℕ → Source × Option β) (outside : Outside α β) (n : ℕ) :
    Source × Option β :=
  let (source, first) := probe outside n
  if first.isSome then (source, first) else settledTurn kind outside (n + 1) source

/-- The counters of one tick, `none` when the answer is genuinely unknown, and the source then. -/
def Source.poll (probe : Outside α β → ℕ → Source × Option β) (outside : Outside α β)
    (source : Source) : Source × Option β :=
  if !outside.demanded then (.undecided, none)
  else
    match source with
    | .unavailable since =>
      -- asking an absent service is cheap, so only the local trace is backed off
      match outside.ask 0 with
      | .sample sample => (.broker 0, kind.read sample)
      | .rejected => (.unavailable since, none)
      | .unavailable =>
        if outside.now - since < NET_SOURCE_RETRY then (.unavailable since, none)
        else decideTurn kind probe outside 1
    | .undecided => decideTurn kind probe outside 0
    | source => settledTurn kind outside 0 source

/-! ### Where the counters of a tick come from -/

/-- The counters are those of the local trace, or of an active sample of the service. -/
def Outside.Reports (outside : Outside α β) (answer : β) : Prop :=
  answer = outside.totals ∨
    ∃ n sample, outside.ask n = .sample sample ∧ kind.active sample = true ∧
      answer = kind.convert sample

variable {kind}

theorem Samples.reports_of_read {outside : Outside α β} {n : ℕ} {sample : α}
    (hask : outside.ask n = .sample sample) {answer : β} (h : kind.read sample = some answer) :
    outside.Reports kind answer := by
  obtain ⟨hactive, heq⟩ := Option.ite_none_right_eq_some.mp h
  exact Or.inr ⟨n, sample, hask, hactive, (Option.some.inj heq).symm⟩

theorem reports_of_settledTurn {outside : Outside α β} {n : ℕ} {source : Source} {answer : β}
    (h : (settledTurn kind outside n source).2 = some answer) : outside.Reports kind answer := by
  cases source with
  | undecided => cases h
  | unavailable since => cases h
  | localTrace =>
    simp only [settledTurn] at h
    split at h
    · exact Or.inl (Option.some.inj h).symm
    · cases h
  | broker misses =>
    simp only [settledTurn] at h
    cases hask : outside.ask n with
    | sample sample =>
      rw [hask] at h
      exact Samples.reports_of_read hask h
    | rejected =>
      rw [hask] at h
      cases h
    | unavailable =>
      rw [hask] at h
      cases h

/-- **A tick's counters come from the local trace or from an active sample of the service.** -/
theorem Source.reports_of_poll {probe : Outside α β → ℕ → Source × Option β}
    {outside : Outside α β}
    (hprobe : ∀ n answer, (probe outside n).2 = some answer → outside.Reports kind answer)
    {source : Source} {answer : β} (h : (source.poll kind probe outside).2 = some answer) :
    outside.demanded = true ∧ outside.Reports kind answer := by
  have hdecide : ∀ n, (decideTurn kind probe outside n).2 = some answer →
      outside.Reports kind answer := by
    intro n h
    dsimp only [decideTurn] at h
    split at h
    · exact hprobe n answer h
    · exact reports_of_settledTurn h
  unfold Source.poll at h
  cases hdemanded : outside.demanded with
  | false => simp [hdemanded] at h
  | true =>
    refine ⟨rfl, ?_⟩
    simp only [hdemanded, Bool.not_true, Bool.false_eq_true, if_false] at h
    cases source with
    | undecided => exact hdecide 0 h
    | broker misses => exact reports_of_settledTurn h
    | localTrace => exact reports_of_settledTurn h
    | unavailable since =>
      dsimp only at h
      cases hask : outside.ask 0 with
      | sample sample =>
        rw [hask] at h
        exact Samples.reports_of_read hask h
      | rejected =>
        rw [hask] at h
        cases h
      | unavailable =>
        rw [hask] at h
        dsimp only at h
        split at h
        · cases h
        · exact hdecide 1 h

end

end Taskman.Sampler
