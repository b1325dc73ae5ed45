import Taskman.LTS.Machine
import Taskman.Numeric.Rounding
import Taskman.Platform.CpuLoad
import Taskman.Text.Decimal

/-!
# The pseudo-rows of the CPU column

Two rows stand for busy time that belongs to no process: interrupts, and processes that ended in
the window.  A row that falls under the threshold, or is not measured, is held for a few ticks.

* `updatePseudoRows` : the two slots after a tick, which are also the rows it shows;
* `PseudoRowHold.Held` : what a slot holds;
* `PseudoRowHold.NotTwice` : together the rows show at most the residual of the tick's sample;
* `PseudoRowHold.Split` : the interrupts that are shown are part of that residual, and what is left
  of it is not rounded up;
* `not_twice_iff` : **a run shows no busy time twice, exactly when each of its ticks is split.**
-/

namespace Taskman.Sampler

open CpuLoad (LoadSample ExitedImage)

/-- A share below this arms no row. -/
abbrev PSEUDO_ROW_MIN_PCT : ℚ := 1 / 2

/-- For how many ticks a row is shown after it was armed. -/
abbrev PSEUDO_ROW_HOLD_TICKS : ℕ := 5

/-- Held display state of one pseudo-row. -/
structure HeldPseudoRow where
  pct : ℚ
  /-- The exited images, empty for interrupts. -/
  detail : Text
  /-- The number of exited processes, zero for interrupts. -/
  count : ℕ
  ticksLeft : ℕ

/-- The two rows that stay for a while. -/
structure PseudoRowHold where
  interrupts : Option HeldPseudoRow := none
  terminated : Option HeldPseudoRow := none

/-- A row that is not measured stays for one tick less. -/
def decayPseudo (slot : Option HeldPseudoRow) : Option HeldPseudoRow :=
  slot.bind fun held =>
    let ticksLeft := held.ticksLeft - 1
    if ticksLeft = 0 then none else some { held with ticksLeft }

/-- What one tick measures: the load sample, if there is one, and the fallback counter. -/
structure PseudoTick where
  load : Option LoadSample
  pdhInterrupts : Option ℚ

/-- The interrupt share of a tick: that of the sample's own window where the sample has one. -/
def PseudoTick.interruptMeas (t : PseudoTick) : Option ℚ :=
  (t.load.bind LoadSample.interruptPct).or t.pdhInterrupts

/-- A measured share is authoritative; only an unknown one lets the held row decay. -/
def refreshInterrupts (slot : Option HeldPseudoRow) : Option ℚ → Option HeldPseudoRow
  | some v =>
    if PSEUDO_ROW_MIN_PCT ≤ v then
      some { pct := v, detail := [], count := 0, ticksLeft := PSEUDO_ROW_HOLD_TICKS }
    else none
  | none => decayPseudo slot

/-- The exited images as the row names them. -/
def exitedDetail (images : List ExitedImage) : Text :=
  ", ".toList.intercalate (images.map fun e => e.name ++ " ×".toList ++ Text.digits e.count)

/-- The residual of a sample without its measured interrupts, an `f32`. -/
def terminatedPct (l : LoadSample) (interruptMeas : Option ℚ) : ℚ :=
  max (binary32.round (l.unattributedPct - interruptMeas.getD 0)) 0

/-- The row of the processes that have ended, measured anew or held. -/
def refreshTerminated (slot : Option HeldPseudoRow) (interruptMeas : Option ℚ) :
    Option LoadSample → Option HeldPseudoRow
  | some l =>
    let current : HeldPseudoRow :=
      { pct := terminatedPct l interruptMeas, detail := exitedDetail l.exitedImages
        count := l.exitedCount, ticksLeft := PSEUDO_ROW_HOLD_TICKS }
    if PSEUDO_ROW_MIN_PCT ≤ current.pct then some current
    -- still held: keep the row, but with what was measured
    else (decayPseudo slot).map fun held => { current with ticksLeft := held.ticksLeft }
  | none => decayPseudo slot

/-- The slots after a tick; they are the rows to display. -/
def updatePseudoRows (s : PseudoRowHold) (t : PseudoTick) : PseudoRowHold where
  interrupts := refreshInterrupts s.interrupts t.interruptMeas
  terminated := refreshTerminated s.terminated t.interruptMeas t.load

/-- A tick as a step of a run. -/
def pseudoStep (s : PseudoRowHold) (t : PseudoTick) : Option PseudoRowHold :=
  some (updatePseudoRows s t)

/-- The share that a slot shows. -/
def shownPct (slot : Option HeldPseudoRow) : ℚ := slot.elim 0 HeldPseudoRow.pct

/-- A share is an `f32` that is not negative. -/
structure IsShare (v : ℚ) : Prop where
  nonneg : 0 ≤ v
  representable : binary32.Representable v

/-- The shares of a tick are shares. -/
structure PseudoTick.Shares (t : PseudoTick) : Prop where
  unattributed : ∀ l, t.load = some l → IsShare l.unattributedPct
  interrupts : ∀ l, t.load = some l → ∀ v, l.interruptPct = some v → IsShare v
  pdh : ∀ v, t.pdhInterrupts = some v → IsShare v

/-- **Busy time is not shown twice**: the two rows of a tick with a sample add up to at most its
unattributed share, or the interrupts that it measured if they are more. -/
def PseudoRowHold.NotTwice (s : PseudoRowHold) (t : PseudoTick) : Prop :=
  ∀ l, t.load = some l →
    shownPct (updatePseudoRows s t).interrupts + shownPct (updatePseudoRows s t).terminated ≤
      max l.unattributedPct (l.interruptPct.getD 0)

/-- At a tick with a sample, interrupts that arm a row are part of the unattributed share unless the
sample measured them itself, and the rest of that share is not rounded up; where they are unknown,
no interrupts row is held beyond the tick. -/
def PseudoRowHold.Split (s : PseudoRowHold) (t : PseudoTick) : Prop :=
  ∀ l, t.load = some l →
    match t.interruptMeas with
    | some v => PSEUDO_ROW_MIN_PCT ≤ v →
        (l.interruptPct = none → v ≤ l.unattributedPct) ∧
          (v < l.unattributedPct →
            binary32.round (l.unattributedPct - v) ≤ l.unattributedPct - v)
    | none => ∀ held, s.interrupts = some held → held.ticksLeft ≤ 1

/-! ### What a slot holds -/

/-- A held row was armed by a share over the threshold, and is held for some ticks to come. -/
structure PseudoRowHold.Held (s : PseudoRowHold) : Prop where
  armed : ∀ held, s.interrupts = some held → PSEUDO_ROW_MIN_PCT ≤ held.pct
  counting : ∀ held, s.interrupts = some held ∨ s.terminated = some held →
    0 < held.ticksLeft ∧ held.ticksLeft ≤ PSEUDO_ROW_HOLD_TICKS

theorem decayPseudo_eq_some {slot : Option HeldPseudoRow} {held : HeldPseudoRow} :
    decayPseudo slot = some held ↔
      ∃ before, slot = some before ∧ 1 < before.ticksLeft ∧
        held = { before with ticksLeft := before.ticksLeft - 1 } := by
  rw [decayPseudo, Option.bind_eq_some_iff]
  refine exists_congr fun before => and_congr_right fun _ => ?_
  dsimp only
  split
  · constructor
    · rintro ⟨⟩
    · rintro ⟨hmore, -⟩
      omega
  · constructor
    · intro h
      exact ⟨by omega, (Option.some.inj h).symm⟩
    · rintro ⟨-, rfl⟩
      rfl

theorem decayPseudo_eq_none {slot : Option HeldPseudoRow} :
    decayPseudo slot = none ↔ ∀ held, slot = some held → held.ticksLeft ≤ 1 := by
  cases slot with
  | none => simp [decayPseudo]
  | some held =>
    rw [decayPseudo, Option.bind_some]
    dsimp only
    split
    · simp
      omega
    · simp
      omega

/-- What decays goes on counting down. -/
theorem counting_decayPseudo {slot : Option HeldPseudoRow} {held : HeldPseudoRow}
    (hslot : ∀ before, slot = some before → before.ticksLeft ≤ PSEUDO_ROW_HOLD_TICKS)
    (h : decayPseudo slot = some held) :
    0 < held.ticksLeft ∧ held.ticksLeft ≤ PSEUDO_ROW_HOLD_TICKS := by
  obtain ⟨before, hbefore, hmore, rfl⟩ := decayPseudo_eq_some.mp h
  have hle := hslot before hbefore
  dsimp only
  omega

/-- An interrupts row decays, or was armed in this tick. -/
theorem refreshInterrupts_cases {slot : Option HeldPseudoRow} {interruptMeas : Option ℚ}
    {held : HeldPseudoRow} (h : refreshInterrupts slot interruptMeas = some held) :
    decayPseudo slot = some held ∨
      PSEUDO_ROW_MIN_PCT ≤ held.pct ∧ held.ticksLeft = PSEUDO_ROW_HOLD_TICKS := by
  cases interruptMeas with
  | none => exact Or.inl h
  | some v =>
    rw [refreshInterrupts] at h
    split at h
    · rename_i harmed
      rw [← Option.some.inj h]
      exact Or.inr ⟨harmed, rfl⟩
    · cases h

/-- A terminated row counts down, or was armed in this tick. -/
theorem refreshTerminated_cases {slot : Option HeldPseudoRow} {interruptMeas : Option ℚ}
    {load : Option LoadSample} {held : HeldPseudoRow}
    (h : refreshTerminated slot interruptMeas load = some held) :
    (∃ before, decayPseudo slot = some before ∧ held.ticksLeft = before.ticksLeft) ∨
      held.ticksLeft = PSEUDO_ROW_HOLD_TICKS := by
  cases load with
  | none => exact Or.inl ⟨held, h, rfl⟩
  | some l =>
    rw [refreshTerminated] at h
    dsimp only at h
    split at h
    · rw [← Option.some.inj h]
      exact Or.inr rfl
    · obtain ⟨before, hbefore, rfl⟩ := Option.map_eq_some_iff.mp h
      exact Or.inl ⟨before, hbefore, rfl⟩

/-- A tick keeps what the slots hold. -/
theorem PseudoRowHold.Held.update {s : PseudoRowHold} (hs : s.Held) (t : PseudoTick) :
    (updatePseudoRows s t).Held := by
  refine ⟨fun held hheld => ?_, fun held hheld => ?_⟩
  · rcases refreshInterrupts_cases hheld with hdecay | ⟨harmed, -⟩
    · obtain ⟨before, hbefore, -, rfl⟩ := decayPseudo_eq_some.mp hdecay
      exact hs.armed before hbefore
    · exact harmed
  · rcases hheld with hheld | hheld
    · rcases refreshInterrupts_cases hheld with hdecay | ⟨-, hfull⟩
      · exact counting_decayPseudo (fun before h => (hs.counting before (Or.inl h)).2) hdecay
      · rw [hfull]
        decide
    · rcases refreshTerminated_cases hheld with ⟨before, hdecay, hsame⟩ | hfull
      · rw [hsame]
        exact counting_decayPseudo (fun before h => (hs.counting before (Or.inr h)).2) hdecay
      · rw [hfull]
        decide

/-! ### What the rows show -/

/-- With a sample, the terminated row shows the current residual, or is gone and the residual is
below the threshold. -/
theorem shownPct_refreshTerminated (slot : Option HeldPseudoRow) (interruptMeas : Option ℚ)
    (l : LoadSample) :
    shownPct (refreshTerminated slot interruptMeas (some l)) = terminatedPct l interruptMeas ∨
      shownPct (refreshTerminated slot interruptMeas (some l)) = 0 ∧
        terminatedPct l interruptMeas < PSEUDO_ROW_MIN_PCT := by
  rw [refreshTerminated]
  dsimp only
  split
  · exact Or.inl rfl
  · rename_i hbelow
    cases decayPseudo slot with
    | none => exact Or.inr ⟨rfl, not_le.mp hbelow⟩
    | some held => exact Or.inl rfl

theorem PseudoTick.Shares.interruptMeas {t : PseudoTick} (ht : t.Shares) {v : ℚ}
    (h : t.interruptMeas = some v) : IsShare v := by
  rcases Option.or_eq_some_iff.mp h with hown | ⟨-, hpdh⟩
  · obtain ⟨l, hl, hv⟩ := Option.bind_eq_some_iff.mp hown
    exact ht.interrupts l hl v hv
  · exact ht.pdh v hpdh

theorem PseudoTick.interruptMeas_of_own {t : PseudoTick} {l : LoadSample} {own : ℚ}
    (hload : t.load = some l) (hown : l.interruptPct = some own) :
    t.interruptMeas = some own := by
  rw [PseudoTick.interruptMeas, hload, Option.bind_some, hown, Option.some_or]

theorem terminatedPct_none {l : LoadSample} (hl : IsShare l.unattributedPct) :
    terminatedPct l none = l.unattributedPct := by
  rw [terminatedPct, Option.getD_none, sub_zero,
    BinaryFormat.round_of_representable hl.representable, max_eq_left hl.nonneg]

theorem terminatedPct_le {l : LoadSample} (hl : IsShare l.unattributedPct) {v : ℚ}
    (hv : IsShare v) : terminatedPct l (some v) ≤ l.unattributedPct := by
  have hle : l.unattributedPct - v ≤ l.unattributedPct := sub_le_self _ hv.nonneg
  exact max_le (BinaryFormat.round_le_of_le hl.representable hl.nonneg hle) hl.nonneg

theorem terminatedPct_of_le {l : LoadSample} {v : ℚ} (h : l.unattributedPct ≤ v) :
    terminatedPct l (some v) = 0 :=
  max_eq_right (BinaryFormat.round_nonpos (sub_nonpos.mpr h))

/-- A residual below the threshold beside interrupts over it is exact. -/
theorem round_residual_of_lt {l : LoadSample} (hl : IsShare l.unattributedPct) {v : ℚ}
    (hv : IsShare v) (harmed : PSEUDO_ROW_MIN_PCT ≤ v) (hlt : v < l.unattributedPct)
    (hbelow : terminatedPct l (some v) < PSEUDO_ROW_MIN_PCT) :
    binary32.round (l.unattributedPct - v) = l.unattributedPct - v := by
  have hmin : binary32.Representable PSEUDO_ROW_MIN_PCT :=
    ⟨1, -1, by decide, by decide, by norm_num⟩
  have hround : binary32.round (l.unattributedPct - v) < PSEUDO_ROW_MIN_PCT :=
    (le_max_left _ _).trans_lt hbelow
  have hsmall : l.unattributedPct - v < PSEUDO_ROW_MIN_PCT := by
    by_contra hge
    have hmono := BinaryFormat.round_mono (F := binary32) (by norm_num) (not_lt.mp hge)
    rw [BinaryFormat.round_of_representable hmin] at hmono
    exact absurd hround hmono.not_gt
  exact BinaryFormat.round_of_representable
    (hv.representable.sub hl.representable hlt.le (by linarith))

/-- A tick without interrupts shows its unattributed share once, exactly when no interrupts row is
held beyond it. -/
theorem PseudoRowHold.Held.unmeasured_iff {s : PseudoRowHold} (hs : s.Held) {l : LoadSample}
    (hl : IsShare l.unattributedPct) :
    shownPct (refreshInterrupts s.interrupts none) +
        shownPct (refreshTerminated s.terminated none (some l)) ≤ l.unattributedPct ↔
      ∀ held, s.interrupts = some held → held.ticksLeft ≤ 1 := by
  have hterm := shownPct_refreshTerminated s.terminated none l
  rw [terminatedPct_none hl] at hterm
  rw [← decayPseudo_eq_none]
  constructor
  · intro hbound
    cases hdecay : decayPseudo s.interrupts with
    | none => rfl
    | some held =>
      -- a row that is still held shows more than what is left for it
      obtain ⟨before, hbefore, -, hheld⟩ := decayPseudo_eq_some.mp hdecay
      have harmed : PSEUDO_ROW_MIN_PCT ≤ before.pct := hs.armed before hbefore
      have hpct : shownPct (refreshInterrupts s.interrupts none) = before.pct := by
        rw [refreshInterrupts, hdecay, hheld]
        rfl
      rw [hpct] at hbound
      rcases hterm with hshown | ⟨hshown, hbelow⟩
      · rw [hshown] at hbound
        norm_num at harmed
        linarith
      · rw [hshown] at hbound
        linarith
  · intro hnone
    have hpct : shownPct (refreshInterrupts s.interrupts none) = 0 := by
      rw [refreshInterrupts, hnone]
      rfl
    rw [hpct, zero_add]
    rcases hterm with hshown | ⟨hshown, -⟩
    · exact hshown.le
    · rw [hshown]
      exact hl.nonneg

/-- A tick whose interrupts arm a row shows them and what is left, exactly when both fit. -/
theorem armed_iff {slot : Option HeldPseudoRow} {l : LoadSample} (hl : IsShare l.unattributedPct)
    {v : ℚ} (hv : IsShare v) (harmed : PSEUDO_ROW_MIN_PCT ≤ v) (own : Option ℚ)
    (hown : own = some v ∨ own = none) :
    v + shownPct (refreshTerminated slot (some v) (some l)) ≤
        max l.unattributedPct (own.getD 0) ↔
      (own = none → v ≤ l.unattributedPct) ∧
        (v < l.unattributedPct →
          binary32.round (l.unattributedPct - v) ≤ l.unattributedPct - v) := by
  have hterm := shownPct_refreshTerminated slot (some v) l
  rcases le_or_gt l.unattributedPct v with hle | hlt
  · -- nothing is left
    have hnothing : shownPct (refreshTerminated slot (some v) (some l)) = 0 := by
      rw [terminatedPct_of_le hle] at hterm
      rcases hterm with hshown | ⟨hshown, -⟩
      · exact hshown
      · exact hshown
    rw [hnothing, add_zero]
    rcases hown with rfl | rfl
    · simp [hle.not_gt]
    · rw [Option.getD_none, max_eq_left hl.nonneg]
      simp [hle.not_gt]
  · have hbound : max l.unattributedPct (own.getD 0) = l.unattributedPct := by
      rcases hown with rfl | rfl
      · exact max_eq_left hlt.le
      · exact max_eq_left hl.nonneg
    have hresidual : terminatedPct l (some v) = binary32.round (l.unattributedPct - v) :=
      max_eq_left (BinaryFormat.round_nonneg (sub_nonneg.mpr hlt.le))
    rw [hbound, and_iff_right (fun _ => hlt.le : own = none → v ≤ l.unattributedPct)]
    rcases hterm with hshown | ⟨hshown, hbelow⟩
    · rw [hshown, hresidual]
      constructor
      · intro h _
        linarith
      · intro h
        linarith [h hlt]
    · rw [hshown, add_zero]
      exact iff_of_true hlt.le fun _ => (round_residual_of_lt hl hv harmed hlt hbelow).le

/-- **One tick**: it shows no busy time twice exactly when it is split. -/
theorem PseudoRowHold.Held.notTwice_iff {s : PseudoRowHold} (hs : s.Held) {t : PseudoTick}
    (ht : t.Shares) : s.NotTwice t ↔ s.Split t := by
  refine forall₂_congr fun l hload => ?_
  have hl := ht.unattributed l hload
  have hown : ∀ own, l.interruptPct = some own → t.interruptMeas = some own :=
    fun own => t.interruptMeas_of_own hload
  unfold updatePseudoRows
  rw [hload]
  cases hmeas : t.interruptMeas with
  | none =>
    have hunknown : l.interruptPct = none := by
      cases hpct : l.interruptPct with
      | none => rfl
      | some own => exact absurd ((hown own hpct).symm.trans hmeas) (Option.some_ne_none own)
    rw [hunknown, Option.getD_none, max_eq_left hl.nonneg]
    exact hs.unmeasured_iff hl
  | some v =>
    have hv := ht.interruptMeas hmeas
    have hsource : l.interruptPct = some v ∨ l.interruptPct = none := by
      cases hpct : l.interruptPct with
      | none => exact Or.inr rfl
      | some own =>
        exact Or.inl (congrArg some (Option.some.inj ((hown own hpct).symm.trans hmeas)))
    dsimp only
    by_cases harmed : PSEUDO_ROW_MIN_PCT ≤ v
    · have hpct : shownPct (refreshInterrupts s.interrupts (some v)) = v := by
        rw [refreshInterrupts, if_pos harmed]
        rfl
      rw [hpct, armed_iff hl hv harmed l.interruptPct hsource]
      exact ⟨fun h _ => h, fun h => h harmed⟩
    · have hpct : shownPct (refreshInterrupts s.interrupts (some v)) = 0 := by
        rw [refreshInterrupts, if_neg harmed]
        rfl
      refine iff_of_true ?_ fun h => absurd h harmed
      rw [hpct, zero_add]
      refine le_max_of_le_left ?_
      rcases shownPct_refreshTerminated s.terminated (some v) l with hshown | ⟨hshown, -⟩
      · rw [hshown]
        exact terminatedPct_le hl hv
      · rw [hshown]
        exact hl.nonneg

/-- **A run shows no busy time twice, exactly when each of its ticks is split.** -/
theorem not_twice_iff (ticks : List PseudoTick) (h : ∀ t ∈ ticks, t.Shares) :
    Machine.Along pseudoStep PseudoRowHold.NotTwice {} ticks ↔
      Machine.Along pseudoStep PseudoRowHold.Split {} ticks := by
  have hinit : ({} : PseudoRowHold).Held := by
    refine ⟨fun held hheld => ?_, fun held hheld => ?_⟩
    · cases hheld
    · rcases hheld with hheld | hheld
      · cases hheld
      · cases hheld
  refine Machine.along_iff_of_invariant (I := PseudoRowHold.Held) ?_ ?_ hinit h
  · intro s t s' hs _ hstep
    obtain rfl := Option.some.inj hstep
    exact hs.update t
  · intro s t hs ht
    exact hs.notTwice_iff ht

/-- A sample of which only the two shares matter. -/
def shareSample (unattributed : ℕ) (interrupts : Option ℕ) : LoadSample where
  globalPct := 0
  perCorePct := []
  perCoreKernelPct := []
  globalKernelPct := 0
  procs := ∅
  unattributedPct := unattributed
  interruptPct := interrupts.map Nat.cast
  exitedCount := 0
  exitedImages := []

theorem isShare_natCast {n : ℕ} (h : n ≤ 100) : IsShare n where
  nonneg := n.cast_nonneg
  representable := BinaryFormat.representable_intCast (F := binary32) (by decide) (n := n) (by
    rw [Nat.abs_cast]
    exact_mod_cast h.trans (by norm_num [binary32]))

theorem shares_shareSample {unattributed : ℕ} (hunattributed : unattributed ≤ 100)
    {interrupts : Option ℕ} (hinterrupts : ∀ n, interrupts = some n → n ≤ 100) :
    (⟨some (shareSample unattributed interrupts), none⟩ : PseudoTick).Shares where
  unattributed l hl := by
    obtain rfl := Option.some.inj hl
    exact isShare_natCast hunattributed
  interrupts l hl v hv := by
    obtain rfl := Option.some.inj hl
    obtain ⟨n, hn, rfl⟩ := Option.map_eq_some_iff.mp hv
    exact isShare_natCast (hinterrupts n hn)
  pdh v hv := by cases hv

/-- Interrupts are measured, fall below the threshold and are unknown from then on. -/
theorem not_twice_iff_example :
    Machine.Along pseudoStep PseudoRowHold.NotTwice {}
      [⟨some (shareSample 12 (some 5)), none⟩, ⟨some (shareSample 12 (some 0)), none⟩,
        ⟨some (shareSample 12 none), none⟩] := by
  refine (not_twice_iff _ ?_).mpr ⟨?_, fun s₁ h₁ => ⟨?_, fun s₂ h₂ => ⟨?_, fun _ _ => trivial⟩⟩⟩
  · intro t ht
    simp only [List.mem_cons, List.not_mem_nil, or_false] at ht
    rcases ht with rfl | rfl | rfl
    · exact shares_shareSample (by decide) (by simp)
    · exact shares_shareSample (by decide) (by simp)
    · exact shares_shareSample (by decide) (by simp)
  · -- 7 % are left, a whole number
    rintro l ⟨⟩ -
    refine ⟨fun h => (by cases h), fun _ => ?_⟩
    have hrest : (shareSample 12 (some 5)).unattributedPct - ((5 : ℕ) : ℚ) = (7 : ℕ) := by
      norm_num [shareSample]
    rw [hrest, BinaryFormat.round_of_representable (isShare_natCast (by decide)).representable]
  · rintro l ⟨⟩ harmed
    norm_num at harmed
  · -- the measured share has emptied the slot
    obtain rfl := Option.some.inj h₂
    have hempty : refreshInterrupts s₁.interrupts (some ((0 : ℕ) : ℚ)) = none :=
      if_neg (by norm_num)
    rintro l ⟨⟩ held hheld
    exact absurd (hempty.symm.trans hheld) (Option.some_ne_none held).symm

/-- Interrupts of 7 % are measured; then neither the sample nor the fallback knows them, and the
residual of 12 % is shown whole next to the held 7 %. -/
theorem held_interrupts_shown_twice :
    let ticks : List PseudoTick :=
      [⟨some (shareSample 12 (some 7)), none⟩, ⟨some (shareSample 12 none), none⟩]
    (∀ t ∈ ticks, t.Shares) ∧ ¬Machine.Along pseudoStep PseudoRowHold.NotTwice {} ticks := by
  refine ⟨fun t ht => ?_, fun h => ?_⟩
  · simp only [List.mem_cons, List.not_mem_nil, or_false] at ht
    rcases ht with rfl | rfl
    · exact shares_shareSample (by decide) (by simp)
    · exact shares_shareSample (by decide) (by simp)
  · have hsecond := (h.2 _ rfl).1 (shareSample 12 none) rfl
    exact absurd hsecond (by decide +kernel)

theorem fallback_interrupts_shown_whole :
    ¬PseudoRowHold.NotTwice {} ⟨some (shareSample 5 none), some 30⟩ := by
  intro h
  exact absurd (h (shareSample 5 none) rfl) (by decide +kernel)

end Taskman.Sampler
