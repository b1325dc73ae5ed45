import Mathlib.Algebra.BigOperators.Group.Finset.Basic
import Mathlib.Algebra.Order.BigOperators.Group.Finset
import Mathlib.Algebra.Order.SuccPred
import Mathlib.Data.Int.ConditionallyCompleteOrder
import Mathlib.Data.Int.SuccPred
import Mathlib.Data.Nat.SuccPred
import Mathlib.Tactic.IntervalCases

/-!
# The proleptic Gregorian calendar

The calendar of leap years and months, extended to all years, and the number of each day counted
from 1 January 1970.  Every integer is the number of exactly one date.

* `Gregorian.Date` : a year, a month and a day of it, with the proof that there is such a day;
* `Date.next`, `dayNumber_next` : the following day, whose number is one more;
* `dayNumber_injective` : **no two dates have one number**;
* `Date.ofDayNumber`, `dayNumber_ofDayNumber` : **the date of a day**, from the 400-year cycle it
  lies in.
-/

namespace Gregorian

/-! ### Years and months -/

/-- A year of 366 days. -/
def IsLeap (year : ℤ) : Prop := 4 ∣ year ∧ (100 ∣ year → 400 ∣ year)

instance (year : ℤ) : Decidable (IsLeap year) := inferInstanceAs (Decidable (_ ∧ (_ → _)))

/-- The day a leap year has more than others. -/
def leapDay (year : ℤ) : ℕ := if IsLeap year then 1 else 0

/-- How many days a month has. -/
def monthLength (year : ℤ) (month : ℕ) : ℕ :=
  match month with
  | 2 => 28 + leapDay year
  | 4 | 6 | 9 | 11 => 30
  | _ => 31

/-- How many days of a year come before a month. -/
def monthStart (year : ℤ) (month : ℕ) : ℕ :=
  ∑ i ∈ Finset.range (month - 1), monthLength year (i + 1)

/-- How many leap years there are from year 1 on, counted backwards where there are none. -/
def leapYears (year : ℤ) : ℤ := year / 4 - year / 100 + year / 400

/-- The number of the first day of a year. -/
def yearStart (year : ℤ) : ℤ := 365 * (year - 1970) + leapYears (year - 1) - leapYears 1969

theorem monthLength_pos (year : ℤ) (month : ℕ) : 0 < monthLength year month := by
  unfold monthLength
  split <;> omega

theorem monthStart_succ {year : ℤ} {month : ℕ} (h : 1 ≤ month) :
    monthStart year (month + 1) = monthStart year month + monthLength year month := by
  obtain ⟨m, rfl⟩ := Nat.exists_eq_add_of_le' h
  exact Finset.sum_range_succ _ m

theorem monotone_monthStart (year : ℤ) : Monotone (monthStart year) := by
  intro m m' h
  exact Finset.sum_le_sum_of_subset (Finset.range_mono (Nat.sub_le_sub_right h 1))

theorem leapYears_succ (year : ℤ) : leapYears (year + 1) = leapYears year + leapDay (year + 1) := by
  unfold leapYears
  by_cases h : IsLeap (year + 1)
  · rw [leapDay, if_pos h]
    unfold IsLeap at h
    push_cast
    omega
  · rw [leapDay, if_neg h]
    unfold IsLeap at h
    push_cast
    omega

theorem monthStart_eq (year : ℤ) (month : ℕ) (h : 1 ≤ month ∧ month ≤ 13) :
    monthStart year month = if month ≤ 2 then 31 * (month - 1)
      else 59 + leapDay year + (153 * (month - 3) + 2) / 5 := by
  obtain ⟨hlo, hhi⟩ := h
  interval_cases month <;>
    simp [monthStart, Finset.sum_range_succ, monthLength] <;> omega

theorem yearStart_succ (year : ℤ) : yearStart (year + 1) = yearStart year + monthStart year 13 := by
  have h := leapYears_succ (year - 1)
  rw [sub_add_cancel] at h
  rw [monthStart_eq year 13 (by decide), yearStart, yearStart, add_sub_cancel_right, h]
  push_cast
  omega

theorem monotone_yearStart : Monotone yearStart := by
  refine monotone_int_of_le_succ fun year => ?_
  rw [yearStart_succ]
  omega

/-! ### Dates -/

/-- A day of the calendar. -/
@[ext]
structure Date where
  year : ℤ
  month : ℕ
  day : ℕ
  month_mem : 1 ≤ month ∧ month ≤ 12
  day_mem : 1 ≤ day ∧ day ≤ monthLength year month

namespace Date

/-- The first day of 1970. -/
def epoch : Date := ⟨1970, 1, 1, by decide, by decide⟩

/-- The following day. -/
def next (d : Date) : Date :=
  if hday : d.day < monthLength d.year d.month then
    ⟨d.year, d.month, d.day + 1, d.month_mem, Nat.le_add_left 1 d.day, hday⟩
  else if hmonth : d.month < 12 then
    ⟨d.year, d.month + 1, 1, ⟨Nat.le_add_left 1 d.month, hmonth⟩, le_rfl, monthLength_pos _ _⟩
  else ⟨d.year + 1, 1, 1, by decide, le_rfl, monthLength_pos _ _⟩

/-- How many days of the year come before the date. -/
def dayOfYear (d : Date) : ℕ := monthStart d.year d.month + (d.day - 1)

/-- The number of a day, counted from the first day of 1970. -/
def dayNumber (d : Date) : ℤ := yearStart d.year + d.dayOfYear

theorem dayNumber_epoch : epoch.dayNumber = 0 := by decide

theorem dayOfYear_mem (d : Date) :
    monthStart d.year d.month ≤ d.dayOfYear ∧ d.dayOfYear < monthStart d.year (d.month + 1) := by
  have hday := d.day_mem
  rw [monthStart_succ d.month_mem.1, dayOfYear]
  omega

theorem dayNumber_mem (d : Date) :
    yearStart d.year ≤ d.dayNumber ∧ d.dayNumber < yearStart (d.year + 1) := by
  have hmonth : monthStart d.year (d.month + 1) ≤ monthStart d.year 13 :=
    monotone_monthStart d.year (Nat.succ_le_succ d.month_mem.2)
  have hday := d.dayOfYear_mem.2
  rw [yearStart_succ, dayNumber]
  omega

/-- **The number of the following day is one more.** -/
theorem dayNumber_next (d : Date) : d.next.dayNumber = d.dayNumber + 1 := by
  have hday := d.day_mem
  have hmonth := d.month_mem
  unfold next
  split_ifs with hlast hyear
  · simp only [dayNumber, dayOfYear]
    omega
  · simp only [dayNumber, dayOfYear, monthStart_succ hmonth.1]
    omega
  · have hdecember : d.month + 1 = 13 := by omega
    have hend : monthStart d.year 13 = monthStart d.year d.month + monthLength d.year d.month := by
      rw [← hdecember, monthStart_succ hmonth.1]
    have hstart : monthStart (d.year + 1) 1 = 0 := rfl
    simp only [dayNumber, dayOfYear, yearStart_succ, hstart, hend]
    omega

theorem eq_of_between {ι α : Type*} [LinearOrder ι] [Add ι] [One ι] [SuccAddOrder ι] [Preorder α]
    {f : ι → α} (hf : Monotone f) {a b : ι} {x : α} (ha : f a ≤ x ∧ x < f (a + 1))
    (hb : f b ≤ x ∧ x < f (b + 1)) : a = b := by
  rcases lt_trichotomy a b with hlt | heq | hgt
  · exact absurd ((hf (Order.add_one_le_of_lt hlt)).trans hb.1) ha.2.not_ge
  · exact heq
  · exact absurd ((hf (Order.add_one_le_of_lt hgt)).trans ha.1) hb.2.not_ge

/-- **No two dates have one number.** -/
theorem dayNumber_injective : Function.Injective dayNumber := by
  intro d d' h
  have hyear : d.year = d'.year :=
    eq_of_between monotone_yearStart d.dayNumber_mem (h ▸ d'.dayNumber_mem)
  have hdayOfYear : d.dayOfYear = d'.dayOfYear := by
    unfold dayNumber at h
    rw [hyear] at h
    omega
  have hmonth : d.month = d'.month :=
    eq_of_between (monotone_monthStart d.year) d.dayOfYear_mem
      (by rw [hyear, hdayOfYear]; exact d'.dayOfYear_mem)
  have hday : d.day = d'.day := by
    have hpos := d.day_mem.1
    have hpos' := d'.day_mem.1
    rw [dayOfYear, dayOfYear, hyear, hmonth] at hdayOfYear
    omega
  exact Date.ext hyear hmonth hday

end Date

/-! ### The date of a day

Years are counted from March, so that the leap day is their last.  The calendar repeats after 400
years, which are 146097 days; an era is such a cycle, and the first began on 1 March of year 0. -/

/-- The number of the first day of era 0, negated. -/
abbrev ERA_OFFSET : ℤ := 719468

/-- The year of an era on each of its days. -/
def yearOfEra (doe : ℤ) : ℤ := (doe - doe / 1460 + doe / 36524 - doe / 146096) / 365

/-- How many days of an era come before a year of it. -/
def eraYearStart (yoe : ℤ) : ℤ := 365 * yoe + yoe / 4 - yoe / 100

theorem yearOfEra_mem {doe : ℤ} (h : 0 ≤ doe ∧ doe < 146097) :
    0 ≤ yearOfEra doe ∧ yearOfEra doe < 400 := by
  unfold yearOfEra
  omega

/-- **The days of an era fall into its years**, all of 365 days but for those that end with a leap
day. -/
theorem eraYearStart_le {doe : ℤ} (h : 0 ≤ doe ∧ doe < 146097) :
    eraYearStart (yearOfEra doe) ≤ doe ∧
      doe < eraYearStart (yearOfEra doe) + 365 + leapDay (yearOfEra doe + 1) := by
  obtain ⟨century, hcentury⟩ : ∃ century, century = doe / 36524 := ⟨_, rfl⟩
  obtain ⟨cycle, hcycle⟩ : ∃ cycle, cycle = doe / 1460 := ⟨_, rfl⟩
  obtain ⟨yoe, hyoe⟩ : ∃ yoe, yoe = yearOfEra doe := ⟨_, rfl⟩
  rw [← hyoe]
  by_cases hlast : doe = 146096
  · subst hlast hyoe
    decide
  have hcenturies : century = 0 ∨ century = 1 ∨ century = 2 ∨ century = 3 := by omega
  have hyear : yoe = (doe - cycle + century) / 365 := by
    unfold yearOfEra at hyoe
    omega
  have hsame : yoe / 100 = century := by
    rcases hcenturies with h | h | h | h <;> subst h <;> omega
  have hcycles : cycle = yoe / 4 ∨ cycle = yoe / 4 + 1 := by
    rcases hcenturies with h | h | h | h <;> subst h <;> omega
  have hstart : eraYearStart yoe = 365 * yoe + yoe / 4 - century := by rw [eraYearStart, hsame]
  rw [hstart]
  constructor
  · rcases hcycles with h | h <;> subst h <;> rcases hcenturies with h | h | h | h <;> subst h <;>
      omega
  · by_cases hleap : IsLeap (yoe + 1)
    · rw [leapDay, if_pos hleap]
      rcases hcycles with h | h <;> subst h <;> rcases hcenturies with h | h | h | h <;> subst h <;>
        omega
    · rw [leapDay, if_neg hleap]
      unfold IsLeap at hleap
      rcases hcycles with h | h
      · subst h
        rcases hcenturies with h | h | h | h <;> subst h <;> omega
      · -- The fourth year of a cycle, which only the last year of a century may be here.
        have hfourth : yoe % 4 = 3 := by
          rcases hcenturies with h | h | h | h <;> subst h <;> omega
        have hcentury' : yoe % 100 = 99 := by omega
        rcases hcenturies with h | h | h | h <;> subst h <;> omega

/-- The month of a day of a year that begins in March, counted from March. -/
def marchMonth (doy : ℕ) : ℕ := (5 * doy + 2) / 153

/-- How many days of such a year come before a month of it. -/
def marchMonthStart (month : ℕ) : ℕ := (153 * month + 2) / 5

theorem marchMonth_lt {year : ℤ} {doy : ℕ} (h : doy < 365 + leapDay (year + 1)) :
    marchMonth doy < 12 := by
  unfold leapDay at h
  unfold marchMonth
  split at h <;> omega

/-- The days of a month are as many as the calendar has. -/
theorem marchMonth_mem {year : ℤ} {doy : ℕ} (h : doy < 365 + leapDay (year + 1)) :
    marchMonthStart (marchMonth doy) ≤ doy ∧
      doy < marchMonthStart (marchMonth doy) +
        monthLength (if marchMonth doy < 10 then year else year + 1)
          (if marchMonth doy < 10 then marchMonth doy + 3 else marchMonth doy - 9) := by
  have hmonth := marchMonth_lt h
  obtain ⟨month, hdef⟩ : ∃ month, month = marchMonth doy := ⟨_, rfl⟩
  rw [← hdef] at hmonth ⊢
  unfold marchMonth at hdef
  unfold marchMonthStart
  interval_cases month <;> simp [monthLength] <;> omega

namespace Date

/-- A day of a year that begins in March. -/
def ofMarch (year : ℤ) (doy : ℕ) (h : doy < 365 + leapDay (year + 1)) : Date where
  year := if marchMonth doy < 10 then year else year + 1
  month := if marchMonth doy < 10 then marchMonth doy + 3 else marchMonth doy - 9
  day := doy - marchMonthStart (marchMonth doy) + 1
  month_mem := by
    have hmonth := marchMonth_lt h
    split <;> omega
  day_mem := by
    obtain ⟨hstart, hend⟩ := marchMonth_mem h
    omega

theorem dayNumber_ofMarch {year : ℤ} {doy : ℕ} (h : doy < 365 + leapDay (year + 1)) :
    (ofMarch year doy h).dayNumber = 365 * year + leapYears year + doy - ERA_OFFSET := by
  have hmonth := marchMonth_lt h
  have hstart := (marchMonth_mem h).1
  have hleap := leapYears_succ (year - 1)
  rw [sub_add_cancel] at hleap
  have hconst : leapYears 1969 = 477 := by decide
  unfold dayNumber dayOfYear ofMarch
  dsimp only
  rw [monthStart_eq _ _ (by split <;> omega)]
  by_cases hspring : marchMonth doy < 10
  · rw [if_pos hspring, if_pos hspring, if_neg (by omega), yearStart, hconst, hleap]
    unfold marchMonthStart ERA_OFFSET at *
    push_cast
    omega
  · rw [if_neg hspring, if_neg hspring, if_pos (by omega), yearStart, hconst, add_sub_cancel_right]
    unfold marchMonthStart ERA_OFFSET at *
    have hlate : marchMonth doy = 10 ∨ marchMonth doy = 11 := by omega
    rcases hlate with h | h <;> rw [h] at hstart ⊢ <;> push_cast <;> omega

/-- The day of an era's year on each of its days. -/
theorem dayOfEraYear_lt {doe : ℤ} (h : 0 ≤ doe ∧ doe < 146097) (era : ℤ) :
    (doe - eraYearStart (yearOfEra doe)).toNat <
      365 + leapDay (yearOfEra doe + era * 400 + 1) := by
  have hperiod : leapDay (yearOfEra doe + era * 400 + 1) = leapDay (yearOfEra doe + 1) := by
    unfold leapDay IsLeap
    congr 1
    rw [eq_iff_iff]
    omega
  have hyear := eraYearStart_le h
  rw [hperiod]
  omega

theorem dayOfEra_mem (n : ℤ) :
    0 ≤ (n + ERA_OFFSET) % 146097 ∧ (n + ERA_OFFSET) % 146097 < 146097 :=
  ⟨Int.emod_nonneg _ (by decide), Int.emod_lt_of_pos _ (by decide)⟩

/-- The date of a day, from its era and its day of the era. -/
def ofDayNumber (n : ℤ) : Date :=
  ofMarch (yearOfEra ((n + ERA_OFFSET) % 146097) + (n + ERA_OFFSET) / 146097 * 400) _
    (dayOfEraYear_lt (dayOfEra_mem n) _)

/-- **Every integer is the number of a date.** -/
theorem dayNumber_ofDayNumber (n : ℤ) : (ofDayNumber n).dayNumber = n := by
  have hday := eraYearStart_le (dayOfEra_mem n)
  have hyear := yearOfEra_mem (dayOfEra_mem n)
  have hsplit := Int.emod_add_mul_ediv (n + ERA_OFFSET) 146097
  rw [ofDayNumber, dayNumber_ofMarch, Int.toNat_of_nonneg (by omega)]
  unfold eraYearStart leapYears at *
  omega

theorem ofDayNumber_dayNumber (d : Date) : ofDayNumber d.dayNumber = d :=
  dayNumber_injective (dayNumber_ofDayNumber d.dayNumber)

end Date

end Gregorian
