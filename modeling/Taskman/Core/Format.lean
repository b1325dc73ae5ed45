import Taskman.Binary.Checked
import Taskman.Numeric.Gregorian
import Taskman.Text.Decimal

/-!
# Calendar dates

The date of an instant is printed without a calendar library: the day is split into the 400-year
era it lies in and the year, month and day of it, with years that begin in March.

* `formatDateIn` : the printed date of an epoch second, every operation checked for overflow;
* `layout_inj` : what is printed tells the year, the month and the day;
* `formatDateIn_eq` : **no operation overflows, and the month and the day are those of the
  calendar; the year is the one that began in March**;
* `printsDate_iff` : so the date is right exactly from March to December.
-/

namespace Taskman

open Text

/-! ### Printing -/

/-- The order of day, month and year. -/
inductive DateOrder where
  | dmy
  | mdy
  | ymd

/-- How dates are written. -/
structure LocaleFmt where
  dateOrder : DateOrder
  /-- The language tag the layout came from, such as `de-DE`. -/
  langTag : Text

/-- How the tag of German begins. -/
def LANG_DE : Text := "de".toList

/-- `{n}` of a signed number. -/
def showInt (n : ℤ) : Text := if n < 0 then '-' :: digits n.natAbs else digits n.natAbs

/-- `{n:02}` of a signed number; the sign counts as one of the characters. -/
def showInt02 (n : ℤ) : Text :=
  if n < 0 then '-' :: paddedDigits 1 n.natAbs else paddedDigits 2 n.natAbs

/-- What stands between the numbers of a date. -/
def separator (loc : LocaleFmt) : Char :=
  match loc.dateOrder with
  | .dmy => if LANG_DE.isPrefixOf loc.langTag then '.' else '/'
  | .ymd => '-'
  | .mdy => '/'

/-- A year, a month and a day in the layout of a locale. -/
def layout (loc : LocaleFmt) (y mo d : ℤ) : Text :=
  match loc.dateOrder with
  | .dmy => showInt02 d ++ separator loc :: (showInt02 mo ++ separator loc :: showInt y)
  | .mdy => showInt mo ++ '/' :: (showInt d ++ '/' :: showInt y)
  | .ymd => showInt y ++ separator loc :: (showInt02 mo ++ separator loc :: showInt02 d)

/-- The result of an operation on `i64`. -/
def i64 (n : ℤ) : Checked Empty ℤ := Checked.int 64 n

/-- The month of the calendar, from the month counted from March. -/
def calendarMonth (mp : ℤ) : Checked Empty ℤ := if mp < 10 then i64 (mp + 3) else i64 (mp - 9)

/-- The printed date of an epoch second. -/
def formatDateIn (epochS : ℤ) (loc : LocaleFmt) : Checked Empty Text := do
  let days := epochS / 86400
  let z ← i64 (days + 719468)
  let era := z / 146097
  let doe := z % 146097
  let a ← i64 (doe - doe.tdiv 1460)
  let b ← i64 (a + doe.tdiv 36524)
  let c ← i64 (b - doe.tdiv 146096)
  let yoe := c.tdiv 365
  let s ← i64 (365 * yoe)
  let t ← i64 (s + yoe.tdiv 4)
  let u ← i64 (t - yoe.tdiv 100)
  let doy ← i64 (doe - u)
  let m ← i64 (5 * doy)
  let n ← i64 (m + 2)
  let mp := n.tdiv 153
  let p ← i64 (153 * mp)
  let q ← i64 (p + 2)
  let r ← i64 (doy - q.tdiv 5)
  let d ← i64 (r + 1)
  let mo ← calendarMonth mp
  let v ← i64 (era * 400)
  let y ← i64 (yoe + v)
  pure (layout loc y mo d)

/-! ### What is printed tells the date -/

theorem showInt_injective : Function.Injective showInt := by
  have hminus : ∀ n : ℕ, '-' ∉ digits n := fun n h => absurd (isDigit_of_mem_digits h) (by decide)
  intro m n h
  unfold showInt at h
  split at h <;> split at h
  · have := digits_injective (List.cons.inj h).2
    omega
  · exact absurd (h ▸ List.mem_cons_self) (hminus _)
  · exact absurd (h ▸ List.mem_cons_self) (hminus _)
  · have := digits_injective h
    omega

theorem showInt02_natCast (n : ℕ) : showInt02 n = paddedDigits 2 n := by
  rw [showInt02, if_neg (by omega), Int.natAbs_natCast]

theorem length_showInt02 {n : ℕ} (h : n < 100) : (showInt02 n).length = 2 := by
  rw [showInt02_natCast]
  exact length_paddedDigits (by decide) h

theorem showInt02_inj {m n : ℕ} (h : showInt02 m = showInt02 n) : m = n := by
  simpa [showInt02_natCast] using congrArg digitsValue h

/-- A number of digits in front of a slash can be told from what follows it. -/
theorem showInt_slash_inj {m n : ℕ} {s t : Text}
    (h : showInt m ++ '/' :: s = showInt n ++ '/' :: t) : m = n ∧ s = t := by
  have hshow : ∀ n : ℕ, showInt n = digits n := fun n => by
    rw [showInt, if_neg (by omega), Int.natAbs_natCast]
  have hspan : ∀ (n : ℕ) (t : Text), spanDigits (digits n ++ '/' :: t) = (digits n, '/' :: t) := by
    intro n t
    refine spanDigits_append (fun c => isDigit_of_mem_digits) ?_
    rintro c ⟨⟩
    rfl
  rw [hshow, hshow] at h
  have hpair := congrArg spanDigits h
  rw [hspan, hspan] at hpair
  obtain ⟨hdigits, hrest⟩ := Prod.mk.inj hpair
  exact ⟨digits_injective hdigits, (List.cons.inj hrest).2⟩

/-- **A layout tells the year, the month and the day**, where these have at most two digits. -/
theorem layout_inj {loc : LocaleFmt} {y y' : ℤ} {mo mo' d d' : ℕ} (hmo : mo < 100 ∧ mo' < 100)
    (hd : d < 100 ∧ d' < 100) (h : layout loc y mo d = layout loc y' mo' d') :
    y = y' ∧ mo = mo' ∧ d = d' := by
  have hlenmo : (showInt02 mo).length = (showInt02 mo').length := by
    rw [length_showInt02 hmo.1, length_showInt02 hmo.2]
  have hlend : (showInt02 d).length = (showInt02 d').length := by
    rw [length_showInt02 hd.1, length_showInt02 hd.2]
  unfold layout at h
  split at h
  · obtain ⟨hday, hrest⟩ := List.append_inj h hlend
    obtain ⟨hmonth, hrest⟩ := List.append_inj (List.cons.inj hrest).2 hlenmo
    exact ⟨showInt_injective (List.cons.inj hrest).2, showInt02_inj hmonth, showInt02_inj hday⟩
  · obtain ⟨hmonth, hrest⟩ := showInt_slash_inj h
    obtain ⟨hday, hyear⟩ := showInt_slash_inj hrest
    exact ⟨showInt_injective hyear, hmonth, hday⟩
  · obtain ⟨hyear, hrest⟩ := List.append_inj' h (by simp [hlenmo, hlend])
    obtain ⟨hmonth, hday⟩ := List.append_inj (List.cons.inj hrest).2 hlenmo
    exact ⟨showInt_injective hyear, showInt02_inj hmonth, showInt02_inj (List.cons.inj hday).2⟩

/-! ### The printed date -/

theorem i64_bind {n : ℤ} (hlo : -2 ^ 63 ≤ n) (hhi : n < 2 ^ 63) (f : ℤ → Checked Empty Text) :
    (i64 n >>= f) = f n := by
  rw [i64, Checked.int_ok hlo hhi, Checked.bind_ok]

theorem calendarMonth_bind {mp : ℕ} (h : mp < 12) (f : ℤ → Checked Empty Text) :
    (calendarMonth mp >>= f) = f (if mp < 10 then mp + 3 else mp - 9 : ℕ) := by
  unfold calendarMonth
  by_cases hspring : mp < 10
  · rw [if_pos (by omega), if_pos hspring, i64_bind (by omega) (by omega), Nat.cast_add]
    rfl
  · rw [if_neg (by omega), if_neg hspring, i64_bind (by omega) (by omega),
      Nat.cast_sub (by omega)]
    rfl

section

open Gregorian Gregorian.Date

/-- The year of the printed date: the one that began in March. -/
def marchYear (n : ℤ) : ℤ :=
  yearOfEra ((n + ERA_OFFSET) % 146097) + (n + ERA_OFFSET) / 146097 * 400

theorem year_ofDayNumber (n : ℤ) :
    (ofDayNumber n).year = if (ofDayNumber n).month ≤ 2 then marchYear n + 1 else marchYear n := by
  have hmonth := marchMonth_lt (dayOfEraYear_lt (dayOfEra_mem n) ((n + ERA_OFFSET) / 146097))
  unfold ofDayNumber ofMarch
  dsimp only
  split
  · rw [if_neg (by omega), marchYear]
  · rw [if_pos (by omega), marchYear]

/-- **No operation overflows, and the month and the day are those of the calendar.** -/
theorem formatDateIn_eq (epochS : Int64) (loc : LocaleFmt) :
    formatDateIn epochS.toInt loc = .ok (layout loc (marchYear (epochS.toInt / 86400))
      (ofDayNumber (epochS.toInt / 86400)).month (ofDayNumber (epochS.toInt / 86400)).day) := by
  have hlo := epochS.le_toInt
  have hhi := epochS.toInt_lt
  unfold formatDateIn
  obtain ⟨n, hn⟩ : ∃ n, n = epochS.toInt / 86400 := ⟨_, rfl⟩
  obtain ⟨doe, hdoe⟩ : ∃ doe, doe = (n + ERA_OFFSET) % 146097 := ⟨_, rfl⟩
  have hoffset : ERA_OFFSET = 719468 := rfl
  -- The values of the intermediate results, and the bounds that keep them from overflowing.
  have hmem : 0 ≤ doe ∧ doe < 146097 := hdoe ▸ dayOfEra_mem n
  obtain ⟨hyoe, hyoe'⟩ := yearOfEra_mem hmem
  obtain ⟨hstart, hend⟩ := eraYearStart_le hmem
  have hleap : leapDay (yearOfEra doe + 1) ≤ 1 := by
    unfold leapDay
    split <;> decide
  obtain ⟨doy, hdoy⟩ := Int.eq_ofNat_of_zero_le (sub_nonneg.mpr hstart)
  have hyear : 365 * yearOfEra doe + yearOfEra doe / 4 - yearOfEra doe / 100 = doe - doy := by
    rw [← hdoy, eraYearStart]
    omega
  have hmonth : (5 * (doy : ℤ) + 2) / 153 = marchMonth doy := by
    rw [marchMonth]
    omega
  have hlt : doy < 365 + leapDay (yearOfEra doe + 1) := by omega
  have hmonth' : marchMonth doy < 12 := marchMonth_lt hlt
  have hfirst : (153 * (marchMonth doy : ℤ) + 2) / 5 = marchMonthStart (marchMonth doy) := by
    rw [marchMonthStart]
    omega
  have hfirst' := (marchMonth_mem hlt).1
  have hdate : ofDayNumber n = ofMarch (marchYear n) doy (by
      have hlt := dayOfEraYear_lt (dayOfEra_mem n) ((n + ERA_OFFSET) / 146097)
      rwa [← hdoe, hdoy, hdoe] at hlt) := by
    unfold ofDayNumber marchYear
    congr 1
    rw [← hdoe, hdoy]
    rfl
  have hmarch : yearOfEra doe + (n + ERA_OFFSET) / 146097 * 400 = marchYear n := by
    rw [marchYear, ← hdoe]
  dsimp only
  rw [← hn, i64_bind (by omega) (by omega), show n + 719468 = n + ERA_OFFSET from rfl, ← hdoe]
  simp only [Int.tdiv_eq_ediv_of_nonneg hmem.1]
  rw [i64_bind (by omega) (by omega), i64_bind (by omega) (by omega),
    i64_bind (by omega) (by omega), Int.tdiv_eq_ediv_of_nonneg (by omega),
    show (doe - doe / 1460 + doe / 36524 - doe / 146096) / 365 = yearOfEra doe from rfl]
  simp only [Int.tdiv_eq_ediv_of_nonneg hyoe]
  rw [i64_bind (by omega) (by omega), i64_bind (by omega) (by omega),
    i64_bind (by omega) (by omega), hyear, sub_sub_cancel, i64_bind (by omega) (by omega),
    i64_bind (by omega) (by omega), i64_bind (by omega) (by omega),
    Int.tdiv_eq_ediv_of_nonneg (by omega), hmonth, i64_bind (by omega) (by omega),
    i64_bind (by omega) (by omega), Int.tdiv_eq_ediv_of_nonneg (by omega), hfirst,
    i64_bind (by omega) (by omega), i64_bind (by omega) (by omega), calendarMonth_bind hmonth',
    i64_bind (by omega) (by omega), i64_bind (by omega) (by omega), hmarch, hdate]
  unfold ofMarch
  push_cast [hfirst']
  rfl

/-- The printed date is the date of the day the instant lies in. -/
def PrintsDate (epochS : Int64) (loc : LocaleFmt) : Prop :=
  ∃ date : Gregorian.Date, date.dayNumber = epochS.toInt / 86400 ∧
    formatDateIn epochS.toInt loc = .ok (layout loc date.year date.month date.day)

theorem month_lt (date : Gregorian.Date) : date.month < 100 := by
  have hmonth := date.month_mem.2
  omega

theorem day_lt (date : Gregorian.Date) : date.day < 100 := by
  have hlength : monthLength date.year date.month ≤ 31 := by
    unfold monthLength leapDay
    split
    · split <;> decide
    all_goals decide
  have hday := date.day_mem.2
  omega

/-- **The printed date is right exactly from March to December**: in January and February it names
the year before. -/
theorem printsDate_iff (epochS : Int64) (loc : LocaleFmt) :
    PrintsDate epochS loc ↔ 3 ≤ (ofDayNumber (epochS.toInt / 86400)).month := by
  have hprinted := formatDateIn_eq epochS loc
  have hyear := year_ofDayNumber (epochS.toInt / 86400)
  constructor
  · rintro ⟨date, hday, hdate⟩
    have hsame : ofDayNumber (epochS.toInt / 86400) = date := by
      rw [← hday, ofDayNumber_dayNumber]
    rw [hsame] at hprinted hyear ⊢
    obtain ⟨hmarch, -, -⟩ := layout_inj ⟨month_lt date, month_lt date⟩ ⟨day_lt date, day_lt date⟩
      (Except.ok.inj (hdate.symm.trans hprinted))
    by_contra hearly
    rw [if_pos (by omega)] at hyear
    omega
  · intro hlate
    refine ⟨ofDayNumber (epochS.toInt / 86400), dayNumber_ofDayNumber _, ?_⟩
    rw [if_neg (by omega)] at hyear
    rw [hyear]
    exact hprinted

/-- The layout that is used where none is known. -/
def ISO : LocaleFmt where
  dateOrder := .ymd
  langTag := "sv-SE".toList

/-- 15 January 2026 is printed as a day of 2025. -/
theorem not_printsDate_january : ¬ PrintsDate 1768435200 ISO := by
  rintro ⟨date, hday, hdate⟩
  have hsame : date = ⟨2026, 1, 15, by decide, by decide⟩ :=
    dayNumber_injective (hday.trans (by decide +kernel))
  subst hsame
  exact absurd (Except.ok.inj hdate) (by decide +kernel)

end

end Taskman
