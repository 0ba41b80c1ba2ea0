import Mathlib.Order.Basic
import Mathlib.Tactic.IntervalCases
import MetricBoard.Proofs.Moment.Lenient
import MetricBoard.Proofs.Number.Digits

/-!
# Stored moments are in the order of time

The store compares moments as the texts it keeps of them. In the years of four digits these texts
compare as the moments do, up to the microsecond (`microText_lt_iff`): their parts have fixed
widths and stand from the year down to the microsecond, dates compare part by part as their days
do (`Date.toDay_lt_iff`), and a leap second, which is the last of its minute, is written with the
number behind all others.
-/

namespace MetricBoard.Moment

/-! ## Dates -/

namespace Date

/-- A date of the calendar, of any year. -/
structure InCalendar (d : Date) : Prop where
  one_le_month : 1 ≤ d.month
  month_le : d.month ≤ 12
  one_le_day : 1 ≤ d.day
  day_le : d.day ≤ daysInMonth d.year d.month

theorem ofDay_inCalendar (day : Int) : (ofDay day).InCalendar :=
  have h := ofDay_exists day
  ⟨h.1, h.2.1, h.2.2.1, h.2.2.2⟩

/-- A date comes before another by its year, in one year by its month and in one month by its
day. -/
def Before (d e : Date) : Prop :=
  d.year < e.year ∨ d.year = e.year ∧ (d.month < e.month ∨ d.month = e.month ∧ d.day < e.day)

theorem toDay_eq (d : Date) : d.toDay = toDay ⟨d.year, d.month, 1⟩ + d.day - 1 := by
  simp only [toDay]
  omega

/-- A month begins where the one before it ends. -/
theorem toDay_next_month (year : Int) {month : Nat} (h : 1 ≤ month) (h' : month < 12) :
    toDay ⟨year, month + 1, 1⟩ = toDay ⟨year, month, 1⟩ + daysInMonth year month := by
  by_cases hfebruary : month = 2
  · subst hfebruary
    simp only [toDay, daysInMonth, isLeapYear]
    simp
    split <;> omega
  · interval_cases month <;> simp [toDay, daysInMonth] at hfebruary ⊢ <;> omega

theorem toDay_next_year (year : Int) :
    toDay ⟨year + 1, 1, 1⟩ = toDay ⟨year, 12, 1⟩ + daysInMonth year 12 := by
  simp [toDay, daysInMonth]
  omega

/-- A month ends before any later one of its year begins. -/
theorem monthEnd_le (year : Int) {month month' : Nat} (h : 1 ≤ month) (hlt : month < month')
    (h' : month' ≤ 12) :
    toDay ⟨year, month, 1⟩ + daysInMonth year month ≤ toDay ⟨year, month', 1⟩ := by
  induction month', Nat.succ_le_of_lt hlt using Nat.le_induction with
  | base => exact (toDay_next_month year h (by omega)).ge
  | succ n hn ih =>
    have := ih hn (by omega)
    rw [toDay_next_month year (by omega : 1 ≤ n) (by omega)]
    omega

/-- A year ends before any later one begins. -/
theorem yearEnd_le {year year' : Int} (h : year < year') :
    toDay ⟨year, 12, 1⟩ + daysInMonth year 12 ≤ toDay ⟨year', 1, 1⟩ := by
  have := marchDays_le (show year ≤ year' - 1 by omega)
  rw [← toDay_next_year]
  simp only [toDay]
  simp only [Nat.reduceLeDiff, if_true, Int.add_sub_cancel]
  omega

section

variable {d e : Date}

theorem InCalendar.toDay_lt_monthEnd (h : d.InCalendar) :
    d.toDay < toDay ⟨d.year, d.month, 1⟩ + daysInMonth d.year d.month := by
  have := h.day_le
  rw [toDay_eq]
  omega

theorem InCalendar.monthStart_le_toDay (h : d.InCalendar) :
    toDay ⟨d.year, d.month, 1⟩ ≤ d.toDay := by
  have := h.one_le_day
  rw [toDay_eq d]
  omega

theorem InCalendar.toDay_lt_yearEnd (h : d.InCalendar) :
    d.toDay < toDay ⟨d.year, 12, 1⟩ + daysInMonth d.year 12 := by
  have hmonth := h.toDay_lt_monthEnd
  by_cases hlast : d.month = 12
  · rwa [hlast] at hmonth
  · have := monthEnd_le d.year h.one_le_month (by have := h.month_le; omega) (Nat.le_refl 12)
    omega

theorem InCalendar.yearStart_le_toDay (h : d.InCalendar) : toDay ⟨d.year, 1, 1⟩ ≤ d.toDay := by
  have hmonth := h.monthStart_le_toDay
  by_cases hfirst : d.month = 1
  · rwa [hfirst] at hmonth
  · have := monthEnd_le d.year (Nat.le_refl 1) (by have := h.one_le_month; omega) h.month_le
    omega

theorem Before.toDay_lt (h : d.Before e) (hd : d.InCalendar) (he : e.InCalendar) :
    d.toDay < e.toDay := by
  rcases h with hyear | ⟨hyear, hmonth | ⟨hmonth, hday⟩⟩
  · calc d.toDay < _ := hd.toDay_lt_yearEnd
      _ ≤ _ := yearEnd_le hyear
      _ ≤ e.toDay := he.yearStart_le_toDay
  · calc d.toDay < _ := hd.toDay_lt_monthEnd
      _ ≤ toDay ⟨d.year, e.month, 1⟩ := monthEnd_le d.year hd.one_le_month hmonth he.month_le
      _ ≤ e.toDay := hyear ▸ he.monthStart_le_toDay
  · rw [toDay_eq d, toDay_eq e, hyear, hmonth]
    omega

theorem before_or_eq_or_before (d e : Date) : d.Before e ∨ d = e ∨ e.Before d := by
  obtain ⟨year, month, day⟩ := d
  obtain ⟨year', month', day'⟩ := e
  simp only [Before, mk.injEq]
  omega

/-- The order of dates of no negative year, followed by another one. -/
theorem before_or_eq_and_iff {p : Prop} (hd : 0 ≤ d.year) (he : 0 ≤ e.year) :
    d.Before e ∨ d = e ∧ p ↔ d.year.toNat < e.year.toNat ∨ d.year.toNat = e.year.toNat ∧
      (d.month < e.month ∨ d.month = e.month ∧ (d.day < e.day ∨ d.day = e.day ∧ p)) := by
  obtain ⟨year, month, day⟩ := d
  obtain ⟨year', month', day'⟩ := e
  dsimp only at hd he
  by_cases hp : p
  · simp only [Before, mk.injEq, hp, and_true]
    omega
  · simp only [Before, mk.injEq, hp, and_false, or_false]
    omega

/-- Dates of the calendar are in the order of their days. -/
theorem toDay_lt_iff (hd : d.InCalendar) (he : e.InCalendar) :
    d.toDay < e.toDay ↔ d.Before e := by
  refine ⟨fun h => ?_, fun h => h.toDay_lt hd he⟩
  obtain hbefore | rfl | hafter := before_or_eq_or_before d e
  · exact hbefore
  · exact absurd h (Int.lt_irrefl _)
  · exact absurd h (hafter.toDay_lt he hd).not_gt

end

end Date

theorem date_before_iff (m m' : Moment) : m.date.Before m'.date ↔ m.day < m'.day := by
  rw [date, date, ← Date.toDay_lt_iff (Date.ofDay_inCalendar m.day) (Date.ofDay_inCalendar m'.day),
    Date.toDay_ofDay, Date.toDay_ofDay]

/-! ## Microseconds -/

/-- The microsecond of a moment. Each second has two million of them, so that there is room for
the leap second behind it. -/
def microsecond (m : Moment) : Int := m.toSeconds * 2000000 + (m.nano.val / 1000 : Nat)

theorem microsecond_lt_iff {m m' : Moment} : m.microsecond < m'.microsecond ↔
    m.day < m'.day ∨ m.day = m'.day ∧ (m.second < m'.second ∨
      m.second = m'.second ∧ m.nano.val / 1000 < m'.nano.val / 1000) := by
  have hsecond := m.second.isLt
  have hsecond' := m'.second.isLt
  have hnano := m.nano.isLt
  have hnano' := m'.nano.isLt
  simp only [microsecond, toSeconds, Fin.lt_def, Fin.ext_iff]
  omega

theorem padded_append_lt_iff {width n n' : Nat} {xs ys : List Char} (hwidth : 0 < width)
    (h : n < tenTo width) (h' : n' < tenTo width) :
    padded width n ++ xs < padded width n' ++ ys ↔ n < n' ∨ n = n' ∧ xs < ys := by
  rw [Decimal.digits_append_lt_iff (fun d => isDigit_of_mem_padded)
    (fun d => isDigit_of_mem_padded) ((length_padded hwidth h).trans (length_padded hwidth h').symm),
    digitsValue_padded, digitsValue_padded]

/-- The numbers of a day's time compare as the time does. A leap second is the last of its minute
and has a number of its own. -/
theorem time_lt_iff {m m' : Moment} (h : m.nano.val < 1000000000 ∨ m.second.val % 60 = 59)
    (h' : m'.nano.val < 1000000000 ∨ m'.second.val % 60 = 59) :
    (m.second.val / 3600 < m'.second.val / 3600 ∨ m.second.val / 3600 = m'.second.val / 3600 ∧
      (m.second.val / 60 % 60 < m'.second.val / 60 % 60 ∨
        m.second.val / 60 % 60 = m'.second.val / 60 % 60 ∧
      (m.secondNumber < m'.secondNumber ∨ m.secondNumber = m'.secondNumber ∧
        m.nano.val % 1000000000 / 1000 < m'.nano.val % 1000000000 / 1000))) ↔
    m.second < m'.second ∨
      m.second = m'.second ∧ m.nano.val / 1000 < m'.nano.val / 1000 := by
  have hnano := m.nano.isLt
  have hnano' := m'.nano.isLt
  simp only [secondNumber, Fin.lt_def, Fin.ext_iff]
  generalize m.second.val = s, m'.second.val = s', m.nano.val = n, m'.nano.val = n' at *
  split <;> split <;> omega

/-- A moment that there is, in a year of four digits. -/
structure IsCommon (m : Moment) : Prop where
  plainYear : m.HasPlainYear
  leap : m.nano.val < 1000000000 ∨ m.second.val % 60 = 59

theorem IsCommon.isValid {m : Moment} (h : m.IsCommon) : m.IsValid :=
  ⟨h.plainYear.day_bounds.1, h.plainYear.day_bounds.2, h.leap⟩

section

variable {m m' : Moment} (h : m.IsCommon) (h' : m'.IsCommon)

include h h'

/-- **The order of stored moments.** The texts of two moments compare as their microseconds do. -/
theorem microText_lt_iff : m.microText < m'.microText ↔ m.microsecond < m'.microsecond := by
  obtain ⟨hyear, hmonth, hday⟩ := h.plainYear.date_fits
  obtain ⟨hyear', hmonth', hday'⟩ := h'.plainYear.date_fits
  obtain ⟨hhour, hminute, hsecond, hmicro⟩ := m.time_fits
  obtain ⟨hhour', hminute', hsecond', hmicro'⟩ := m'.time_fits
  have hsame : m.day = m'.day ↔ m.date = m'.date := by
    refine ⟨fun h => by rw [date, date, h], fun h => ?_⟩
    rw [← Date.toDay_ofDay m.day, ← Date.toDay_ofDay m'.day]
    exact congrArg Date.toDay h
  have htwo : 0 < 2 := by decide
  rw [microsecond_lt_iff, ← date_before_iff, hsame,
    Date.before_or_eq_and_iff h.plainYear.1 h'.plainYear.1, ← time_lt_iff h.leap h'.leap,
    String.lt_iff, microText_toList h.plainYear, microText_toList h'.plainYear,
    padded_append_lt_iff (by decide) hyear hyear',
    List.cons_lt_cons_self, padded_append_lt_iff htwo hmonth hmonth',
    List.cons_lt_cons_self, padded_append_lt_iff htwo hday hday',
    List.cons_lt_cons_self, padded_append_lt_iff htwo hhour hhour',
    List.cons_lt_cons_self, padded_append_lt_iff htwo hminute hminute',
    List.cons_lt_cons_self, padded_append_lt_iff htwo hsecond hsecond',
    List.cons_lt_cons_self, padded_append_lt_iff (by decide) hmicro hmicro']
  simp

theorem microText_le_iff : m.microText ≤ m'.microText ↔ m.microsecond ≤ m'.microsecond := by
  rw [← String.not_lt, microText_lt_iff h' h, Int.not_lt]

end

end MetricBoard.Moment
