import MetricBoard.Moment.Basic

/-!
# The calendar

A day has one date and a date one day. The computed date is found as in the calendar: a day lies
in an era of 400 years, a century of the era, a cycle of four years and a year, all of which start
with March (`Date.exists_ofDay_eq`). From this it follows that the date exists
(`Date.ofDay_isValid`) and that it is the date of that day (`Date.toDay_ofDay`).
-/

namespace MetricBoard.Moment.Date

/-- The date of a day of a year that starts with March. -/
def ofDayOfYear (year : Int) (d : Nat) : Date :=
  let month := (5 * d + 2) / 153
  let day := d - (153 * month + 2) / 5 + 1
  if month < 10 then ⟨year, month + 3, day⟩ else ⟨year + 1, month - 9, day⟩

/-! ## The months -/

theorem monthStart_le (d : Nat) : (153 * ((5 * d + 2) / 153) + 2) / 5 ≤ d := by
  omega

theorem le_monthEnd (d : Nat) : d ≤ (153 * ((5 * d + 2) / 153) + 150) / 5 := by
  omega

/-- The lengths of the months from March to December. -/
theorem daysInMonth_eq (year : Int) : ∀ {m : Nat}, m < 10 →
    daysInMonth year (m + 3) = (153 * m + 150) / 5 - (153 * m + 2) / 5 + 1
  | 0, _ | 1, _ | 2, _ | 3, _ | 4, _ | 5, _ | 6, _ | 7, _ | 8, _ | 9, _ => rfl
  | _ + 10, h => absurd h (by omega)

theorem toDay_ofDayOfYear (year : Int) {d : Nat} (hd : d < 366) :
    (ofDayOfYear year d).toDay =
      365 * year + year / 4 - year / 100 + year / 400 + d - 719468 := by
  have hstart := monthStart_le d
  have hyear : (5 * d + 2) / 153 < 12 := by omega
  unfold ofDayOfYear toDay
  generalize (5 * d + 2) / 153 = m at *
  by_cases hm : m < 10
  · have hmarch : ¬ m + 3 ≤ 2 := by omega
    simp only [hm, hmarch, if_true, if_false, Nat.add_sub_cancel]
    omega
  · have hmarch : m - 9 ≤ 2 := by omega
    have hmonth : m - 9 + 9 = m := by omega
    simp only [hm, hmarch, if_true, if_false, hmonth, Int.add_sub_cancel]
    omega

/-- The last day of a year is the 366th only of a leap year. -/
theorem ofDayOfYear_exists (year : Int) {d : Nat} (hd : d < 366)
    (hleap : d = 365 → isLeapYear (year + 1) = true) :
    let date := ofDayOfYear year d
    1 ≤ date.month ∧ date.month ≤ 12 ∧ 1 ≤ date.day ∧
      date.day ≤ daysInMonth date.year date.month := by
  have hend := le_monthEnd d
  have hyear : (5 * d + 2) / 153 < 12 := by omega
  have hfebruary : (5 * d + 2) / 153 = 11 → 337 ≤ d := by omega
  unfold ofDayOfYear
  generalize (5 * d + 2) / 153 = m at *
  by_cases hm : m < 10
  · simp only [hm, if_true, daysInMonth_eq year hm]
    refine ⟨by omega, by omega, by omega, by omega⟩
  · simp only [hm, if_false]
    refine ⟨by omega, by omega, by omega, ?_⟩
    obtain rfl | rfl : m = 10 ∨ m = 11 := by omega
    · simp only [daysInMonth]
      omega
    · have := hfebruary rfl
      by_cases hlast : d = 365
      · simp only [daysInMonth, hleap hlast, if_true]
        omega
      · simp only [daysInMonth]
        split <;> omega

/-! ## The year of a day -/

/-- A century has 24 cycles of four years and one that is a day short, except for the last one of
an era. -/
theorem exists_cycles (e : Int) (h₀ : 0 ≤ e) (h₁ : e < 146097) :
    ∃ a b r d : Int, (0 ≤ a ∧ a < 4) ∧ (0 ≤ b ∧ b < 25) ∧ (0 ≤ r ∧ r < 4) ∧ (0 ≤ d ∧ d < 366) ∧
      (d = 365 → r = 3 ∧ (b ≠ 24 ∨ a = 3)) ∧ e = 36524 * a + 1461 * b + 365 * r + d := by
  obtain ⟨a, f, ha, hf, hlong, rfl⟩ : ∃ a f : Int, (0 ≤ a ∧ a < 4) ∧ (0 ≤ f ∧ f < 36525) ∧
      (f = 36524 → a = 3) ∧ e = 36524 * a + f := by
    by_cases he : e = 146096
    · exact ⟨3, 36524, by omega⟩
    · exact ⟨e / 36524, e % 36524, by omega⟩
  clear h₀ h₁
  obtain ⟨b, g, hb, hg, hshort, rfl⟩ : ∃ b g : Int, (0 ≤ b ∧ b < 25) ∧ (0 ≤ g ∧ g < 1461) ∧
      (g = 1460 → b ≠ 24 ∨ a = 3) ∧ f = 1461 * b + g := ⟨f / 1461, f % 1461, by omega⟩
  clear hf hlong
  by_cases hr : g < 1095
  · exact ⟨a, b, g / 365, g % 365, by omega⟩
  · exact ⟨a, b, 3, g - 1095, by omega⟩

theorem yearOfEra_eq {a b r d e : Int} (ha : 0 ≤ a ∧ a < 4) (hb : 0 ≤ b ∧ b < 25)
    (hr : 0 ≤ r ∧ r < 4) (hd : 0 ≤ d ∧ d < 366) (hleap : d = 365 → r = 3 ∧ (b ≠ 24 ∨ a = 3))
    (he : e = 36524 * a + 1461 * b + 365 * r + d) :
    (e - e / 1460 + e / 36524 - e / 146096) / 365 = 100 * a + 4 * b + r := by
  by_cases hlast : e = 146096
  · subst hlast
    omega
  have hcentury : e / 36524 = a := by omega
  have hera : e / 146096 = 0 := by omega
  rw [hcentury, hera]
  -- by its last day a cycle is a day longer than four times 365 days
  by_cases hlate : 24 * a + b + 365 * r + d < 1460
  · have hcycle : e / 1460 = 25 * a + b := by omega
    rw [hcycle]
    omega
  · have hcycle : e / 1460 = 25 * a + b + 1 := by omega
    rw [hcycle]
    omega

theorem exists_ofDay_eq (day : Int) :
    ∃ era a b r : Int, ∃ d : Nat, (0 ≤ a ∧ a < 4) ∧ (0 ≤ b ∧ b < 25) ∧ (0 ≤ r ∧ r < 4) ∧ d < 366 ∧
      (d = 365 → r = 3 ∧ (b ≠ 24 ∨ a = 3)) ∧
      day + 719468 = 146097 * era + (36524 * a + 1461 * b + 365 * r + d) ∧
      ofDay day = ofDayOfYear (100 * a + 4 * b + r + 400 * era) d := by
  have hday := Int.mul_ediv_add_emod (day + 719468) 146097
  have hnonneg := Int.emod_nonneg (day + 719468) (b := 146097) (by decide)
  have hlt := Int.emod_lt_of_pos (day + 719468) (b := 146097) (by decide)
  rw [ofDay]
  generalize (day + 719468) / 146097 = era, (day + 719468) % 146097 = e at *
  obtain ⟨a, b, r, d, ha, hb, hr, hd, hleap, he⟩ := exists_cycles e hnonneg hlt
  obtain ⟨n, rfl⟩ := Int.eq_ofNat_of_zero_le hd.1
  refine ⟨era, a, b, r, n, ha, hb, hr, Int.ofNat_lt.1 hd.2, fun h => hleap (by rw [h]; rfl),
    by rw [← hday, he], ?_⟩
  have hfour : (100 * a + 4 * b + r) / 4 = 25 * a + b := by
    clear hday he hleap
    omega
  have hcentury : (100 * a + 4 * b + r) / 100 = a := by
    clear hday he hleap
    omega
  have hdays : 36524 * a + 1461 * b + 365 * r + (n : Int) -
      (365 * (100 * a + 4 * b + r) + (25 * a + b) - a) = n := by
    clear hday he hleap hfour hcentury
    omega
  rw [yearOfEra_eq ha hb hr hd hleap he, hfour, hcentury, he, hdays, Int.toNat_natCast,
    ofDayOfYear]

/-! ## The date of a day -/

theorem ofDay_exists (day : Int) :
    1 ≤ (ofDay day).month ∧ (ofDay day).month ≤ 12 ∧ 1 ≤ (ofDay day).day ∧
      (ofDay day).day ≤ daysInMonth (ofDay day).year (ofDay day).month := by
  obtain ⟨era, a, b, r, d, ha, hb, hr, hd, hleap, -, hdate⟩ := exists_ofDay_eq day
  rw [hdate]
  refine ofDayOfYear_exists _ hd fun hlast => ?_
  obtain ⟨rfl, hcentury⟩ := hleap hlast
  simp only [isLeapYear, Bool.and_eq_true, Bool.or_eq_true, decide_eq_true_eq, bne_iff_ne]
  refine ⟨by omega, ?_⟩
  rcases hcentury with hb' | rfl
  · exact .inl (by omega)
  · by_cases hb' : b = 24
    · exact .inr (by omega)
    · exact .inl (by omega)

theorem toDay_ofDay (day : Int) : (ofDay day).toDay = day := by
  obtain ⟨era, a, b, r, d, ha, hb, hr, hd, -, hday, hdate⟩ := exists_ofDay_eq day
  have hfour : (100 * a + 4 * b + r + 400 * era) / 4 = 25 * a + b + 100 * era := by
    clear hday
    omega
  have hcentury : (100 * a + 4 * b + r + 400 * era) / 100 = a + 4 * era := by
    clear hday
    omega
  have hera : (100 * a + 4 * b + r + 400 * era) / 400 = era := by
    clear hday
    omega
  rw [hdate, toDay_ofDayOfYear _ hd, hfour, hcentury, hera]
  clear hfour hcentury hera
  omega

theorem ofDay_isValid {day : Int} (h₀ : firstYear ≤ (ofDay day).year)
    (h₁ : (ofDay day).year ≤ lastYear) : (ofDay day).isValid = true := by
  obtain ⟨hmonth, hmonth', hday, hday'⟩ := ofDay_exists day
  simp only [isValid, Bool.and_eq_true, decide_eq_true_eq]
  exact ⟨⟨⟨⟨⟨h₀, h₁⟩, hmonth⟩, hmonth'⟩, hday⟩, hday'⟩

end MetricBoard.Moment.Date
