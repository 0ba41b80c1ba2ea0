import MetricBoard.Proofs.Moment.ReadBack
import MetricBoard.Text.Ascii

/-!
# Moments in data files are read back

A data file writes a moment exactly, in a year of any length and with the shortest fraction of its
second, and reads it back as it was (`ofLenient?_text`). This holds for the moments there are
(`IsValid`): those in range whose leap second, if they have one, ends a minute. A reader makes no
others (`isValid_of_ofLocal?`).
-/

namespace MetricBoard.Moment

/-- A moment that there is: its day is in range, and a leap second is the last of a minute. -/
structure IsValid (m : Moment) : Prop where
  firstDay_le : firstDay ≤ m.day
  le_lastDay : m.day ≤ lastDay
  leap : m.nano.val < 1000000000 ∨ m.second.val % 60 = 59

theorem isValid_of_ofLocal? {date : Date} {hour minute second nano : Nat} {offset : Int}
    {m : Moment} (hoffset : offset % 60 = 0)
    (h : ofLocal? date hour minute second nano offset = some m) : m.IsValid := by
  rw [ofLocal?] at h
  split at h
  case isTrue hlocal =>
    have hnano := hlocal.2.2.2.2
    by_cases hleap : second = 60
    · simp only [hleap, if_true, Option.ite_none_right_eq_some, Option.some.injEq] at h
      obtain ⟨hrange, rfl⟩ := h
      refine ⟨hrange.1, hrange.2, .inr ?_⟩
      simp only [ofSeconds]
      omega
    · simp only [hleap, if_false, Option.ite_none_right_eq_some, Option.some.injEq] at h
      obtain ⟨hrange, rfl⟩ := h
      exact ⟨hrange.1, hrange.2, .inl hnano⟩
  case isFalse => cases h

/-! ## Years -/

theorem marchDays_le {y z : Int} (h : y ≤ z) :
    365 * y + y / 4 - y / 100 + y / 400 ≤ 365 * z + z / 4 - z / 100 + z / 400 := by
  omega

theorem IsValid.year_bounds {m : Moment} (h : m.IsValid) :
    firstYear ≤ m.date.year ∧ m.date.year ≤ lastYear := by
  obtain ⟨hmonth, hmonth', hday, hday'⟩ := Date.ofDay_exists m.day
  have hdays := daysInMonth_le (Date.ofDay m.day).year (Date.ofDay m.day).month
  have htoDay := Date.toDay_ofDay m.day
  have hfirst : firstDay = -96465292 := by decide
  have hlast : lastDay = 95026236 := by decide
  obtain ⟨hlower, hupper, -⟩ := h
  rw [date]
  generalize Date.ofDay m.day = d at *
  unfold Date.toDay at htoDay
  dsimp only at htoDay
  refine ⟨Int.not_lt.1 fun hlt => ?_, Int.not_lt.1 fun hlt => ?_⟩
  · rw [firstYear] at hlt
    split at htoDay
    · have := marchDays_le (show d.year - 1 ≤ -262145 by omega)
      omega
    · have := marchDays_le (show d.year ≤ -262144 by omega)
      omega
  · rw [lastYear] at hlt
    split at htoDay
    · have := marchDays_le (show 262142 ≤ d.year - 1 by omega)
      omega
    · have := marchDays_le (show 262143 ≤ d.year by omega)
      omega

/-! ## Parts of a text -/

namespace Reader

open Text

variable {c : Char} {rest : List Char}

theorem isBlank_of_isDigit (h : c.isDigit = true) : isBlank c = false := by
  obtain ⟨hlow, hhigh⟩ := Char.isDigit_iff_toNat.1 h
  simp only [isBlank]
  simp at hlow hhigh ⊢
  omega

theorem blanks_run (h : isBlank c = false) : blanks.run (c :: rest) = some ((), c :: rest) := by
  change some ((), (c :: rest).dropWhile isBlank) = _
  rw [List.dropWhile_cons, h]
  rfl

theorem number_run {ds : List Char} {least most : Nat} (hdigits : ∀ d ∈ ds, d.isDigit = true)
    (hleast : least ≤ ds.length) (hmost : ds.length ≤ most) (hc : c.isDigit = false) :
    (number least most).run (ds ++ c :: rest) = some (Decimal.digitsValue ds, c :: rest) := by
  have hwhile : ((ds ++ c :: rest).take most).takeWhile Char.isDigit = ds := by
    rw [List.take_append, List.take_of_length_le hmost]
    refine takeWhile_append_eq hdigits fun d hd => ?_
    cases h : most - ds.length with
    | zero => simp [h] at hd
    | succ n =>
      obtain rfl : c = d := by simpa [h] using hd
      exact hc
  simp [number, hwhile, Nat.not_lt.2 hleast]

theorem number_run_padded_cons {least most width n : Nat} (hleast : least ≤ width)
    (hmost : (padded width n).length ≤ most) (hc : c.isDigit = false) :
    (number least most).run (padded width n ++ c :: rest) = some (n, c :: rest) := by
  have hlength : width ≤ (padded width n).length := by
    simp [padded]
    omega
  rw [number_run (fun d => isDigit_of_mem_padded) (Nat.le_trans hleast hlength) hmost hc,
    digitsValue_padded]

theorem exists_padded (width n : Nat) :
    ∃ d ds, padded width n = d :: ds ∧ d.isDigit = true := by
  cases h : padded width n with
  | nil => simp [padded, Nat.toDigits_ne_nil] at h
  | cons d ds => exact ⟨d, ds, rfl, isDigit_of_mem_padded (h ▸ List.mem_cons_self)⟩

theorem blanks_run_padded (width n : Nat) (rest : List Char) :
    blanks.run (padded width n ++ rest) = some ((), padded width n ++ rest) := by
  obtain ⟨d, ds, hds, hd⟩ := exists_padded width n
  rw [hds]
  exact blanks_run (isBlank_of_isDigit hd)

/-- A part of a moment behind its mark, with no blanks around it. -/
theorem part_run {mark : Char} {n : Nat} (hmark : isBlank mark = false) (hn : n < tenTo 2)
    (hc : c.isDigit = false) :
    (do blanks; oneOf [mark]; blanks; number 1 2 : Reader Nat).run
      (mark :: (padded 2 n ++ c :: rest)) = some (n, c :: rest) := by
  have hlength : (padded 2 n).length = 2 := length_padded (by decide) hn
  rw [bind_run (blanks_run hmark), bind_run (oneOf_run_cons List.mem_cons_self),
    bind_run (blanks_run_padded 2 n _), number_run_padded_cons (by decide) (by omega) hc]

theorem year_run (y : Int) (hc : c.isDigit = false) :
    year.run (yearText y ++ c :: rest) = some (y, c :: rest) := by
  have hsigned : ∀ mark, (number 1 (mark :: (padded 4 y.natAbs ++ c :: rest)).length).run
      (padded 4 y.natAbs ++ c :: rest) = some (y.natAbs, c :: rest) := fun _ =>
    number_run_padded_cons (by decide) (by simp; omega) hc
  unfold yearText
  split
  case isTrue h =>
    have hlt : y.toNat < tenTo 4 := (Int.toNat_lt h.1).2 (Int.lt_of_le_of_lt h.2 (by decide))
    have hlength : (padded 4 y.toNat).length = 4 := length_padded (by decide) hlt
    have hrun : (number 1 4).run (padded 4 y.toNat ++ c :: rest) = some (y.toNat, c :: rest) :=
      number_run_padded_cons (by decide) (Nat.le_of_eq hlength) hc
    obtain ⟨d, ds, hds, hd⟩ := exists_padded 4 y.toNat
    have hminus : d ≠ '-' := fun heq => by simp [heq] at hd
    have hplus : d ≠ '+' := fun heq => by simp [heq] at hd
    rw [hds, List.cons_append] at hrun ⊢
    simp [year, hminus, hplus, hrun, Int.max_eq_left h.1]
  case isFalse h =>
    split
    case isTrue hneg =>
      have hrun := hsigned '-'
      simp only [List.length_cons, List.length_append] at hrun
      simp [year]
      exact ⟨_, hrun, by omega⟩
    case isFalse hneg =>
      have hrun := hsigned '+'
      simp only [List.length_cons, List.length_append] at hrun
      simp [year]
      exact ⟨_, hrun, by omega⟩

theorem blanks_run_yearText (y : Int) (rest : List Char) :
    blanks.run (yearText y ++ rest) = some ((), yearText y ++ rest) := by
  unfold yearText
  split
  · exact blanks_run_padded 4 y.toNat rest
  · split
    · exact blanks_run (by decide)
    · exact blanks_run (by decide)

/-! ## Fractions -/

theorem fraction_run_append {ds : List Char} (hdigits : ∀ d ∈ ds, d.isDigit = true) (hne : ds ≠ [])
    (hlength : ds.length ≤ 9) (hc : c.isDigit = false) :
    fraction.run ('.' :: (ds ++ c :: rest)) =
      some (Decimal.digitsValue ds * tenTo (9 - ds.length), c :: rest) := by
  have hwhile : (ds ++ c :: rest).takeWhile Char.isDigit = ds :=
    takeWhile_append_eq hdigits (by simpa using hc)
  have htake : ds.take 9 = ds := List.take_of_length_le hlength
  change (if (ds ++ c :: rest).takeWhile Char.isDigit = [] then failure
    else _ : Reader Nat).run _ = _
  rw [hwhile, if_neg hne]
  simp [htake]

theorem fraction_run_padded_cons {width n nano : Nat} (hwidth : 0 < width) (hle : width ≤ 9)
    (hn : n < tenTo width) (heq : n * tenTo (9 - width) = nano) (hc : c.isDigit = false) :
    fraction.run ('.' :: (padded width n ++ c :: rest)) = some (nano, c :: rest) := by
  have hlength : (padded width n).length = width := length_padded hwidth hn
  have hne : padded width n ≠ [] := by
    intro hnil
    rw [hnil, List.length_nil] at hlength
    omega
  rw [fraction_run_append (fun d => isDigit_of_mem_padded) hne (by omega) hc,
    digitsValue_padded, hlength, heq]

theorem fraction_run_fractionText {nano : Nat} (h : nano < 1000000000) (hc : c.isDigit = false)
    (hdot : c ≠ '.') :
    fraction.run (fractionText nano ++ c :: rest) = some (nano, c :: rest) := by
  unfold fractionText
  split
  case isTrue hzero => simp [fraction, hdot, hzero]
  split
  case isTrue hmillis =>
    have heq : nano / 1000000 * 1000000 = nano := by omega
    exact fraction_run_padded_cons (by decide) (by decide) (by change _ < 1000; omega) heq hc
  split
  case isTrue hmicros =>
    have heq : nano / 1000 * 1000 = nano := by omega
    exact fraction_run_padded_cons (by decide) (by decide) (by change _ < 1000000; omega) heq hc
  case isFalse => exact fraction_run_padded_cons (by decide) (by decide) h (Nat.mul_one nano) hc

end Reader

theorem lenientOffset_run : lenientOffset.run ['Z'] = some (0, []) := by
  have hupper : Text.upper (String.ofList (['Z'].take 3)) ≠ "UTC" := by
    simp [Text.upper, String.ext_iff]
  change (if Text.upper (String.ofList (['Z'].take 3)) = "UTC" then _ else _ :
    Reader Int).run _ = _
  rw [if_neg hupper]
  exact Reader.offset_run_universal _ []

/-- A text that holds a moment's parts as a data file writes them is taken to its end. -/
theorem lenient_run {year : Int} {month day hour minute second nano : Nat}
    (hmonth : month < tenTo 2) (hday : day < tenTo 2) (hhour : hour < tenTo 2)
    (hminute : minute < tenTo 2) (hsecond : second < tenTo 2) (hnano : nano < 1000000000) :
    lenient.run (yearText year ++ '-' :: (padded 2 month ++ '-' :: (padded 2 day ++
      'T' :: (padded 2 hour ++ ':' :: (padded 2 minute ++ ':' :: (padded 2 second ++
      (fractionText nano ++ ['Z']))))))) =
    (ofLocal? ⟨year, month, day⟩ hour minute second nano 0).map fun m => (m, []) := by
  have hdash : Text.isBlank '-' = false := by decide
  have hcolon : Text.isBlank ':' = false := by decide
  obtain ⟨c, rest, hrest, hc⟩ : ∃ c rest, fractionText nano ++ ['Z'] = c :: rest ∧
      c.isDigit = false := by
    unfold fractionText
    split
    · exact ⟨_, _, rfl, by decide⟩
    · split
      · exact ⟨_, _, rfl, by decide⟩
      · split
        · exact ⟨_, _, rfl, by decide⟩
        · exact ⟨_, _, rfl, by decide⟩
  have hfraction : Reader.fraction.run (c :: rest) = some (nano, ['Z']) :=
    hrest ▸ Reader.fraction_run_fractionText hnano (by decide) (by decide)
  have hlength : ∀ n < tenTo 2, (padded 2 n).length ≤ 2 := fun n hn =>
    Nat.le_of_eq (length_padded (by decide) hn)
  rw [hrest, lenient]
  dsimp only
  rw [Reader.bind_run (Reader.blanks_run_yearText year _),
    Reader.bind_run (Reader.year_run year (by decide)),
    Reader.bind_run (Reader.part_run hdash hmonth (by decide)),
    Reader.bind_run (Reader.part_run hdash hday (by decide)),
    Reader.bind_run (Reader.oneOf_run_cons (by decide)),
    Reader.bind_run (Reader.blanks_run_padded 2 hour _),
    Reader.bind_run (Reader.number_run_padded_cons (by decide) (hlength hour hhour) (by decide)),
    Reader.bind_run (Reader.part_run hcolon hminute (by decide)),
    Reader.bind_run (Reader.part_run hcolon hsecond hc), Reader.bind_run hfraction,
    Reader.bind_run (Reader.blanks_run (by decide)), Reader.bind_run lenientOffset_run]
  cases ofLocal? ⟨year, month, day⟩ hour minute second nano 0 <;> rfl

/-! ## The moment that is read back -/

theorem text_toList (m : Moment) :
    m.text.toList =
      yearText m.date.year ++ '-' :: (padded 2 m.date.month ++ '-' :: (padded 2 m.date.day ++
        'T' :: (padded 2 (m.second.val / 3600) ++ ':' :: (padded 2 (m.second.val / 60 % 60) ++
        ':' :: (padded 2 (m.second.val % 60 + if m.nano.val < 1000000000 then 0 else 1) ++
        (fractionText (m.nano.val % 1000000000) ++ ['Z'])))))) := by
  simp [text, secondText]

theorem ofLocal?_of_isValid {m : Moment} (h : m.IsValid) :
    ofLocal? m.date (m.second.val / 3600) (m.second.val / 60 % 60)
      (m.second.val % 60 + if m.nano.val < 1000000000 then 0 else 1)
      (m.nano.val % 1000000000) 0 = some m := by
  have hvalid : m.date.isValid = true := Date.ofDay_isValid h.year_bounds.1 h.year_bounds.2
  have hday : m.date.toDay = m.day := Date.toDay_ofDay m.day
  have hrange : firstDay ≤ m.date.toDay ∧ m.date.toDay ≤ lastDay :=
    hday ▸ ⟨h.firstDay_le, h.le_lastDay⟩
  have hlt := m.second.isLt
  have hnano := m.nano.isLt
  have hhour : m.second.val / 3600 < 24 := by omega
  have hminute : m.second.val / 60 % 60 < 60 := by omega
  by_cases hleap : m.nano.val < 1000000000
  · rw [if_pos hleap, ofLocal?_universal m.second hvalid hrange hhour hminute (by omega)
      (by omega) (by omega), hday]
    simp only [Nat.mod_eq_of_lt hleap]
  · have hlast : m.second.val % 60 = 59 := h.leap.resolve_left hleap
    have heq : m.nano.val % 1000000000 + 1000000000 = m.nano.val := by omega
    rw [if_neg hleap, hlast, ofLocal?_leap m.second hvalid hrange hhour hminute (by omega)
      (by omega), hday]
    simp only [heq]

/-- A moment that a data file has written is read back. -/
theorem ofLenient?_text {m : Moment} (h : m.IsValid) : ofLenient? m.text = some m := by
  obtain ⟨-, hmonth, -, hday⟩ := Date.ofDay_exists m.day
  have hdays := daysInMonth_le (Date.ofDay m.day).year (Date.ofDay m.day).month
  have hsecond := m.second.isLt
  rw [ofLenient?, readAll, text_toList, lenient_run, ofLocal?_of_isValid h]
  · rfl
  · exact Nat.lt_of_le_of_lt hmonth (by decide)
  · exact Nat.lt_of_le_of_lt (Nat.le_trans hday hdays) (by decide)
  · change _ < 100
    omega
  · change _ < 100
    omega
  · change _ < 100
    split <;> omega
  · omega

end MetricBoard.Moment
