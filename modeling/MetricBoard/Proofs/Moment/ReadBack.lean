import MetricBoard.Moment.Text
import MetricBoard.Proofs.Moment.Calendar

/-!
# Stored moments are read back

The store writes a moment with six digits of its second's fraction and reads it back as the same
moment, with the fraction cut off there (`ofStrict?_microText`). This holds for years of four
digits; the reader takes no others (`exists_ofStrict?_microText_iff`). A leap second is written as
second 60 where it ends its minute, and is read back as such; elsewhere it is written as the second
that follows.
-/

namespace MetricBoard.Moment

/-! ## Numbers of a fixed width -/

section

variable {width n : Nat}

theorem length_padded (hwidth : 0 < width) (h : n < tenTo width) :
    (padded width n).length = width := by
  have := (Nat.length_toDigits_le_iff (b := 10) (by decide) hwidth).2 h
  rw [padded, List.length_append, List.length_replicate]
  omega

theorem isDigit_of_mem_padded {c : Char} (h : c ∈ padded width n) : c.isDigit = true := by
  rcases List.mem_append.1 h with h | h
  · rw [List.eq_of_mem_replicate h]
    rfl
  · exact Nat.isDigit_of_mem_toDigits (by decide) (by decide) h

theorem digitsValue_padded (width n : Nat) : Decimal.digitsValue (padded width n) = n := by
  change List.foldl _ 0 _ = n
  rw [← Nat.ofDigitChars_eq_foldl (b := 10), padded, Nat.ofDigitChars_append,
    Nat.ofDigitChars_replicate_zero, Nat.mul_zero, Nat.ofDigitChars_ten_toDigits]

namespace Reader

theorem bind_run {α β : Type} {x : Reader α} {f : α → Reader β} {cs rest : List Char} {a : α}
    (h : x.run cs = some (a, rest)) : (x >>= f).run cs = (f a).run rest := by
  rw [StateT.run_bind, h]
  rfl

theorem number_run_append {ds : List Char} (hdigits : ∀ c ∈ ds, c.isDigit = true)
    (rest : List Char) :
    (number ds.length ds.length).run (ds ++ rest) = some (Decimal.digitsValue ds, rest) := by
  have htake : (ds ++ rest).take ds.length = ds := List.take_left
  have hwhile : ds.takeWhile Char.isDigit = ds := by
    rw [← List.append_nil ds, List.takeWhile_append_of_pos hdigits, List.takeWhile_nil]
  simp [number, htake, hwhile]

theorem number_run_padded (hwidth : 0 < width) (h : n < tenTo width) (rest : List Char) :
    (number width width).run (padded width n ++ rest) = some (n, rest) := by
  have hrun := number_run_append (fun _ => @isDigit_of_mem_padded width n _) rest
  rwa [length_padded hwidth h, digitsValue_padded] at hrun

theorem oneOf_run_cons {c : Char} {cs rest : List Char} (h : c ∈ cs) :
    (oneOf cs).run (c :: rest) = some ((), rest) := by
  simp [oneOf, h]

theorem fraction_run_padded (h : n < tenTo 6) {c : Char} (hc : c.isDigit = false)
    (rest : List Char) :
    fraction.run ('.' :: (padded 6 n ++ c :: rest)) = some (n * 1000, c :: rest) := by
  have hlength : (padded 6 n).length = 6 := length_padded (by decide) h
  have hwhile : (padded 6 n ++ c :: rest).takeWhile Char.isDigit = padded 6 n := by
    rw [List.takeWhile_append_of_pos fun c => isDigit_of_mem_padded, List.takeWhile_cons, hc,
      if_neg Bool.false_ne_true, List.append_nil]
  have htake : (padded 6 n).take 9 = padded 6 n := List.take_of_length_le (by omega)
  have hne : padded 6 n ≠ [] := fun hnil => by simp [hnil] at hlength
  have hdrop : (padded 6 n ++ c :: rest).drop 6 = c :: rest := List.drop_left' hlength
  change (if (padded 6 n ++ c :: rest).takeWhile Char.isDigit = [] then failure
    else _ : Reader Nat).run _ = _
  rw [hwhile, if_neg hne]
  simp [hlength, hdrop, htake, digitsValue_padded]

theorem offset_run_universal (separator : Reader Unit) (rest : List Char) :
    (offset separator).run ('Z' :: rest) = some (0, rest) := by
  simp [offset]

end Reader

end

theorem strict_run {year month day hour minute second micro : Nat} (hyear : year < tenTo 4)
    (hmonth : month < tenTo 2) (hday : day < tenTo 2) (hhour : hour < tenTo 2)
    (hminute : minute < tenTo 2) (hsecond : second < tenTo 2) (hmicro : micro < tenTo 6) :
    strict.run (padded 4 year ++ '-' :: (padded 2 month ++ '-' :: (padded 2 day ++
      'T' :: (padded 2 hour ++ ':' :: (padded 2 minute ++ ':' :: (padded 2 second ++
      '.' :: (padded 6 micro ++ ['Z']))))))) =
    (ofLocal? ⟨year, month, day⟩ hour minute second (micro * 1000) 0).map fun m => (m, []) := by
  have h2 : 0 < 2 := by decide
  have hz : Char.isDigit 'Z' = false := by decide
  rw [strict, Reader.bind_run (Reader.number_run_padded (by decide) hyear _),
    Reader.bind_run (Reader.oneOf_run_cons (by decide)),
    Reader.bind_run (Reader.number_run_padded h2 hmonth _),
    Reader.bind_run (Reader.oneOf_run_cons (by decide)),
    Reader.bind_run (Reader.number_run_padded h2 hday _),
    Reader.bind_run (Reader.oneOf_run_cons (by decide)),
    Reader.bind_run (Reader.number_run_padded h2 hhour _),
    Reader.bind_run (Reader.oneOf_run_cons (by decide)),
    Reader.bind_run (Reader.number_run_padded h2 hminute _),
    Reader.bind_run (Reader.oneOf_run_cons (by decide)),
    Reader.bind_run (Reader.number_run_padded h2 hsecond _),
    Reader.bind_run (Reader.fraction_run_padded hmicro hz []),
    Reader.bind_run (Reader.offset_run_universal _ [])]
  cases ofLocal? ⟨year, month, day⟩ hour minute second (micro * 1000) 0 <;> rfl

/-! ## The moment that is read back -/

/-- The moment that the store keeps: its microsecond's fraction is cut off, and a leap second that
is not the last of its minute is told as the second after it. -/
def stored (m : Moment) : Moment :=
  if h : 1000000000 ≤ m.nano.val ∧ m.second.val % 60 ≠ 59 then
    { day := m.day
      second := ⟨m.second.val + 1, by have := m.second.isLt; omega⟩
      nano := ⟨m.nano.val % 1000000000 / 1000 * 1000, by omega⟩ }
  else m.toMicros

theorem stored_eq_toMicros {m : Moment}
    (h : m.nano.val < 1000000000 ∨ m.second.val % 60 = 59) : m.stored = m.toMicros := by
  rw [stored, dif_neg]
  omega

/-- Whether the year of a moment has four digits. -/
def HasPlainYear (m : Moment) : Prop := 0 ≤ m.date.year ∧ m.date.year ≤ 9999

theorem ofSeconds_eq {seconds : Int} (day : Int) (second : Fin 86400) (nano : Fin 2000000000)
    (h : seconds = day * 86400 + second.val) : ofSeconds seconds nano = ⟨day, second, nano⟩ := by
  have hlt := second.isLt
  have hday : seconds / 86400 = day := by omega
  have hsecond : (seconds % 86400).toNat = second.val := by omega
  simp only [ofSeconds, hday, hsecond]

theorem daysInMonth_le (year : Int) (month : Nat) : daysInMonth year month ≤ 31 := by
  unfold daysInMonth
  split
  · split <;> decide
  all_goals decide

theorem HasPlainYear.day_bounds {m : Moment} (h : m.HasPlainYear) :
    firstDay ≤ m.day ∧ m.day ≤ lastDay := by
  obtain ⟨hmonth, hmonth', hday, hday'⟩ := Date.ofDay_exists m.day
  have hdays := daysInMonth_le (Date.ofDay m.day).year (Date.ofDay m.day).month
  have htoDay := Date.toDay_ofDay m.day
  have hfirst : firstDay ≤ -1000000 := by decide
  have hlast : 3000000 ≤ lastDay := by decide
  obtain ⟨hyear, hyear'⟩ := h
  rw [date] at hyear hyear'
  generalize Date.ofDay m.day = d at *
  unfold Date.toDay at htoDay
  dsimp only at htoDay
  split at htoDay <;> omega

/-- The parts of a date of a year of four digits fit the places they have. -/
theorem HasPlainYear.date_fits {m : Moment} (h : m.HasPlainYear) :
    m.date.year.toNat < tenTo 4 ∧ m.date.month < tenTo 2 ∧ m.date.day < tenTo 2 := by
  obtain ⟨-, hmonth, -, hday⟩ := Date.ofDay_exists m.day
  have hdays := daysInMonth_le (Date.ofDay m.day).year (Date.ofDay m.day).month
  refine ⟨(Int.toNat_lt h.1).2 (Int.lt_of_le_of_lt h.2 (by decide)),
    Nat.lt_of_le_of_lt hmonth (by decide),
    Nat.lt_of_le_of_lt (Nat.le_trans hday hdays) (by decide)⟩

/-- The number that is written for the second of a minute: 60 for a leap second. -/
def secondNumber (m : Moment) : Nat :=
  m.second.val % 60 + if m.nano.val < 1000000000 then 0 else 1

/-- The parts of a time fit the places they have. -/
theorem time_fits (m : Moment) : m.second.val / 3600 < tenTo 2 ∧ m.second.val / 60 % 60 < tenTo 2 ∧
    m.secondNumber < tenTo 2 ∧ m.nano.val % 1000000000 / 1000 < tenTo 6 := by
  have := m.second.isLt
  change _ < 100 ∧ _ < 100 ∧ _ < 100 ∧ _ < 1000000
  unfold secondNumber
  split <;> omega

theorem microText_toList {m : Moment} (h : m.HasPlainYear) :
    m.microText.toList =
      padded 4 m.date.year.toNat ++ '-' :: (padded 2 m.date.month ++ '-' :: (padded 2 m.date.day ++
        'T' :: (padded 2 (m.second.val / 3600) ++ ':' :: (padded 2 (m.second.val / 60 % 60) ++
        ':' :: (padded 2 m.secondNumber ++
        '.' :: (padded 6 (m.nano.val % 1000000000 / 1000) ++ ['Z'])))))) := by
  simp [microText, secondText, secondNumber, yearText, h.1, h.2]

section

variable {d : Date} {hour minute second nano : Nat} (s : Fin 86400)

theorem ofLocal?_universal (hvalid : d.isValid = true)
    (hrange : firstDay ≤ d.toDay ∧ d.toDay ≤ lastDay) (hhour : hour < 24) (hminute : minute < 60)
    (hsecond : second < 60) (hnano : nano < 1000000000)
    (hs : s.val = hour * 3600 + minute * 60 + second) :
    ofLocal? d hour minute second nano 0 = some ⟨d.toDay, s, ⟨nano, by omega⟩⟩ := by
  rw [ofLocal?, dif_pos ⟨hvalid, hhour, hminute, by omega, hnano⟩]
  simp only [Nat.ne_of_lt hsecond, if_false]
  rw [ofSeconds_eq d.toDay s _ (by omega), if_pos hrange]

theorem ofLocal?_leap (hvalid : d.isValid = true)
    (hrange : firstDay ≤ d.toDay ∧ d.toDay ≤ lastDay) (hhour : hour < 24) (hminute : minute < 60)
    (hnano : nano < 1000000000) (hs : s.val = hour * 3600 + minute * 60 + 59) :
    ofLocal? d hour minute 60 nano 0 =
      some ⟨d.toDay, s, ⟨nano + 1000000000, by omega⟩⟩ := by
  rw [ofLocal?, dif_pos ⟨hvalid, hhour, hminute, by decide, hnano⟩]
  simp only [if_true]
  rw [ofSeconds_eq d.toDay s _ (by omega), if_pos hrange]

end

theorem ofLocal?_stored {m : Moment} (h : m.HasPlainYear) :
    ofLocal? m.date (m.second.val / 3600) (m.second.val / 60 % 60) m.secondNumber
      (m.nano.val % 1000000000 / 1000 * 1000) 0 = some m.stored := by
  unfold secondNumber
  have hvalid : m.date.isValid = true :=
    Date.ofDay_isValid (Int.le_trans (by decide) h.1) (Int.le_trans h.2 (by decide))
  have hday : m.date.toDay = m.day := Date.toDay_ofDay m.day
  have hrange : firstDay ≤ m.date.toDay ∧ m.date.toDay ≤ lastDay := hday ▸ h.day_bounds
  have hlt := m.second.isLt
  have hhour : m.second.val / 3600 < 24 := by omega
  have hminute : m.second.val / 60 % 60 < 60 := by omega
  have hmicro : m.nano.val % 1000000000 / 1000 * 1000 < 1000000000 := by omega
  by_cases hleap : m.nano.val < 1000000000
  · rw [if_pos hleap, ofLocal?_universal m.second hvalid hrange hhour hminute (by omega) hmicro
      (by omega), stored_eq_toMicros (.inl hleap), hday]
    simp only [toMicros, Nat.mod_eq_of_lt hleap]
  · rw [if_neg hleap]
    by_cases hlast : m.second.val % 60 = 59
    · rw [hlast, ofLocal?_leap m.second hvalid hrange hhour hminute hmicro (by omega),
        stored_eq_toMicros (.inr hlast), hday]
      have hnano : m.nano.val % 1000000000 / 1000 * 1000 + 1000000000 =
          m.nano.val / 1000 * 1000 := by
        have := m.nano.isLt
        omega
      simp only [toMicros, hnano]
    · have hstored : 1000000000 ≤ m.nano.val ∧ m.second.val % 60 ≠ 59 := ⟨by omega, hlast⟩
      rw [stored, dif_pos hstored, ofLocal?_universal ⟨m.second.val + 1, by omega⟩ hvalid hrange
        hhour hminute (by omega) hmicro (by dsimp only; omega), hday]

/-- A moment that the store has written is read back. -/
theorem ofStrict?_microText {m : Moment} (h : m.HasPlainYear) :
    ofStrict? m.microText = some m.stored := by
  obtain ⟨hyear, hmonth, hday⟩ := h.date_fits
  obtain ⟨hhour, hminute, hsecond, hmicro⟩ := m.time_fits
  have hdate : (⟨(m.date.year.toNat : Int), m.date.month, m.date.day⟩ : Date) = m.date := by
    rw [Int.toNat_of_nonneg h.1]
  rw [ofStrict?, readAll, microText_toList h,
    strict_run hyear hmonth hday hhour hminute hsecond hmicro, hdate, ofLocal?_stored h]
  rfl

/-- The reader takes a year of four digits and no sign. -/
theorem ofStrict?_microText_eq_none {m : Moment} (h : ¬ m.HasPlainYear) :
    ofStrict? m.microText = none := by
  have hsigned : ∃ c cs, m.microText.toList = c :: cs ∧ c.isDigit = false := by
    have hyear : ¬ (0 ≤ m.date.year ∧ m.date.year ≤ 9999) := h
    simp only [microText, secondText, yearText, String.toList_ofList, if_neg hyear]
    split
    · exact ⟨_, _, rfl, by decide⟩
    · exact ⟨_, _, rfl, by decide⟩
  obtain ⟨c, cs, hcs, hc⟩ := hsigned
  have hfailure : (failure : Reader PUnit).run (c :: cs) = none := rfl
  have hnumber : (Reader.number 4 4).run (c :: cs) = none := by
    simp [Reader.number, hc, hfailure]
  rw [ofStrict?, readAll, hcs, strict, StateT.run_bind, hnumber]
  rfl

theorem exists_ofStrict?_microText_iff {m : Moment} :
    (∃ m', ofStrict? m.microText = some m') ↔ m.HasPlainYear := by
  constructor
  · rintro ⟨m', hm'⟩
    refine Classical.byContradiction fun hplain => ?_
    rw [ofStrict?_microText_eq_none hplain] at hm'
    cases hm'
  · exact fun h => ⟨_, ofStrict?_microText h⟩

end MetricBoard.Moment
