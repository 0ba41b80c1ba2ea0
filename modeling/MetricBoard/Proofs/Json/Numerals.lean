import MetricBoard.Json.Reader
import MetricBoard.Json.Writer
import MetricBoard.Text.Ascii

/-!
# Written numerals are read back

A numeral is written digit for digit, and where it is proper the reader takes exactly what was
written, whatever follows, as long as what follows cannot go on a numeral (`readNumeral_append`).
-/

namespace MetricBoard

open Text

/-- A row of digits. -/
def Numeral.IsDigits (ds : List Char) : Prop := ∀ d ∈ ds, d.isDigit = true

/-- A numeral as RFC 8259 has them: the whole part does not begin with a zero unless it is one. -/
structure Numeral.IsProper (n : Numeral) : Prop where
  whole : n.whole = ['0'] ∨ (∃ d, n.whole.head? = some d ∧ d ≠ '0') ∧ IsDigits n.whole
  fraction : IsDigits n.fraction
  exponent : ∀ e ∈ n.exponent, e.2 ≠ [] ∧ IsDigits e.2

namespace Json

/-- A numeral ends before some characters. -/
def EndsNumeral (rest : List Char) : Prop :=
  ∀ c ∈ rest.head?, c.isDigit = false ∧ c ≠ '.' ∧ c ≠ 'e' ∧ c ≠ 'E'

/-- How the exponent of a numeral is written. -/
def exponentText : Option (Bool × List Char) → List Char
  | none => []
  | some (down, ds) => 'e' :: (if down then ['-'] else []) ++ ds

variable {n : Numeral} {ds rest : List Char}

theorem wholeDigits_append
    (h : ds = ['0'] ∨ (∃ d, ds.head? = some d ∧ d ≠ '0') ∧ Numeral.IsDigits ds)
    (hrest : ∀ c ∈ rest.head?, c.isDigit = false) : wholeDigits (ds ++ rest) = ds := by
  obtain rfl | ⟨⟨d, hd, hzero⟩, hdigits⟩ := h
  · rfl
  · obtain ⟨ds, rfl⟩ := List.head?_eq_some_iff.1 hd
    rw [List.cons_append, wholeDigits]
    · exact takeWhile_append_eq hdigits hrest
    · intro _ heq
      exact hzero (List.head_eq_of_cons_eq heq)

theorem readExponent_append {e : Option (Bool × List Char)}
    (h : ∀ x ∈ e, x.2 ≠ [] ∧ Numeral.IsDigits x.2) (hrest : EndsNumeral rest) :
    readExponent (exponentText e ++ rest) = some (e, rest) := by
  cases e with
  | none =>
    cases rest with
    | nil => rfl
    | cons c rest =>
      obtain ⟨-, -, he, hE⟩ := hrest c rfl
      simp [exponentText, readExponent, he, hE]
  | some x =>
    obtain ⟨down, ds⟩ := x
    obtain ⟨hne, hdigits⟩ := h _ rfl
    have hds : (ds ++ rest).takeWhile Char.isDigit = ds :=
      takeWhile_append_eq hdigits fun c hc => (hrest c hc).1
    cases down with
    | true => simp [exponentText, readExponent, hds, hne]
    | false =>
      obtain ⟨d, ds, rfl⟩ := List.exists_cons_of_ne_nil hne
      have hd := hdigits d List.mem_cons_self
      have hminus : d ≠ '-' := fun heq => by simp [heq] at hd
      have hplus : d ≠ '+' := fun heq => by simp [heq] at hd
      rw [List.cons_append] at hds
      simp [exponentText, readExponent, hds, hminus, hplus]

theorem text_eq (n : Numeral) : n.text = (if n.negative then ['-'] else []) ++ (n.whole ++
    ((if n.fraction = [] then [] else '.' :: n.fraction) ++ exponentText n.exponent)) := by
  obtain ⟨negative, whole, fraction, exponent⟩ := n
  cases exponent <;> simp [Numeral.text, exponentText]

/-- What an exponent begins with. -/
theorem head?_exponentText {e : Option (Bool × List Char)} (hrest : EndsNumeral rest) :
    ∀ c ∈ (exponentText e ++ rest).head?, c.isDigit = false ∧ c ≠ '.' := by
  cases e with
  | none => exact fun c hc => ⟨(hrest c hc).1, (hrest c hc).2.1⟩
  | some x => simp [exponentText]

theorem head?_whole (h : n.IsProper) : ∃ d ds, n.whole = d :: ds ∧ d.isDigit = true := by
  obtain hzero | ⟨⟨d, hd, -⟩, hdigits⟩ := h.whole
  · exact ⟨'0', [], hzero, rfl⟩
  · obtain ⟨ds, hds⟩ := List.head?_eq_some_iff.1 hd
    exact ⟨d, ds, hds, hdigits d (hds ▸ List.mem_cons_self)⟩

theorem readUnsigned_append (h : n.IsProper) (hrest : EndsNumeral rest) :
    readUnsigned n.negative (n.whole ++ ((if n.fraction = [] then [] else '.' :: n.fraction) ++
      (exponentText n.exponent ++ rest))) = some (n, rest) := by
  have hread := readExponent_append h.exponent hrest
  have hhead := head?_exponentText (e := n.exponent) hrest
  obtain ⟨d, ds, hds, -⟩ := head?_whole h
  have hne : n.whole ≠ [] := by simp [hds]
  obtain ⟨negative, whole, fraction, exponent⟩ := n
  dsimp only at *
  generalize exponentText exponent ++ rest = tail at *
  by_cases hfraction : fraction = []
  · subst hfraction
    have hwhole : wholeDigits (whole ++ tail) = whole :=
      wholeDigits_append h.whole fun c hc => (hhead c hc).1
    rw [if_pos rfl, List.nil_append, readUnsigned]
    simp only [hwhole, List.drop_left, hne, false_or]
    cases tail with
    | nil => simp [hread]
    | cons c tail =>
      obtain ⟨hdigit, hdot⟩ := hhead c rfl
      simp [hdigit, hdot, hread]
  · have hwhole : wholeDigits (whole ++ '.' :: (fraction ++ tail)) = whole :=
      wholeDigits_append h.whole (by simp)
    have hdigits := takeWhile_append_eq h.fraction fun c hc => (hhead c hc).1
    rw [if_neg hfraction, readUnsigned]
    simp [hwhole, hne, hdigits, hfraction, hread]

theorem readNumeral_of_ne {d : Char} (h : d ≠ '-') (ds : List Char) :
    readNumeral (d :: ds) =
      (readUnsigned false (d :: ds)).map fun r => (r.1, (d :: ds).length - r.2.length) := by
  rw [readNumeral]
  intro ds' heq
  exact h (List.head_eq_of_cons_eq heq)

/-- A numeral that is written is read back, and no more than it is taken. -/
theorem readNumeral_append (h : n.IsProper) (hrest : EndsNumeral rest) :
    readNumeral (n.text ++ rest) = some (n, n.text.length) := by
  have hread := readUnsigned_append h hrest
  have hlength : (n.text ++ rest).length - rest.length = n.text.length := by simp
  obtain ⟨d, ds, hds, hd⟩ := head?_whole h
  have hminus : d ≠ '-' := fun heq => by simp [heq] at hd
  rw [← hlength, text_eq, List.append_assoc, List.append_assoc, List.append_assoc]
  cases hneg : n.negative with
  | true =>
    rw [hneg] at hread
    rw [if_pos rfl, List.singleton_append, readNumeral, hread]
    rfl
  | false =>
    rw [hneg, hds] at hread
    rw [if_neg Bool.false_ne_true, List.nil_append, hds]
    rw [List.cons_append, readNumeral_of_ne hminus, ← List.cons_append, hread]
    rfl

/-- What a numeral begins with. -/
theorem exists_text {n : Numeral} (h : n.IsProper) :
    ∃ c cs, n.text = c :: cs ∧ (c = '-' ∨ c.isDigit = true) := by
  obtain ⟨d, ds, hds, hd⟩ := head?_whole h
  rw [text_eq, hds]
  cases n.negative with
  | true => exact ⟨_, _, rfl, .inl rfl⟩
  | false => exact ⟨d, _, rfl, .inr hd⟩

end Json

end MetricBoard
