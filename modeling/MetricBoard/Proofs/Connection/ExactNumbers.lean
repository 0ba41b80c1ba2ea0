import Mathlib.Data.List.TakeWhile
import Mathlib.Tactic.FieldSimp
import MetricBoard.Connection.Relational
import MetricBoard.Proofs.Json.Numbers
import MetricBoard.Proofs.Moment.ReadBack
import MetricBoard.Proofs.Number.Digits
import MetricBoard.Proofs.Number.Rounding
import MetricBoard.Proofs.Text.Trimming

/-!
# Exact numbers as text

The relational driver hands an exact number on as the text that the protocol's client writes: the
part before the point and the part behind it, each with its own sign. A reader of numbers takes a
sign in front only. So the text of an exact number is a number, and the same one, if and only if it
is not a negative number with a fraction (`Relational.exact_numbers_keep_their_value_iff`); the
cell of such a number has no number, and a result that it decides stands for zero.
-/

namespace MetricBoard

open Numeral (IsDigits isDigits_toDigits digitsValue_toDigits)

namespace Decimal

/-! ## The number that a text writes -/

/-- The number that a text writes, its sign included. -/
def ofText? (s : String) : Option Decimal :=
  match s.toList with
  | '-' :: cs => ofUnsigned? true cs
  | '+' :: cs => ofUnsigned? false cs
  | cs => ofUnsigned? false cs

/-- What a decimal stands for. -/
def signedValue (d : Decimal) : ℚ := if d.negative then -d.value else d.value

section

variable {ds es cs : List Char}

/-- Digits and a point are read up to where the digits behind the point end. -/
theorem ofUnsigned?_point (negative : Bool) (hds : IsDigits ds) (hne : ds ≠ []) :
    ofUnsigned? negative (ds ++ '.' :: cs) =
      (exponentOf? (cs.dropWhile Char.isDigit)).map fun e =>
        ⟨negative, digitsValue (ds ++ cs.takeWhile Char.isDigit),
          e - (cs.takeWhile Char.isDigit).length⟩ := by
  have htake : (ds ++ '.' :: cs).takeWhile Char.isDigit = ds := by
    rw [List.takeWhile_append_of_pos hds, List.takeWhile_cons_of_neg (by decide), List.append_nil]
  have hdrop : (ds ++ '.' :: cs).dropWhile Char.isDigit = '.' :: cs := by
    rw [List.dropWhile_append_of_pos hds, List.dropWhile_cons_of_neg (by decide)]
  rw [ofUnsigned?, htake, hdrop]
  simp [fractionOf, hne]

theorem ofUnsigned?_digits (negative : Bool) (hds : IsDigits ds) (hne : ds ≠ [])
    (hes : IsDigits es) : ofUnsigned? negative (ds ++ '.' :: es) =
      some ⟨negative, digitsValue (ds ++ es), -es.length⟩ := by
  rw [ofUnsigned?_point negative hds hne, List.takeWhile_eq_self_iff.2 hes,
    List.dropWhile_eq_nil_iff.2 hes]
  simp [exponentOf?]

/-- A sign behind the point ends the digits, and is no exponent. -/
theorem ofUnsigned?_sign (negative : Bool) (hds : IsDigits ds) (hne : ds ≠ []) :
    ofUnsigned? negative (ds ++ '.' :: '-' :: cs) = none := by
  rw [ofUnsigned?_point negative hds hne, List.dropWhile_cons_of_neg (by decide)]
  simp [exponentOf?]

end

end Decimal

/-- Ratios that are the same are rounded to the same number. -/
theorem Binary64.round_congr {negative : Bool} {num den num' den' : Nat} (hden : 0 < den)
    (hden' : 0 < den') (h : num * den' = num' * den) :
    round negative num den = round negative num' den' := by
  have hmagnitude : roundedMagnitude 52 num den = roundedMagnitude 52 num' den' :=
    le_antisymm (roundedMagnitude_le_roundedMagnitude hden hden' h.le)
      (roundedMagnitude_le_roundedMagnitude hden' hden h.ge)
  rw [round, round, hmagnitude]

theorem Binary64.round_zero (negative : Bool) (den : Nat) :
    round negative 0 den = ofMagnitude negative 0 := by
  have h : 0 < den ∨ 0 = den := by omega
  simp [round, roundedMagnitude, nearest, h]

/-- A decimal with few digits on either side of the point is rounded as a ratio. -/
theorem Decimal.toBinary64_negSucc {negative : Bool} {n k : Nat} (hn : digitCount n ≤ 1000)
    (hk : k < 1000) : toBinary64 ⟨negative, n, Int.negSucc k⟩ =
      .round negative (n * twoTo 1074) (tenTo (k + 1)) := by
  by_cases hzero : n = 0
  · subst hzero
    rw [Nat.zero_mul, Binary64.round_zero, toBinary64, if_pos (.inl rfl)]
  · rw [toBinary64]
    dsimp only
    rw [if_neg (by omega), if_neg (by omega)]

/-- The sign of a number. -/
def signChars (negative : Bool) : List Char := if negative then ['-'] else []

section

variable {negative : Bool} {c : Char} {cs : List Char} {s : String}

theorem eq_of_mem_signChars (h : c ∈ signChars negative) : c = '-' := by
  cases negative with
  | false => simp [signChars] at h
  | true => simpa [signChars] using h

theorem Decimal.ofText?_signed (hs : s.toList = signChars negative ++ c :: cs)
    (hc : c.isDigit = true) : Decimal.ofText? s = Decimal.ofUnsigned? negative (c :: cs) := by
  rw [Decimal.ofText?, hs]
  cases negative with
  | true => rfl
  | false =>
    change (match c :: cs with | '-' :: _ => _ | '+' :: _ => _ | _ => _) = _
    split
    · rename_i heq
      obtain ⟨rfl, -⟩ := List.cons.inj heq
      contradiction
    · rename_i heq
      obtain ⟨rfl, -⟩ := List.cons.inj heq
      contradiction
    · rfl

theorem toLower_eq_self (h : c.isDigit = true) : c.toLower = c := by
  refine dif_neg ?_
  rintro ⟨hlower, -⟩
  have hdigit : c.val.toNat ≤ 57 := (Char.isDigit_iff_toNat.1 h).2
  have hupper : 65 ≤ c.val.toNat := hlower
  omega

/-- What begins with a digit is not a word. -/
theorem Binary64.ofUnsigned?_digit (h : c.isDigit = true) : ofUnsigned? negative (c :: cs) =
    (Decimal.ofUnsigned? negative (c :: cs)).map Decimal.toBinary64 := by
  have hword : ∀ word : String, word.toList.head? = some 'i' ∨ word.toList.head? = some 'n' →
      Text.lower (String.ofList (c :: cs)) ≠ word := by
    rintro _ hhead rfl
    simp only [Text.lower, String.toList_map, String.toList_ofList, List.map_cons, List.head?_cons,
      Option.some.injEq, toLower_eq_self h] at hhead
    rcases hhead with rfl | rfl <;> contradiction
  rw [ofUnsigned?]
  split
  case h_1 heq => exact absurd heq (hword _ (by decide))
  case h_2 heq => exact absurd heq (hword _ (by decide))
  case h_3 heq => exact absurd heq (hword _ (by decide))
  case h_4 => rfl

theorem Binary64.ofText?_signed (hs : s.toList = signChars negative ++ c :: cs)
    (hc : c.isDigit = true) :
    ofText? s = (Decimal.ofText? s).map Decimal.toBinary64 := by
  rw [Decimal.ofText?_signed hs hc, ← ofUnsigned?_digit hc, ofText?, hs]
  cases negative with
  | true => rfl
  | false =>
    change (match c :: cs with | '-' :: _ => _ | '+' :: _ => _ | _ => _) = _
    split
    · rename_i heq
      obtain ⟨rfl, -⟩ := List.cons.inj heq
      contradiction
    · rename_i heq
      obtain ⟨rfl, -⟩ := List.cons.inj heq
      contradiction
    · rfl

end

namespace Relational

/-! ## The two parts of an exact number -/

section

variable {v : Int} {s : Nat}

theorem toList_padded (width : Nat) (n : Int) :
    (padded width n).toList = signChars (n < 0) ++
      Moment.padded (width - (signChars (n < 0)).length) n.natAbs := by
  have hsign : (if n < 0 then "-" else "").toList = signChars (n < 0) := by
    by_cases h : n < 0 <;> simp [signChars, h]
  simp only [padded, String.toList_append, hsign, String.toList_ofList, ← String.length_toList,
    Nat.repr, List.append_assoc]
  rfl

/-- The parts of an exact number, the first one with its sign apart. -/
theorem toList_numericText (v : Int) (s : Nat) :
    (numericText v s).toList =
      signChars (v.tdiv (tenTo s : Nat) < 0) ++ (Nat.toDigits 10 (v.natAbs / tenTo s) ++
        '.' :: (padded s (v.tmod (tenTo s : Nat))).toList) := by
  have hwhole : (v.tdiv (tenTo s : Nat)).natAbs = v.natAbs / tenTo s := by
    rw [Int.natAbs_tdiv, Int.natAbs_natCast]
    rfl
  rw [numericText, String.toList_append, String.toList_append, toList_padded, hwhole,
    Nat.zero_sub, Moment.padded, Nat.zero_sub, List.append_assoc, List.append_assoc]
  rfl

/-- A number that is not negative or has no fraction has its sign in front. -/
theorem toList_numericText_of_exact (h : v < 0 → (tenTo s : Int) ∣ v) :
    (numericText v s).toList =
      signChars (v < 0) ++ (Nat.toDigits 10 (v.natAbs / tenTo s) ++
        '.' :: Moment.padded s (v.natAbs % tenTo s)) := by
  have hpos : (0 : Int) < (tenTo s : Nat) := Int.natCast_pos.2 (tenTo_pos s)
  have hrest : (v.tmod (tenTo s : Nat)).natAbs = v.natAbs % tenTo s := by
    rw [Int.natAbs_tmod, Int.natAbs_natCast]
  have hfraction : ¬ v.tmod (tenTo s : Nat) < 0 := by
    by_cases hv : v < 0
    · rw [Int.tmod_eq_zero_of_dvd (h hv)]
      exact Int.lt_irrefl 0
    · exact Int.not_lt.2 (Int.tmod_nonneg _ (Int.not_lt.1 hv))
  have hwhole : v.tdiv (tenTo s : Nat) < 0 ↔ v < 0 := by
    by_cases hv : v < 0
    · refine iff_of_true ?_ hv
      obtain ⟨q, rfl⟩ := h hv
      rw [Int.mul_tdiv_cancel_left _ hpos.ne']
      exact neg_of_mul_neg_right hv hpos.le
    · exact iff_of_false (Int.not_lt.2 (Int.tdiv_nonneg (Int.not_lt.1 hv) hpos.le)) hv
  rw [toList_numericText, toList_padded, hrest, decide_eq_decide.2 hwhole,
    decide_eq_false hfraction]
  rfl

/-- A negative number with a fraction has a sign behind the point. -/
theorem exists_toList_numericText (hv : v < 0) (h : ¬ (tenTo s : Int) ∣ v) :
    ∃ negative cs, (numericText v s).toList =
      signChars negative ++ (Nat.toDigits 10 (v.natAbs / tenTo s) ++ '.' :: '-' :: cs) := by
  have hfraction : v.tmod (tenTo s : Nat) < 0 := by
    have hneg : (-v).tmod (tenTo s : Nat) = -v.tmod (tenTo s : Nat) := Int.neg_tmod ..
    have hnonneg : 0 ≤ (-v).tmod (tenTo s : Nat) := Int.tmod_nonneg _ (by omega)
    have hne : v.tmod (tenTo s : Nat) ≠ 0 := fun heq => h (Int.dvd_of_tmod_eq_zero heq)
    omega
  rw [toList_numericText, toList_padded, decide_eq_true hfraction]
  exact ⟨_, _, rfl⟩

theorem isBlank_of_mem_padded {width : Nat} {n : Int} {c : Char}
    (h : c ∈ (padded width n).toList) : Text.isBlank c = false := by
  rw [toList_padded, List.mem_append] at h
  rcases h with h | h
  · obtain rfl := eq_of_mem_signChars h
    rfl
  · have hdigit := Moment.isDigit_of_mem_padded h
    exact Text.not_isBlank_of_isAlphanum (by rw [Char.isAlphanum, hdigit, Bool.or_true])

theorem trim_numericText (v : Int) (s : Nat) : Text.trim (numericText v s) = numericText v s := by
  refine Text.trim_eq_self fun c hc => ?_
  rw [numericText, String.toList_append, String.toList_append, List.mem_append,
    List.mem_append] at hc
  rcases hc with (hc | hc) | hc
  · exact isBlank_of_mem_padded hc
  · obtain rfl : c = '.' := by simpa using hc
    rfl
  · exact isBlank_of_mem_padded hc

/-! ## What is read -/

/-- The decimal that the text of an exact number with its sign in front writes. -/
def decimal (v : Int) (s : Nat) : Decimal :=
  ⟨v < 0, Decimal.digitsValue (Nat.toDigits 10 (v.natAbs / tenTo s) ++
    Moment.padded s (v.natAbs % tenTo s)), -(Moment.padded s (v.natAbs % tenTo s)).length⟩

theorem exists_toDigits_eq_cons (n : Nat) :
    ∃ c cs, Nat.toDigits 10 n = c :: cs ∧ c.isDigit = true := by
  obtain ⟨c, cs, h⟩ := List.exists_cons_of_ne_nil (Nat.toDigits_ne_nil (b := 10) (n := n))
  exact ⟨c, cs, h, isDigits_toDigits n c (h ▸ List.mem_cons_self)⟩

theorem ofText?_of_exact (h : v < 0 → (tenTo s : Int) ∣ v) :
    Decimal.ofText? (numericText v s) = some (decimal v s) ∧
      Binary64.ofText? (numericText v s) = some (decimal v s).toBinary64 := by
  have htext := toList_numericText_of_exact h
  obtain ⟨c, cs, hcs, hc⟩ := exists_toDigits_eq_cons (v.natAbs / tenTo s)
  have hread : Decimal.ofText? (numericText v s) = some (decimal v s) := by
    rw [hcs, List.cons_append] at htext
    rw [Decimal.ofText?_signed htext hc, ← List.cons_append, ← hcs,
      Decimal.ofUnsigned?_digits _ (isDigits_toDigits _) Nat.toDigits_ne_nil
        fun _ => Moment.isDigit_of_mem_padded]
    rfl
  rw [hcs, List.cons_append] at htext
  rw [Binary64.ofText?_signed htext hc, hread]
  exact ⟨rfl, rfl⟩

theorem ofText?_of_not_exact (hv : v < 0) (h : ¬ (tenTo s : Int) ∣ v) :
    Decimal.ofText? (numericText v s) = none ∧ Binary64.ofText? (numericText v s) = none := by
  obtain ⟨negative, rest, htext⟩ := exists_toList_numericText hv h
  obtain ⟨c, cs, hcs, hc⟩ := exists_toDigits_eq_cons (v.natAbs / tenTo s)
  rw [hcs, List.cons_append] at htext
  have hread : Decimal.ofText? (numericText v s) = none := by
    rw [Decimal.ofText?_signed htext hc, ← List.cons_append, ← hcs,
      Decimal.ofUnsigned?_sign _ (isDigits_toDigits _) Nat.toDigits_ne_nil]
  rw [Binary64.ofText?_signed htext hc, hread]
  exact ⟨rfl, rfl⟩

/-- The decimal has at least one digit behind the point, and none that is lost. -/
theorem exists_decimal (v : Int) (s : Nat) : ∃ n k : Nat,
    decimal v s = ⟨v < 0, n, Int.negSucc k⟩ ∧ n * tenTo s = v.natAbs * tenTo (k + 1) ∧ k ≤ s := by
  cases s with
  | zero =>
    refine ⟨v.natAbs * 10, 0, ?_, Nat.mul_one _, le_rfl⟩
    have hwhole : v.natAbs / tenTo 0 = v.natAbs := Nat.div_one _
    have hrest : v.natAbs % tenTo 0 = 0 := Nat.mod_one _
    rw [decimal, hwhole, hrest, Decimal.digitsValue_append, digitsValue_toDigits]
    rfl
  | succ k =>
    have hrest : v.natAbs % tenTo (k + 1) < tenTo (k + 1) := Nat.mod_lt _ (tenTo_pos _)
    have hlength := Moment.length_padded (Nat.succ_pos k) hrest
    have hsum : v.natAbs / tenTo (k + 1) * 10 ^ (k + 1) + v.natAbs % tenTo (k + 1) = v.natAbs :=
      Nat.div_add_mod' ..
    refine ⟨v.natAbs, k, ?_, rfl, Nat.le_succ k⟩
    rw [decimal, Decimal.digitsValue_append, digitsValue_toDigits, Moment.digitsValue_padded,
      hlength, hsum]
    rfl

theorem signedValue_decimal (v : Int) (s : Nat) : (decimal v s).signedValue = v / 10 ^ s := by
  obtain ⟨n, k, hdecimal, hn, -⟩ := exists_decimal v s
  have hvalue : (decimal v s).value = v.natAbs / 10 ^ s := by
    have hcast : (n : ℚ) * 10 ^ s = v.natAbs * 10 ^ (k + 1) := by exact_mod_cast hn
    rw [hdecimal, Decimal.value, zpow_negSucc]
    field_simp
    rw [hcast, mul_comm]
  have habs : ((v.natAbs : ℚ)) = |(v : ℚ)| := by rw [Nat.cast_natAbs, Int.cast_abs]
  rw [Decimal.signedValue, hvalue, habs, hdecimal]
  by_cases hv : v < 0
  · have hcast : (v : ℚ) < 0 := Int.cast_lt_zero.2 hv
    simp only [hv, decide_true, if_true, abs_of_neg hcast]
    ring
  · have hcast : 0 ≤ (v : ℚ) := Int.cast_nonneg (Int.not_lt.1 hv)
    simp only [hv, decide_false, Bool.false_eq_true, if_false, abs_of_nonneg hcast]

/-! ## The number that is read -/

/-- The double nearest to an exact number. -/
def nearest (v : Int) (s : Nat) : Binary64 := .round (v < 0) (v.natAbs * twoTo 1074) (tenTo s)

theorem toBinary64_decimal (hv : v.natAbs < tenTo 38) (hs : s ≤ 37) :
    (decimal v s).toBinary64 = nearest v s := by
  obtain ⟨n, k, hdecimal, hn, hk⟩ := exists_decimal v s
  have hbound : n < tenTo 39 := by
    refine Nat.lt_of_mul_lt_mul_right (a := tenTo s) ?_
    calc n * tenTo s = v.natAbs * tenTo (k + 1) := hn
      _ ≤ v.natAbs * tenTo (s + 1) := Nat.mul_le_mul_left _ (tenTo_le_tenTo (Nat.succ_le_succ hk))
      _ < tenTo 38 * tenTo (s + 1) := Nat.mul_lt_mul_of_pos_right hv (tenTo_pos _)
      _ = tenTo 39 * tenTo s := by change 10 ^ 38 * 10 ^ (s + 1) = 10 ^ 39 * 10 ^ s; ring
  have hcount : Decimal.digitCount n ≤ 1000 := by
    unfold Decimal.digitCount
    split
    · exact Nat.zero_le _
    · have := (Nat.length_toDigits_le_iff (b := 10) (by decide) (by decide)).2 hbound
      omega
  rw [hdecimal, Decimal.toBinary64_negSucc hcount (by omega), nearest]
  refine Binary64.round_congr (tenTo_pos _) (tenTo_pos _) ?_
  calc n * twoTo 1074 * tenTo s = n * tenTo s * twoTo 1074 := by ring
    _ = v.natAbs * twoTo 1074 * tenTo (k + 1) := by rw [hn]; ring

/-- Between what the smallest and what the greatest of these numbers are rounded to. -/
theorem roundedMagnitude_bounds : 0 < Binary64.roundedMagnitude 52 (twoTo 1074) (tenTo 37) ∧
    Binary64.roundedMagnitude 52 (tenTo 38 * twoTo 1074) 1 < Binary64.infinityMagnitude := by
  decide +kernel

theorem isFinite_nearest (hv : v.natAbs < tenTo 38) : (nearest v s).isFinite = true := by
  rw [nearest, Binary64.isFinite_round]
  refine lt_of_le_of_lt (Binary64.roundedMagnitude_le_roundedMagnitude (tenTo_pos s) one_pos ?_)
    roundedMagnitude_bounds.2
  have hpos := tenTo_pos s
  calc v.natAbs * twoTo 1074 * 1 = v.natAbs * twoTo 1074 := Nat.mul_one _
    _ ≤ tenTo 38 * twoTo 1074 := Nat.mul_le_mul_right _ hv.le
    _ ≤ tenTo 38 * twoTo 1074 * tenTo s := Nat.le_mul_of_pos_right _ hpos

/-- Only zero is rounded to zero. -/
theorem eq_zero_of_magnitude_nearest (hs : s ≤ 37) (h : (nearest v s).magnitude = 0) : v = 0 := by
  have hsmallest := roundedMagnitude_bounds.1
  refine Int.natAbs_eq_zero.1 (Nat.eq_zero_of_not_pos fun hv => ?_)
  have hle : Binary64.roundedMagnitude 52 (twoTo 1074) (tenTo 37) ≤
      Binary64.roundedMagnitude 52 (v.natAbs * twoTo 1074) (tenTo s) := by
    refine Binary64.roundedMagnitude_le_roundedMagnitude (tenTo_pos 37) (tenTo_pos s) ?_
    calc twoTo 1074 * tenTo s ≤ twoTo 1074 * tenTo 37 :=
          Nat.mul_le_mul_left _ (tenTo_le_tenTo hs)
      _ ≤ v.natAbs * (twoTo 1074 * tenTo 37) := Nat.le_mul_of_pos_left _ hv
      _ = v.natAbs * twoTo 1074 * tenTo 37 := (Nat.mul_assoc ..).symm
  rw [nearest, Binary64.magnitude_round] at h
  have hinfinity : 0 < Binary64.infinityMagnitude := by decide
  omega

/-- The cell of an exact number has a finite number if its text is one. -/
theorem toFinite?_of_exact (hv : v.natAbs < tenTo 38) (hs : s ≤ 37)
    (h : v < 0 → (tenTo s : Int) ∣ v) :
    (Value.numeric v s).cell.toFinite? = some (nearest v s) := by
  rw [Value.cell, Cell.toFinite?, Cell.number?, trim_numericText, (ofText?_of_exact h).2,
    toBinary64_decimal hv hs, Option.filter_some, if_pos (isFinite_nearest hv)]

theorem toFinite?_of_not_exact (hv : v < 0) (h : ¬ (tenTo s : Int) ∣ v) :
    (Value.numeric v s).cell.toFinite? = none := by
  rw [Value.cell, Cell.toFinite?, Cell.number?, trim_numericText, (ofText?_of_not_exact hv h).2]
  rfl

end

end Relational

/-! ## The value of a result -/

/-- The cell that decides a result: the first row's column named `value`, else its first cell. -/
def decidingCell? (rows : List Row) : Option Cell :=
  rows.head?.bind fun row => (row.get? Expression.resultColumn).or row.cells.head?

theorem scalar_eq {rows : List Row} {c : Cell} (h : decidingCell? rows = some c) :
    scalar rows = c.toFinite?.getD .zero := by
  obtain ⟨row, hrow, hc⟩ := Option.bind_eq_some_iff.1 h
  simp [scalar, hrow, hc]

namespace Relational

/-- An exact number keeps its value: what its cell says is a number in the reader's syntax, and is
the number itself; and a result that the cell decides is zero only if the number is. -/
structure KeepsValue (v : Int) (s : Nat) : Prop where
  denotes : ∃ text d, (Value.numeric v s).cell = .decimal text ∧
    Decimal.ofText? (Text.trim text) = some d ∧ d.signedValue = v / 10 ^ s
  number : (Value.numeric v s).cell.number?.isSome = true
  nonzero : ∀ rows, decidingCell? rows = some (Value.numeric v s).cell →
    (scalar rows).magnitude = 0 → v = 0

variable {v : Int} {s : Nat}

theorem keepsValue_of_exact (hv : v.natAbs < tenTo 38) (hs : s ≤ 37)
    (h : v < 0 → (tenTo s : Int) ∣ v) : KeepsValue v s where
  denotes := by
    refine ⟨_, decimal v s, rfl, ?_, signedValue_decimal v s⟩
    rw [trim_numericText, (ofText?_of_exact h).1]
  number := by
    rw [Value.cell, Cell.number?, trim_numericText, (ofText?_of_exact h).2]
    rfl
  nonzero rows hrows hzero := by
    rw [scalar_eq hrows, toFinite?_of_exact hv hs h] at hzero
    exact eq_zero_of_magnitude_nearest hs hzero

theorem not_keepsValue (hv : v < 0) (h : ¬ (tenTo s : Int) ∣ v) : ¬ KeepsValue v s := by
  intro hkeeps
  have hnumber := hkeeps.number
  rw [Value.cell, Cell.number?, trim_numericText, (ofText?_of_not_exact hv h).2] at hnumber
  contradiction

/-- **Exact numbers.** One of at most 38 digits keeps its value if and only if it is not negative or
has no fraction; a result that it decides is the nearest double then, and zero otherwise. -/
theorem exact_numbers_keep_their_value_iff (hv : v.natAbs < tenTo 38) (hs : s ≤ 37) :
    (KeepsValue v s ↔ (v < 0 → (tenTo s : Int) ∣ v)) ∧
    ∀ rows, decidingCell? rows = some (Value.numeric v s).cell →
      scalar rows = if v < 0 ∧ ¬ (tenTo s : Int) ∣ v then .zero else
        .round (v < 0) (v.natAbs * twoTo 1074) (tenTo s) := by
  by_cases h : v < 0 ∧ ¬ (tenTo s : Int) ∣ v
  · refine ⟨iff_of_false (not_keepsValue h.1 h.2) fun hexact => h.2 (hexact h.1), ?_⟩
    intro rows hrows
    rw [scalar_eq hrows, toFinite?_of_not_exact h.1 h.2, if_pos h]
    rfl
  · have hexact : v < 0 → (tenTo s : Int) ∣ v := fun hneg => Classical.not_not.1 fun hd =>
      h ⟨hneg, hd⟩
    refine ⟨iff_of_true (keepsValue_of_exact hv hs hexact) hexact, fun rows hrows => ?_⟩
    rw [scalar_eq hrows, toFinite?_of_exact hv hs hexact, if_neg h]
    rfl

theorem exact_numbers_keep_their_value_iff_price :
    Int.natAbs 152075 < tenTo 38 ∧ 2 ≤ 37 ∧
      (KeepsValue 152075 2 ↔ ((152075 : Int) < 0 → (tenTo 2 : Int) ∣ 152075)) :=
  ⟨by decide, by decide,
    (exact_numbers_keep_their_value_iff (v := 152075) (by decide) (by decide)).1⟩

/-- Minus one half is written `0.-5`, which is no number. -/
theorem not_keepsValue_minus_half : ¬ KeepsValue (-5) 1 :=
  not_keepsValue (by decide) (by decide)

end Relational

end MetricBoard
