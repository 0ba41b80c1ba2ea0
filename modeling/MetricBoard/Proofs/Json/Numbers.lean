import MetricBoard.Proofs.Json.Numerals
import MetricBoard.Proofs.Number.Shortest

/-!
# Numbers as numerals

What is written for a natural number or a double is a proper numeral (`isProper_ofNat`,
`isProper_ofBinary64`), and a word comes back from its numeral (`toWord?_ofNat`).
-/

namespace MetricBoard.Numeral

open Binary64

theorem isDigits_toDigits (n : Nat) : IsDigits (Nat.toDigits 10 n) :=
  fun _ hd => Nat.isDigit_of_mem_toDigits (by decide) (by decide) hd

theorem whole_toDigits (n : Nat) : Nat.toDigits 10 n = ['0'] ∨
    (∃ d, (Nat.toDigits 10 n).head? = some d ∧ d ≠ '0') ∧ IsDigits (Nat.toDigits 10 n) := by
  by_cases h : n = 0
  · exact .inl (by rw [h, Nat.toDigits_zero])
  · obtain ⟨d, ds, hds, hd⟩ := exists_toDigits h
    exact .inr ⟨⟨d, by rw [hds, List.head?_cons], hd⟩, isDigits_toDigits n⟩

theorem digitsValue_toDigits (n : Nat) : Decimal.digitsValue (Nat.toDigits 10 n) = n := by
  change List.foldl _ 0 _ = n
  rw [← Nat.ofDigitChars_eq_foldl (b := 10), Nat.ofDigitChars_ten_toDigits]

theorem isProper_ofNat (n : Nat) : (ofNat n).IsProper where
  whole := whole_toDigits n
  fraction := by simp [ofNat, IsDigits]
  exponent := by simp [ofNat]

/-- A word that is written is read back. -/
theorem toWord?_ofNat {n : Nat} (h : n < twoTo 64) : (ofNat n).toWord? = some n := by
  simp only [toWord?, ofNat, digitsValue_toDigits, h, and_self, if_true]

theorem ofBinary64_of_scaled_eq_zero {x : Binary64} (h : x.scaled = 0) :
    ofBinary64 x = ⟨x.isNegative, ['0'], ['0'], none⟩ := by
  simp [ofBinary64, shortest, h]

/-- The numeral of a decimal with a first digit and an exponent. -/
def scientific (d : Decimal) : Numeral :=
  let ds := Nat.toDigits 10 d.digits
  let point := ds.length + d.exponent
  ⟨d.negative, ds.take 1, ds.drop 1, some (point - 1 < 0, Nat.toDigits 10 (point - 1).natAbs)⟩

theorem isProper_scientific {d : Decimal} (h : d.digits ≠ 0) : (scientific d).IsProper := by
  have hdigits := isDigits_toDigits d.digits
  obtain ⟨c, cs, hcs, hc⟩ := exists_toDigits h
  rw [scientific]
  rw [hcs] at hdigits ⊢
  refine ⟨.inr ⟨⟨c, rfl, hc⟩, ?_⟩, ?_, ?_⟩
  · exact fun x hx => hdigits x (List.mem_of_mem_take hx)
  · exact fun x hx => hdigits x (List.mem_of_mem_drop hx)
  · rintro e ⟨⟩
    exact ⟨Nat.toDigits_ne_nil, isDigits_toDigits _⟩

/-- A positional numeral has at most 16 digits before its point; any other has an exponent. -/
theorem positional_or_scientific {x : Binary64} (hx : x.scaled ≠ 0) :
    ((ofBinary64 x).IsProper ∧ (ofBinary64 x).exponent = none ∧
      (ofBinary64 x).whole.length ≤ 16) ∨ ofBinary64 x = scientific x.shortest := by
  obtain ⟨-, -, hne, -⟩ := exists_shortest hx
  have hdigits := isDigits_toDigits x.shortest.digits
  obtain ⟨c, cs, hcs, hc⟩ := exists_toDigits hne
  rw [ofBinary64, scientific]
  generalize x.shortest.exponent = e
  generalize x.shortest.negative = negative
  rw [hcs] at hdigits ⊢
  have hzeros : ∀ n, IsDigits (List.replicate n '0') := fun n d hd => by
    rw [List.eq_of_mem_replicate hd]
    rfl
  split
  case isTrue h =>
    refine .inl ⟨⟨.inr ⟨⟨c, rfl, hc⟩, ?_⟩, by simp [IsDigits], by simp⟩, rfl, ?_⟩
    · exact fun d hd => (List.mem_append.1 hd).elim (hdigits d) (hzeros _ d)
    · rw [List.length_append, List.length_replicate]
      omega
  split
  case isTrue h =>
    obtain ⟨k, hk⟩ : ∃ k, (((c :: cs).length : Int) + e).toNat = k + 1 :=
      ⟨(((c :: cs).length : Int) + e).toNat - 1, by omega⟩
    rw [hk]
    refine .inl ⟨⟨.inr ⟨⟨c, rfl, hc⟩, ?_⟩, ?_, by simp⟩, rfl, ?_⟩
    · exact fun d hd => hdigits d (List.mem_of_mem_take hd)
    · exact fun d hd => hdigits d (List.mem_of_mem_drop hd)
    · rw [List.length_take]
      omega
  split
  case isTrue h =>
    refine .inl ⟨⟨.inl rfl, ?_, by simp⟩, rfl, by simp⟩
    exact fun d hd => (List.mem_append.1 hd).elim (hzeros _ d) (hdigits d)
  case isFalse h => exact .inr rfl

/-- The numeral of a double is proper: the point moves within its shortest digits, and zeros stand
before or behind them only as fillers. -/
theorem isProper_ofBinary64 (x : Binary64) : (ofBinary64 x).IsProper := by
  by_cases hx : x.scaled = 0
  · rw [ofBinary64_of_scaled_eq_zero hx]
    exact ⟨.inl rfl, by simp [IsDigits], by simp⟩
  · obtain ⟨hproper, -⟩ | heq := positional_or_scientific hx
    · exact hproper
    · obtain ⟨-, -, hne, -⟩ := exists_shortest hx
      rw [heq]
      exact isProper_scientific hne

end MetricBoard.Numeral
