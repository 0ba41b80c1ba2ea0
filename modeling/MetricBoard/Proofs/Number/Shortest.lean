import Mathlib.Algebra.Order.Field.Basic
import Mathlib.Data.Rat.Cast.Order
import MetricBoard.Number.Shortest

/-!
# The shortest decimal of a double

Every decimal that `Binary64.shortest` gives is one that reads back as the number or is the number
written out, less the zeros at its end (`exists_shortest`); so a number that is not zero has a
first digit that is not zero.
-/

namespace MetricBoard

theorem exists_toDigits {n : Nat} (h : n ≠ 0) : ∃ d ds, Nat.toDigits 10 n = d :: ds ∧ d ≠ '0' := by
  induction n using Nat.strongRecOn with
  | _ n ih =>
    rw [Nat.toDigits_eq_if (by decide)]
    by_cases hn : n < 10
    · rw [if_pos hn]
      have hdigit : ∀ m < 10, m ≠ 0 → Nat.digitChar m ≠ '0' := by decide
      exact ⟨_, [], rfl, hdigit n hn h⟩
    · rw [if_neg hn]
      obtain ⟨d, ds, hds, hd⟩ := ih (n / 10) (by omega) (by omega)
      exact ⟨d, ds ++ [(n % 10).digitChar], by rw [hds, List.cons_append], hd⟩

/-- What a decimal stands for, but for its sign. -/
def Decimal.value (d : Decimal) : ℚ := d.digits * 10 ^ d.exponent

namespace Binary64

theorem withoutZeros_ne_zero {n : Nat} (h : n ≠ 0) : (withoutZeros n).1 ≠ 0 := by
  fun_induction withoutZeros n with
  | case1 n hn r ih => exact ih (by omega)
  | case2 n hn => exact h

theorem withoutZeros_mul (n : Nat) : (withoutZeros n).1 * 10 ^ (withoutZeros n).2 = n := by
  fun_induction withoutZeros n with
  | case1 n hn r ih =>
    rw [pow_succ, ← mul_assoc, ih]
    omega
  | case2 n hn => simp

theorem scaled_ofMagnitude_zero (negative : Bool) : (ofMagnitude negative 0).scaled = 0 := by
  cases negative <;> decide

variable {x : Binary64}

theorem digits_ne_zero_of_toBinary64 {d : Decimal} (h : d.toBinary64 = x) (hx : x.scaled ≠ 0) :
    d.digits ≠ 0 := by
  rintro hzero
  rw [Decimal.toBinary64, if_pos (.inl hzero)] at h
  exact hx (h ▸ scaled_ofMagnitude_zero _)

/-- **The shortest decimal.** It stands for one that reads back as the number, or for the number
exactly. -/
theorem exists_shortest (hx : x.scaled ≠ 0) :
    ∃ d : Decimal, (d.toBinary64 = x ∨ d = x.exactDecimal) ∧ x.shortest.digits ≠ 0 ∧
      x.shortest.value = d.value := by
  have hfound : ∀ d, ((List.range 17).findSome? fun k => x.onGrid? (k + 1)) = some d →
      d.toBinary64 = x := by
    intro d hd
    obtain ⟨k, -, hk⟩ := List.exists_of_findSome?_eq_some hd
    simpa using List.find?_some hk
  obtain ⟨d, hd, hor⟩ : ∃ d, ((List.range 17).findSome? fun k => x.onGrid? (k + 1)).getD
      x.exactDecimal = d ∧ (d.toBinary64 = x ∨ d = x.exactDecimal) := by
    cases h : (List.range 17).findSome? fun k => x.onGrid? (k + 1) with
    | none => exact ⟨_, rfl, .inr rfl⟩
    | some d => exact ⟨d, rfl, .inl (hfound d h)⟩
  have hfive : ∀ n, Nat.pow 5 n ≠ 0 := fun n => pow_ne_zero n (by decide)
  have hne : d.digits ≠ 0 := by
    obtain h | rfl := hor
    · exact digits_ne_zero_of_toBinary64 h hx
    · exact Nat.mul_ne_zero hx (hfive 1074)
  refine ⟨d, hor, ?_, ?_⟩
  · rw [shortest, if_neg hx, hd]
    exact withoutZeros_ne_zero hne
  · rw [shortest, if_neg hx, hd]
    have hmul := withoutZeros_mul d.digits
    simp only [Decimal.value]
    conv_rhs => rw [← hmul]
    rw [add_comm d.exponent, zpow_add₀ (by norm_num), zpow_natCast]
    rw [Nat.cast_mul, Nat.cast_pow, Nat.cast_ofNat, mul_assoc]

end Binary64

end MetricBoard
