import MetricBoard.Number.Decimal

/-!
# The shortest decimal of a double

`Binary64.shortest` gives the decimal with the fewest digits that reads back as a given finite
number, and of those the one nearest to it. The digits are found on grids of 1, 2, … 17 digits:
on each, the two neighbours of the number are tried by reading them back. A number for which all
grids failed would be written exactly, as a multiple of `2 ^ -1074`.
-/

namespace MetricBoard.Binary64

/-- The exponent of a power of ten that `num / den` does not exceed, while it exceeds a tenth of
it. -/
def leadingPlace (num den : Nat) : Int :=
  if den ≤ num then Decimal.digitCount (num / den)
  else 1 - Decimal.digitCount (den / num)

/-- The two neighbours of `num / den` among the multiples of a power of ten, the nearer first. -/
def neighbours (negative : Bool) (num den : Nat) (exponent : Int) : List Decimal :=
  let (n, d) := match exponent with
    | .ofNat e => (num, den * tenTo e)
    | .negSucc e => (num * tenTo (e + 1), den)
  let low := n / d
  let lower : Decimal := ⟨negative, low, exponent⟩
  let upper : Decimal := ⟨negative, low + 1, exponent⟩
  if 2 * (n % d) < d ∨ (2 * (n % d) = d ∧ low % 2 = 0) then [lower, upper] else [upper, lower]

/-- A decimal of at most `count` digits that reads back as the number. -/
def onGrid? (x : Binary64) (count : Nat) : Option Decimal :=
  let num := x.scaled
  let den := twoTo 1074
  (neighbours x.isNegative num den (leadingPlace num den - count)).find? fun d => d.toBinary64 == x

/-- The digits without zeros at their end, and how many those were. -/
def withoutZeros (n : Nat) : Nat × Nat :=
  if h : n ≠ 0 ∧ n % 10 = 0 then
    let r := withoutZeros (n / 10)
    (r.1, r.2 + 1)
  else (n, 0)
termination_by n
decreasing_by exact Nat.div_lt_self (by omega) (by omega)

/-- A finite number as an exact decimal. -/
def exactDecimal (x : Binary64) : Decimal := ⟨x.isNegative, x.scaled * Nat.pow 5 1074, -1074⟩

/-- The shortest decimal that reads back as a finite number. -/
def shortest (x : Binary64) : Decimal :=
  if x.scaled = 0 then ⟨x.isNegative, 0, 0⟩
  else
    let d := ((List.range 17).findSome? fun k => x.onGrid? (k + 1)).getD x.exactDecimal
    let r := withoutZeros d.digits
    ⟨d.negative, r.1, d.exponent + r.2⟩

end MetricBoard.Binary64
