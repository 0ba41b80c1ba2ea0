import MetricBoard.Number.Power

/-!
# Double precision numbers

A metric's value is an IEEE 754 binary64 number, held as its 64 bits so that every statement about
it is one about natural numbers. A finite number is `scaled / 2 ^ 1074` up to its sign. No
arithmetic is done on values; they are only read, compared, rounded and written, and `round`
is the one place where a number is rounded: to nearest, ties to the even significand.
-/

namespace MetricBoard

/-- A binary64 number, by its bits. -/
structure Binary64 where
  bits : UInt64
  deriving DecidableEq, Repr

namespace Binary64

/-- The bits below the sign. -/
def magnitude (x : Binary64) : Nat := x.bits.toNat % twoTo 63

/-- Whether the sign bit is set. -/
def isNegative (x : Binary64) : Bool := twoTo 63 ≤ x.bits.toNat

/-- The magnitude of infinity, above that of every finite number. -/
def infinityMagnitude : Nat := 2047 * twoTo 52

/-- Neither an infinity nor NaN. -/
def isFinite (x : Binary64) : Bool := x.magnitude < infinityMagnitude

/-- The number with given sign and magnitude bits. -/
def ofMagnitude (negative : Bool) (magnitude : Nat) : Binary64 :=
  ⟨UInt64.ofNat (magnitude + if negative then twoTo 63 else 0)⟩

/-- Zero. -/
def zero : Binary64 := ofMagnitude false 0

/-- One. -/
def one : Binary64 := ofMagnitude false (1023 * twoTo 52)

/-- Positive or negative infinity. -/
def infinity (negative : Bool) : Binary64 := ofMagnitude negative infinityMagnitude

/-- A quiet NaN. -/
def nan (negative : Bool) : Binary64 := ofMagnitude negative (infinityMagnitude + twoTo 51)

instance : Inhabited Binary64 := ⟨zero⟩

/-- The absolute value of a finite number, in units of `2 ^ -1074`. -/
def scaled (x : Binary64) : Nat :=
  let exponent := x.magnitude / twoTo 52
  let fraction := x.magnitude % twoTo 52
  if exponent = 0 then fraction else (twoTo 52 + fraction) * twoTo (exponent - 1)

/-- The natural number nearest to a ratio; of two the even one. -/
def nearest (num den : Nat) : Nat :=
  let q := num / den
  let r := num % den
  if 2 * r < den ∨ (2 * r = den ∧ q % 2 = 0) then q else q + 1

/-- The magnitude bits, in a format with a given count of fraction bits, of the number nearest to
a ratio of the format's smallest unit. -/
def roundedMagnitude (fractionBits num den : Nat) : Nat :=
  let power := Nat.log2 (num / den) - fractionBits
  power * twoTo fractionBits + nearest num (den * twoTo power)

/-- The number nearest to `num / den`, in units of `2 ^ -1074`; infinity beyond the range. -/
def round (negative : Bool) (num den : Nat) : Binary64 :=
  ofMagnitude negative (min (roundedMagnitude 52 num den) infinityMagnitude)

/-- The number nearest to a natural number. -/
def ofNat (n : Nat) : Binary64 := round false (n * twoTo 1074) 1

/-- The number nearest to an integer. -/
def ofInt (n : Int) : Binary64 := round (n < 0) (n.natAbs * twoTo 1074) 1

/-- The other sign. -/
def neg (x : Binary64) : Binary64 := ofMagnitude (!x.isNegative) x.magnitude

/-- The rounded product of finite numbers. -/
def mul (x y : Binary64) : Binary64 :=
  round (x.isNegative != y.isNegative) (x.scaled * y.scaled) (twoTo 1074)

/-- The rounded quotient of finite numbers, the second of which is not zero. -/
def div (x y : Binary64) : Binary64 :=
  round (x.isNegative != y.isNegative) (x.scaled * twoTo 1074) y.scaled

/-- A finite number itself, and zero for any other. -/
def finiteOrZero (x : Binary64) : Binary64 := if x.isFinite then x else zero

theorem zero_isFinite : zero.isFinite = true := by decide

theorem finiteOrZero_isFinite (x : Binary64) : x.finiteOrZero.isFinite = true := by
  unfold finiteOrZero
  split
  · assumption
  · exact zero_isFinite

/-- Negative zero is written back as zero; every other number stays. -/
def withoutNegativeZero (x : Binary64) : Binary64 := if x.magnitude = 0 then zero else x

/-- The number after rounding to single precision: 24 significant bits in units of `2 ^ -149`. -/
def toSingle (x : Binary64) : Binary64 :=
  if x.isFinite then
    let m := roundedMagnitude 23 x.scaled (twoTo 925)
    if 255 * twoTo 23 ≤ m then infinity x.isNegative
    else
      let exponent := m / twoTo 23
      let significand :=
        if exponent = 0 then m else (twoTo 23 + m % twoTo 23) * twoTo (exponent - 1)
      round x.isNegative (significand * twoTo 925) 1
  else x

end Binary64

end MetricBoard
