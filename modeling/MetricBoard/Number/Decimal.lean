import MetricBoard.Number.Binary64
import MetricBoard.Text.Ascii

/-!
# Decimal numbers as text

`Binary64.ofText?` reads a number: an optional sign, digits with an optional point and at least
one digit beside it, and an optional exponent; or a word for infinity or NaN. The result is the
double nearest to the number that is written, however long it is.
-/

namespace MetricBoard

/-- The number `digits * 10 ^ exponent`, with a sign. -/
structure Decimal where
  negative : Bool
  digits : Nat
  exponent : Int
  deriving DecidableEq, Repr

namespace Decimal

/-- The value of a row of digits. -/
def digitsValue (ds : List Char) : Nat := ds.foldl (fun n c => 10 * n + (c.toNat - '0'.toNat)) 0

/-- The number of decimal digits of a natural number, 0 for zero. -/
def digitCount (n : Nat) : Nat := if n = 0 then 0 else (Nat.toDigits 10 n).length

/-- The nearest double. Beyond a thousand places on either side of the point the answer is
infinity or zero, so that no power of ten larger than that is formed. -/
def toBinary64 (d : Decimal) : Binary64 :=
  let leading := d.exponent + digitCount d.digits
  if d.digits = 0 ∨ leading < -1000 then .ofMagnitude d.negative 0
  else if 1000 < leading then .infinity d.negative
  else
    match d.exponent with
    | .ofNat e => .round d.negative (d.digits * tenTo e * twoTo 1074) 1
    | .negSucc e => .round d.negative (d.digits * twoTo 1074) (tenTo (e + 1))

/-- The exponent that a text writes behind `e` or `E`; a text that is empty writes 0. -/
def exponentOf? : List Char → Option Int
  | [] => some 0
  | e :: cs =>
    if e = 'e' ∨ e = 'E' then
      match cs with
      | '-' :: ds => if ds ≠ [] ∧ ds.all Char.isDigit then some (-(digitsValue ds : Int)) else none
      | '+' :: ds => if ds ≠ [] ∧ ds.all Char.isDigit then some (digitsValue ds) else none
      | ds => if ds ≠ [] ∧ ds.all Char.isDigit then some (digitsValue ds) else none
    else none

/-- The fraction that a text goes on with, and what follows it. -/
def fractionOf : List Char → List Char × List Char
  | '.' :: cs => (cs.takeWhile Char.isDigit, cs.dropWhile Char.isDigit)
  | cs => ([], cs)

/-- The number that a text without sign writes. -/
def ofUnsigned? (negative : Bool) (cs : List Char) : Option Decimal :=
  let whole := cs.takeWhile Char.isDigit
  let (fraction, rest) := fractionOf (cs.dropWhile Char.isDigit)
  if whole = [] ∧ fraction = [] then none
  else (exponentOf? rest).map fun e =>
    ⟨negative, digitsValue (whole ++ fraction), e - fraction.length⟩

end Decimal

namespace Binary64

/-- The number that a text without sign writes, words for infinity and NaN included. -/
def ofUnsigned? (negative : Bool) (cs : List Char) : Option Binary64 :=
  match Text.lower (String.ofList cs) with
  | "inf" | "infinity" => some (infinity negative)
  | "nan" => some (nan negative)
  | _ => (Decimal.ofUnsigned? negative cs).map Decimal.toBinary64

/-- The number that a text writes. -/
def ofText? (s : String) : Option Binary64 :=
  match s.toList with
  | '-' :: cs => ofUnsigned? true cs
  | '+' :: cs => ofUnsigned? false cs
  | cs => ofUnsigned? false cs

end Binary64

end MetricBoard
