import MetricBoard.Number.Shortest

/-!
# JSON values

A value keeps a number as it is written, since whether it is in range and what it rounds to is
asked only of numbers that are used. In the same way a text keeps to itself that one of its escapes
is half a surrogate pair: it is `none` then, which only matters where the text is used.
-/

namespace MetricBoard

/-- A number as written: digits with an optional fraction and an optional exponent. -/
structure Numeral where
  negative : Bool
  whole : List Char
  /-- The digits behind the point; none without a point. -/
  fraction : List Char
  /-- The exponent's sign and digits. -/
  exponent : Option (Bool × List Char)
  deriving DecidableEq, Repr

/-- A JSON value. -/
inductive Json where
  | null
  | bool (b : Bool)
  | number (n : Numeral)
  | string (s : Option String)
  | array (items : List Json)
  | object (members : List (Option String × Json))
  deriving Repr

namespace Numeral

/-- The largest significand that is kept while digits are read. -/
def maxSignificand : Nat := twoTo 64 - 1

/-- Reads digits while the significand stays in range: the significand, and how many digits were
read. -/
def readDigits (significand : Nat) : List Char → Nat × Nat
  | [] => (significand, 0)
  | d :: ds =>
    let next := 10 * significand + (d.toNat - '0'.toNat)
    if next ≤ maxSignificand then
      let r := readDigits next ds
      (r.1, r.2 + 1)
    else (significand, 0)

/-- The double nearest to a power of ten. -/
def power (exponent : Nat) : Binary64 := Decimal.toBinary64 ⟨false, 1, exponent⟩

/-- The number times a power of ten, rounded at each of at most two steps; nothing beyond the
range. The number is below `2 ^ 64`, so two steps down by `10 ^ 308` leave nothing of it. -/
def scaleByPower? (x : Binary64) (exponent : Int) : Option Binary64 :=
  if x.scaled = 0 then some x
  else if 308 < exponent then none
  else if 0 ≤ exponent then
    let y := x.mul (power exponent.toNat)
    if y.isFinite then some y else none
  else if -308 ≤ exponent then some (x.div (power (-exponent).toNat))
  else if -616 ≤ exponent then
    some ((x.div (power 308)).div (power (-(exponent + 308)).toNat))
  else some .zero

/-- The largest exponent that is read digit by digit. -/
def maxExponent : Nat := twoTo 31 - 1

/-- The double that a numeral stands for: the first digits that fit 64 bits, rounded, then scaled by
the power of ten. This is not always the nearest double to what is written. -/
def toBinary64? (n : Numeral) : Option Binary64 :=
  let (head, taken) := readDigits 0 n.whole
  let (significand, behind) := readDigits head n.fraction
  let start : Int := (n.whole.length - taken : Nat) - (behind : Int)
  let signed (x : Binary64) : Binary64 := if n.negative then x.neg else x
  let value? : Option Binary64 :=
    match n.exponent with
    | none => scaleByPower? (.ofNat significand) start
    | some (down, ds) =>
      let e := Decimal.digitsValue ds
      if maxExponent < e then if significand = 0 ∨ down then some .zero else none
      else scaleByPower? (.ofNat significand) (start + if down then -(e : Int) else e)
  value?.map signed

/-- The natural number below `2 ^ 64` that a numeral without sign, fraction and exponent stands
for. -/
def toWord? (n : Numeral) : Option Nat :=
  let value := Decimal.digitsValue n.whole
  if n.negative = false ∧ n.fraction = [] ∧ n.exponent = none ∧ value < twoTo 64 then some value
  else none

/-- The numeral of a natural number. -/
def ofNat (n : Nat) : Numeral := ⟨false, Nat.toDigits 10 n, [], none⟩

/-- The numeral of a finite double: its shortest digits, positional while the point is at most 16
places right of the first digit and fewer than five zeros stand behind it, and otherwise with an
exponent. -/
def ofBinary64 (x : Binary64) : Numeral :=
  let d := x.shortest
  let ds := Nat.toDigits 10 d.digits
  let point := ds.length + d.exponent
  if 0 ≤ d.exponent ∧ point ≤ 16 then
    ⟨d.negative, ds ++ List.replicate d.exponent.toNat '0', ['0'], none⟩
  else if 0 < point ∧ point ≤ 16 then
    ⟨d.negative, ds.take point.toNat, ds.drop point.toNat, none⟩
  else if -5 < point ∧ point ≤ 0 then
    ⟨d.negative, ['0'], List.replicate (-point).toNat '0' ++ ds, none⟩
  else
    ⟨d.negative, ds.take 1, ds.drop 1, some (point - 1 < 0, Nat.toDigits 10 (point - 1).natAbs)⟩

end Numeral

namespace Json

/-- A text. -/
def text (s : String) : Json := string (some s)

/-- A finite number, and null for any other. -/
def float (x : Binary64) : Json := if x.isFinite then number (.ofBinary64 x) else null

/-- A natural number. -/
def nat (n : Nat) : Json := number (.ofNat n)

/-- A value that may be missing, null for none. -/
def ofOption {α : Type} (f : α → Json) : Option α → Json
  | some a => f a
  | none => null

/-- An object with given members. -/
def ofMembers (members : List (String × Json)) : Json :=
  object (members.map fun m => (some m.1, m.2))

/-- A value that may be missing: null for none. -/
def option? {α : Type} (f : Json → Option α) : Json → Option (Option α)
  | null => some none
  | v => (f v).map some

/-- The text that a value is. -/
def text? : Json → Option String
  | string s => s
  | _ => none

/-- The truth value that a value is. -/
def bool? : Json → Option Bool
  | bool b => some b
  | _ => none

/-- The double that a value is. -/
def float? : Json → Option Binary64
  | number n => n.toBinary64?
  | _ => none

/-- The natural number below `2 ^ 64` that a value is. -/
def word? : Json → Option Nat
  | number n => n.toWord?
  | _ => none

/-- The list that a value is, with each item read. -/
def list? {α : Type} (f : Json → Option α) : Json → Option (List α)
  | array items => items.mapM f
  | _ => none

/-- The word that a value is, alone or as the one key of an object whose value is null. -/
def tag? : Json → Option String
  | string s => s
  | object [(key, null)] => key
  | _ => none

/-- The fields of a record, read from an object by name or from an array by position. A name that
is unknown is skipped; a known one may come once only, and an array has no more items than there
are names. -/
def fields? (names : List String) : Json → Option (List (Option Json))
  | object members => do
    let keyed ← members.mapM fun m => m.1.map fun key => (key, m.2)
    names.mapM fun name =>
      match keyed.filter fun m => m.1 == name with
      | [] => some none
      | [m] => some (some m.2)
      | _ => none
  | array items =>
    if items.length ≤ names.length then
      some (items.map some ++ List.replicate (names.length - items.length) none)
    else none
  | _ => none

end Json

end MetricBoard
