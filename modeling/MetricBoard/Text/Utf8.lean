/-!
# UTF-8

The characters that bytes encode. Bytes that encode none are taken in the longest stretches that
some encoding could begin with, and of a single byte where there is none; each stretch counts as one
fault.
-/

namespace MetricBoard.Text

/-- Whether a byte goes on an encoding. -/
def isContinuation (b : UInt8) : Bool := 0x80 ≤ b && b ≤ 0xbf

/-- Whether a byte may come second in an encoding of three bytes. -/
def isSecondOfThree (first second : UInt8) : Bool :=
  if first = 0xe0 then 0xa0 ≤ second && second ≤ 0xbf
  else if first = 0xed then 0x80 ≤ second && second ≤ 0x9f
  else isContinuation second

/-- Whether a byte may come second in an encoding of four bytes. -/
def isSecondOfFour (first second : UInt8) : Bool :=
  if first = 0xf0 then 0x90 ≤ second && second ≤ 0xbf
  else if first = 0xf4 then 0x80 ≤ second && second ≤ 0x8f
  else isContinuation second

/-- The character of a first byte's payload and those of the bytes after it. -/
def ofPayload (lead : Nat) (rest : List UInt8) : Char :=
  Char.ofNat (rest.foldl (fun n b => 64 * n + b.toNat % 64) lead)

/-- The characters that bytes encode, with nothing for each fault. -/
def decodeUtf8 : List UInt8 → List (Option Char)
  | [] => []
  | a :: as =>
    if a < 0x80 then some (Char.ofNat a.toNat) :: decodeUtf8 as
    else if 0xc2 ≤ a ∧ a ≤ 0xdf then
      match as with
      | b :: bs =>
        if isContinuation b then some (ofPayload (a.toNat % 32) [b]) :: decodeUtf8 bs
        else none :: decodeUtf8 (b :: bs)
      | [] => [none]
    else if 0xe0 ≤ a ∧ a ≤ 0xef then
      match as with
      | b :: bs =>
        if isSecondOfThree a b then
          match bs with
          | c :: cs =>
            if isContinuation c then some (ofPayload (a.toNat % 16) [b, c]) :: decodeUtf8 cs
            else none :: decodeUtf8 (c :: cs)
          | [] => [none]
        else none :: decodeUtf8 (b :: bs)
      | [] => [none]
    else if 0xf0 ≤ a ∧ a ≤ 0xf4 then
      match as with
      | b :: bs =>
        if isSecondOfFour a b then
          match bs with
          | c :: cs =>
            if isContinuation c then
              match cs with
              | d :: ds =>
                if isContinuation d then
                  some (ofPayload (a.toNat % 8) [b, c, d]) :: decodeUtf8 ds
                else none :: decodeUtf8 (d :: ds)
              | [] => [none]
            else none :: decodeUtf8 (c :: cs)
          | [] => [none]
        else none :: decodeUtf8 (b :: bs)
      | [] => [none]
    else none :: decodeUtf8 as

/-- The text that bytes encode without a fault. -/
def ofUtf8? (bytes : List UInt8) : Option String :=
  ((decodeUtf8 bytes).mapM id).map String.ofList

/-- The text that bytes encode, with U+FFFD for each fault. -/
def ofUtf8Lossy (bytes : List UInt8) : String :=
  String.ofList ((decodeUtf8 bytes).map fun c => c.getD '\ufffd')

end MetricBoard.Text
