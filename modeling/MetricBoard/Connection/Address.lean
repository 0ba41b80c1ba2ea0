import MetricBoard.Text.Ascii
import MetricBoard.Text.Split

/-!
# Network addresses

The one text of a network address. An address of eight groups may be written in several ways: with
a run of zero groups left out, with zeros in front of a group, in capitals, or with its last two
groups as four decimal bytes. Its one text has no zeros in front and no capitals, and leaves out
the first of the longest runs of at least two zero groups.
-/

namespace MetricBoard.Address

/-- The value of one to four hexadecimal digits. -/
def group? (cs : List Char) : Option Nat :=
  if cs.isEmpty || 4 < cs.length then none
  else (cs.mapM Text.hexDigit?).map fun ds => ds.foldl (fun n d => 16 * n + d) 0

/-- The value of a decimal byte without zeros in front. -/
def byte? (cs : List Char) : Option Nat :=
  let n := cs.foldl (fun n c => 10 * n + (c.toNat - '0'.toNat)) 0
  if cs.isEmpty || 3 < cs.length || !cs.all Char.isDigit || n > 255 then none
  else if cs.head? == some '0' && cs.length > 1 then none
  else some n

/-- The two groups of four bytes between dots. -/
def dotted? (cs : List Char) : Option (List Nat) :=
  match (Text.split '.' cs).mapM byte? with
  | some [a, b, c, d] => some [256 * a + b, 256 * c + d]
  | _ => none

/-- The groups between colons; only the last part may be four bytes. -/
def groupsOf? : List (List Char) → Option (List Nat)
  | [] => some []
  | [part] => ((group? part).map fun n => [n]).or (dotted? part)
  | part :: parts => do return (← group? part) :: (← groupsOf? parts)

/-- The groups on one side of the place where a run of zeros is left out. -/
def side? (cs : List Char) : Option (List Nat) :=
  if cs.isEmpty then some [] else groupsOf? (Text.split ':' cs)

/-- A text before and after two colons in a row. -/
def atGap? : List Char → Option (List Char × List Char)
  | [] => none
  | ':' :: ':' :: cs => some ([], cs)
  | c :: cs => (atGap? cs).map fun p => (c :: p.1, p.2)

/-- The eight groups that a text writes. -/
def groups? (s : String) : Option (List Nat) :=
  match atGap? s.toList with
  | some (before, after) => do
    let left ← side? before
    let right ← side? after
    let missing := 8 - (left.length + right.length)
    if before.contains '.' || missing = 0 then none
    else return left ++ List.replicate missing 0 ++ right
  | none => (groupsOf? (Text.split ':' s.toList)).filter (·.length == 8)

/-- The length of the run of zeros that a list begins with. -/
def zeros (ns : List Nat) : Nat := (ns.takeWhile (· == 0)).length

/-- Where the first of the longest runs of zeros begins, and its length. -/
def longestRun : List Nat → Nat × Nat
  | [] => (0, 0)
  | n :: ns =>
    let (place, length) := longestRun ns
    if length ≤ zeros (n :: ns) then (0, zeros (n :: ns)) else (place + 1, length)

/-- Groups in hexadecimal, between colons. -/
def hexText (ns : List Nat) : List Char := Text.join [':'] (ns.map (Nat.toDigits 16))

/-- The text of eight groups. -/
def textOf (ns : List Nat) : String :=
  match ns with
  | [0, 0, 0, 0, 0, 0xffff, a, b] =>
    "::ffff:" ++ ".".intercalate ([a / 256, a % 256, b / 256, b % 256].map Nat.repr)
  | ns =>
    let (place, length) := longestRun ns
    String.ofList <|
      if length < 2 then hexText ns
      else hexText (ns.take place) ++ [':', ':'] ++ hexText (ns.drop (place + length))

/-- The text of an address with a port. Groups are put in brackets. -/
def withPort (host : String) (port : Nat) : String :=
  let name :=
    if host.toList.contains ':' then "[" ++ ((groups? host).map textOf).getD host ++ "]" else host
  name ++ ":" ++ Nat.repr port

end MetricBoard.Address
