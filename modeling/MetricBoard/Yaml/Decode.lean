import MetricBoard.Number.Decimal
import MetricBoard.Yaml.Node

/-!
# Reading fields from YAML

What a node gives to a field of a known type. A text field takes the characters of any scalar, so
that `5` and `null` are texts there; a field that may be absent is absent for nothing at all and for
a plain null. Numbers and truth values have to be plain.
-/

namespace MetricBoard.Yaml.Node

/-- The tag of nulls. -/
def nullTag : String := "tag:yaml.org,2002:null"

/-- A plain spelling of null. -/
def isNullWord (s : String) : Bool := ["null", "Null", "NULL", "~"].contains s

/-- The text of a scalar. -/
def text? : Node → Option String
  | scalar _ _ s => some s
  | _ => none

/-- A value that may be absent. -/
def option? {α : Type} (f : Node → Option α) (n : Node) : Option (Option α) :=
  match n with
  | scalar tag true s =>
    match tag with
    | none => if s = "" ∨ isNullWord s then some none else (f n).map some
    | some t =>
      if t = nullTag then if isNullWord s then some none else none else (f n).map some
  | n => (f n).map some

/-- The truth value of a plain scalar. -/
def bool? : Node → Option Bool
  | scalar _ true s =>
    if ["true", "True", "TRUE"].contains s then some true
    else if ["false", "False", "FALSE"].contains s then some false
    else none
  | _ => none

/-- The value of digits in a base of at most 16. -/
def digits? (base : Nat) (cs : List Char) : Option Nat :=
  if cs.isEmpty then none
  else cs.foldlM (fun n c =>
    (Text.hexDigit? c).bind fun d => if d < base then some (base * n + d) else none) 0

/-- The natural number that a word writes: decimal without zeros in front, or in base 16, 8 or 2
behind a mark; a plus sign may come first. -/
def naturalOf? (s : String) : Option Nat :=
  let cs := match s.toList with
    | '+' :: cs => cs
    | cs => cs
  match cs with
  | '0' :: 'x' :: ds => digits? 16 ds
  | '0' :: 'o' :: ds => digits? 8 ds
  | '0' :: 'b' :: ds => digits? 2 ds
  | '0' :: _ :: _ => none
  | ds => digits? 10 ds

/-- The natural number, up to a limit, of a plain scalar. -/
def natural? (limit : Nat) : Node → Option Nat
  | scalar _ true s => (naturalOf? s).filter (· ≤ limit)
  | _ => none

/-- The items of a sequence; nothing at all is an empty one. -/
def items? : Node → Option (List Node)
  | sequence _ items => some items
  | scalar _ true "" => some []
  | _ => none

/-- The word that a scalar is, or that its tag is when nothing stands behind the tag. -/
def tagWord? : Node → Option String
  | scalar (some t) plain s =>
    match t.toList with
    | '!' :: cs => if plain && (s == "" || isNullWord s) then some (String.ofList cs) else none
    | _ => some s
  | scalar none _ s => some s
  | _ => none

/-- The fields of a mapping, each under one of its names. A key that names no field is skipped; two
keys for one field are refused. Nothing at all has no fields. -/
def fields? (names : List (List String)) : Node → Option (List (Option Node))
  | mapping _ pairs => do
    let keyed ← pairs.mapM fun p => p.1.text?.map fun key => (key, p.2)
    names.mapM fun spellings =>
      match keyed.filter fun p => spellings.contains p.1 with
      | [] => some none
      | [p] => some (some p.2)
      | _ => none
  | scalar _ true "" => some (names.map fun _ => none)
  | _ => none

/-- A field read from its node, or a value for when it is missing. -/
def fieldOr {α : Type} (default : α) (f : Node → Option α) : Option Node → Option α
  | none => some default
  | some n => f n

end MetricBoard.Yaml.Node
