import MetricBoard.Expression.Token
import MetricBoard.Text.Ascii

/-!
# Keywords

The reserved words of the expression language. A reserved word is no bare name; written in
brackets or quotes it is a name like any other. The two lock hints are not reserved.
-/

namespace MetricBoard.Expression

/-- The reserved words. -/
inductive Keyword where
  | select
  | from_
  | where_
  | and
  | or
  | not
  | is
  | null
  | between
  | in_
  | like
  | as
  | with_
  | distinct
  | join
  | inner
  | outer
  | left
  | right
  | full
  | cross
  | on
  | group
  | order
  | by_
  | having
  | union
  | top
  | into
  | case
  | when
  | then_
  | else_
  | end_
  | exists_
  | all
  | any
  | mod
  | currentTimestamp
  deriving DecidableEq, Repr

namespace Keyword

/-- A keyword in capitals. -/
def spelling : Keyword → String
  | select => "SELECT"
  | from_ => "FROM"
  | where_ => "WHERE"
  | and => "AND"
  | or => "OR"
  | not => "NOT"
  | is => "IS"
  | null => "NULL"
  | between => "BETWEEN"
  | in_ => "IN"
  | like => "LIKE"
  | as => "AS"
  | with_ => "WITH"
  | distinct => "DISTINCT"
  | join => "JOIN"
  | inner => "INNER"
  | outer => "OUTER"
  | left => "LEFT"
  | right => "RIGHT"
  | full => "FULL"
  | cross => "CROSS"
  | on => "ON"
  | group => "GROUP"
  | order => "ORDER"
  | by_ => "BY"
  | having => "HAVING"
  | union => "UNION"
  | top => "TOP"
  | into => "INTO"
  | case => "CASE"
  | when => "WHEN"
  | then_ => "THEN"
  | else_ => "ELSE"
  | end_ => "END"
  | exists_ => "EXISTS"
  | all => "ALL"
  | any => "ANY"
  | mod => "MOD"
  | currentTimestamp => "CURRENT_TIMESTAMP"

/-- Every keyword. -/
def every : List Keyword :=
  [select, from_, where_, and, or, not, is, null, between, in_, like, as, with_, distinct, join,
    inner, outer, left, right, full, cross, on, group, order, by_, having, union, top, into, case,
    when, then_, else_, end_, exists_, all, any, mod, currentTimestamp]

theorem mem_every (k : Keyword) : k ∈ every := by
  cases k <;> decide

/-- The keyword that a word spells, in any case of its letters. -/
def ofWord? (word : String) : Option Keyword :=
  every.find? fun k => k.spelling == Text.upper word

theorem ofWord?_eq_some {word : String} {k : Keyword} (h : Text.upper word = k.spelling) :
    ofWord? word = some k := by
  rw [ofWord?, h]
  cases k <;> rfl

theorem ofWord?_ne {word : String} {k : Keyword}
    (h : k.spelling ≠ String.ofList (word.toList.map Char.toUpper)) : ofWord? word ≠ some k := by
  intro hk
  rw [ofWord?] at hk
  have hspelling := List.find?_some hk
  exact h ((eq_of_beq hspelling).trans (Text.upper_eq_ofList word))

theorem ofWord?_eq_none {word : String}
    (h : ∀ k ∈ every, k.spelling ≠ String.ofList (word.toList.map Char.toUpper)) :
    ofWord? word = none :=
  Option.eq_none_iff_forall_ne_some.2 fun k => ofWord?_ne (h k (mem_every k))

end Keyword

/-- The words that a table hint may hold. -/
def lockHints : List String := ["NOLOCK", "READUNCOMMITTED"]

namespace Token

/-- The keyword that a token is. -/
def keyword? : Token → Option Keyword
  | word w => Keyword.ofWord? w
  | _ => none

/-- The name that a token is: a quoted one, or a bare word that is not reserved. -/
def name? : Token → Option String
  | quoted name => some name
  | word w => if (Keyword.ofWord? w).isNone then some w else none
  | _ => none

theorem name?_word {w : String}
    (h : ∀ k ∈ Keyword.every, k.spelling ≠ String.ofList (w.toList.map Char.toUpper)) :
    (word w).name? = some w := by
  rw [name?, Keyword.ofWord?_eq_none h]
  rfl

/-- A bare word that is a lock hint. -/
def isLockHint : Token → Bool
  | word w => lockHints.contains (Text.upper w)
  | _ => false

end Token

end MetricBoard.Expression
