import MetricBoard.Text.Ascii
import MetricBoard.Text.Blank

/-!
# Why an expression is rejected

A `Reason` is a cause, a `Fault` says where in the source it lies, and a `Rejection` is what a
user sees: the source from that place on, cut to 48 characters, and the reason's wording.
-/

namespace MetricBoard.Expression

/-- What stands between an expression and its query. -/
inductive Reason where
  /-- A `--` or `/*` outside a literal. -/
  | comment
  /-- A `;`. -/
  | separator
  /-- An `@`. -/
  | serverVariable
  /-- A character that starts no token. -/
  | strayCharacter
  /-- A delimiter without its closing partner. -/
  | unterminated
  /-- No token at all. -/
  | empty
  | top
  | aggregateExpected
  | openAfterAggregate
  | starOutsideCount
  | closeAfterAggregate
  | aliasExpected
  | manyItems
  | fromExpected
  | tableExpected
  | nameAfterDot
  | tableFunction
  | longTableName
  | openAfterWith
  | otherHint
  | closeAfterHints
  | manyTables
  | join
  | grouping
  | trailing
  | nullExpected
  | andExpected
  | openAfterIn
  | closeAfterIn
  | subquery
  | endOfExpression
  | closeExpected
  | caseExpression
  | strayKeyword
  | strayToken
  | longColumnName
  | closeAfterArguments
  | dateInterval
  | datePart
  | nestedAggregate
  | unknownCall
  /-- A DISTINCT aggregate meant for the file database. -/
  | distinct
  deriving DecidableEq, Repr

namespace Reason

/-- The wording of a reason. -/
def text : Reason → String
  | comment => "comments are not allowed"
  | separator => "multiple statements are not allowed"
  | serverVariable => "variables are not allowed"
  | strayCharacter => "unexpected character"
  | unterminated => "unterminated literal or identifier"
  | empty => "expression is empty"
  | top => "TOP is not supported"
  | aggregateExpected => "expected an aggregate function (COUNT, SUM, AVG, MIN, MAX)"
  | openAfterAggregate => "expected ( after aggregate"
  | starOutsideCount => "* is only valid in COUNT(*)"
  | closeAfterAggregate => "expected ) after aggregate argument"
  | aliasExpected => "expected alias after AS"
  | manyItems => "only one select item is supported"
  | fromExpected => "expected FROM"
  | tableExpected => "expected table name"
  | nameAfterDot => "expected identifier after ."
  | tableFunction => "table-valued functions are not supported"
  | longTableName => "three-part table names are not supported"
  | openAfterWith => "expected ( after WITH"
  | otherHint => "only NOLOCK / READUNCOMMITTED table hints are supported"
  | closeAfterHints => "expected ) after table hints"
  | manyTables => "only one table is supported"
  | join => "joins are not supported"
  | grouping => "only a single ungrouped aggregate is supported"
  | trailing => "unexpected trailing input"
  | nullExpected => "expected NULL after IS"
  | andExpected => "expected AND in BETWEEN"
  | openAfterIn => "expected ( after IN"
  | closeAfterIn => "expected ) after IN list"
  | subquery => "subqueries are not supported"
  | endOfExpression => "unexpected end of expression"
  | closeExpected => "expected )"
  | caseExpression => "CASE expressions are not supported"
  | strayKeyword => "unexpected keyword"
  | strayToken => "unexpected token"
  | longColumnName => "column references may have at most two parts"
  | closeAfterArguments => "expected ) after function arguments"
  | dateInterval => "unsupported date interval"
  | datePart => "only month and year date parts are supported"
  | nestedAggregate => "nested aggregates are not supported"
  | unknownCall => "unsupported function or argument count"
  | distinct => "DISTINCT aggregates are not supported by the file database"

end Reason

/-- A place in a source: the byte offset of one of its characters, or its end. -/
inductive Place where
  | byte (offset : Nat)
  | finish
  deriving DecidableEq, Repr

/-- A reason and the place it was met at. -/
structure Fault where
  place : Place
  reason : Reason
  deriving DecidableEq, Repr

/-- An expression refused: the offending text and the reason. -/
structure Rejection where
  fragment : String
  reason : Reason
  deriving DecidableEq, Repr

namespace Rejection

/-- The wording of a rejection. -/
def message (r : Rejection) : String :=
  "unsupported expression near `" ++ r.fragment ++ "`: " ++ r.reason.text

end Rejection

/-- The most characters of a source that a rejection quotes. -/
def fragmentLength : Nat := 48

/-- The source from a place on. -/
def Place.tail (source : List Char) : Place → List Char
  | .byte offset => Text.dropBytes source offset
  | .finish => []

/-- The text a rejection quotes: the source from the place on, cut, without blanks at its end. -/
def Place.fragment (source : String) (p : Place) : String :=
  String.ofList (Text.trimEndChars ((p.tail source.toList).take fragmentLength))

/-- What the user of a source is told of a fault in it. -/
def Fault.rejection (source : String) (f : Fault) : Rejection :=
  ⟨f.place.fragment source, f.reason⟩

end MetricBoard.Expression
