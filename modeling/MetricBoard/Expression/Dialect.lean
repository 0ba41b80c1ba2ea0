import MetricBoard.Expression.Keyword
import MetricBoard.Expression.Query
import MetricBoard.Expression.Reason

/-!
# Writing a query for a server

A query is written in two steps: `Query.pieces` gives its tokens and the spaces between them, and
`Piece.text` spells them out. Nothing is put into parentheses that the tree does not hold, except
a negation under a negation, whose two signs would start a comment.
-/

namespace MetricBoard.Expression

/-- The schema of an unqualified table on the relational server. -/
def defaultSchema : String := "dbo"

/-- The two dialects of SQL. -/
inductive Dialect where
  /-- T-SQL, where every table is qualified and read without locks. -/
  | tsql (defaultSchema : String)
  /-- The file database's SQL, which has neither schemas nor lock hints. -/
  | access
  deriving DecidableEq, Repr

/-- A token, or the space between two. -/
inductive Piece where
  | token (t : Token)
  | space
  deriving DecidableEq, Repr

namespace Piece

/-- How a piece is written. -/
def spelling : Piece → List Char
  | token t => t.spelling
  | space => [' ']

/-- How a row of pieces is written. -/
def text (ps : List Piece) : List Char := ps.flatMap spelling

/-- A bare word. -/
def word (w : String) : Piece := token (.word w)

/-- Rows of pieces with a comma and a space between each two. -/
def commaSeparated : List (List Piece) → List Piece
  | [] => []
  | [ps] => ps
  | ps :: rest => ps ++ [token .comma, space] ++ commaSeparated rest

/-- A call of a function. -/
def call (name : String) (args : List (List Piece)) : List Piece :=
  [word name, token .lparen] ++ commaSeparated args ++ [token .rparen]

/-- A call of a function whose first argument is a date unit. -/
def unitCall (name : String) (unit : Token) (args : List (List Piece)) : List Piece :=
  [word name, token .lparen, token unit, token .comma, space] ++ commaSeparated args ++
    [token .rparen]

end Piece

open Piece

/-- Whether a name can be written bare: a word that is not reserved. -/
def isBareName (name : String) : Bool :=
  match name.toList with
  | c :: cs => Text.isWordStart c && cs.all Text.isWordPart && (Keyword.ofWord? name).isNone
  | [] => false

/-- A part of a column name, in brackets if it cannot be bare. -/
def nameToken (name : String) : Token := if isBareName name then .word name else .quoted name

/-- The parts of a column name with dots between them. -/
def columnPieces : List String → List Piece
  | [] => []
  | [part] => [token (nameToken part)]
  | part :: rest => [token (nameToken part), token .dot] ++ columnPieces rest

namespace DateUnit

/-- The name of a unit in T-SQL. -/
def datePart : DateUnit → String
  | day => "day"
  | week => "week"
  | month => "month"
  | quarter => "quarter"
  | year => "year"

/-- The code of a unit in the file database. -/
def intervalCode : DateUnit → String
  | day => "d"
  | week => "ww"
  | month => "m"
  | quarter => "q"
  | year => "yyyy"

end DateUnit

namespace Dialect

/-- The name of an aggregate. -/
def aggregateName : Dialect → AggregateFunction → String
  | tsql _, .count => "COUNT"
  | tsql _, .sum => "SUM"
  | tsql _, .avg => "AVG"
  | tsql _, .min => "MIN"
  | tsql _, .max => "MAX"
  | access, .count => "Count"
  | access, .sum => "Sum"
  | access, .avg => "Avg"
  | access, .min => "Min"
  | access, .max => "Max"

/-- The table of a query. -/
def tablePieces : Dialect → TableName → List Piece
  | tsql defaultSchema, t =>
    [token (.quoted (t.schema.getD defaultSchema)), token .dot, token (.quoted t.name), space,
      word "WITH", space, token .lparen, word "NOLOCK", token .rparen]
  | access, t => [token (.quoted t.name)]

/-- A date literal: T-SQL has none and takes a text. -/
def dateToken : Dialect → String → Token
  | tsql _, d => .text d
  | access, d => .date d

/-- The sign of an operator. -/
def operatorToken (d : Dialect) : BinaryOp → Token
  | .add => .plus
  | .sub => .minus
  | .mul => .star
  | .div => .slash
  | .mod =>
    match d with
    | tsql _ => .percent
    | access => .word "Mod"
  | .eq => .eq
  | .ne => .ne
  | .lt => .lt
  | .le => .le
  | .gt => .gt
  | .ge => .ge
  | .and => .word "AND"
  | .or => .word "OR"

/-- A call with its arguments written already. The file database has no coalesce of two values
and tests the first for null instead; rounding to whole numbers is written out in T-SQL. -/
def callPieces (d : Dialect) (f : Function) (args : List (List Piece)) : List Piece :=
  match d, f, args with
  | tsql _, .now, _ => Piece.call "GETDATE" []
  | tsql _, .dateAdd u, args => Piece.unitCall "DATEADD" (.word u.datePart) args
  | tsql _, .dateDiff u, args => Piece.unitCall "DATEDIFF" (.word u.datePart) args
  | tsql _, .month, args => Piece.call "MONTH" args
  | tsql _, .year, args => Piece.call "YEAR" args
  | tsql _, .coalesce, args => Piece.call "ISNULL" args
  | tsql _, .iif, args => Piece.call "IIF" args
  | tsql _, .abs, args => Piece.call "ABS" args
  | tsql _, .round, [value] => Piece.call "ROUND" [value, [token (.number "0")]]
  | tsql _, .round, args => Piece.call "ROUND" args
  | access, .now, _ => Piece.call "Date" []
  | access, .dateAdd u, args => Piece.unitCall "DateAdd" (.text u.intervalCode) args
  | access, .dateDiff u, args => Piece.unitCall "DateDiff" (.text u.intervalCode) args
  | access, .month, args => Piece.call "Month" args
  | access, .year, args => Piece.call "Year" args
  | access, .coalesce, [value, fallback] =>
    Piece.call "IIf" [Piece.call "IsNull" [value], fallback, value]
  | access, .coalesce, args => Piece.call "Nz" args
  | access, .iif, args => Piece.call "IIf" args
  | access, .abs, args => Piece.call "Abs" args
  | access, .round, args => Piece.call "Round" args

end Dialect

/-- NOT before a predicate's keyword. -/
def notPieces (negated : Bool) : List Piece := if negated then [word "NOT", space] else []

/-- A minus sign before an operand. -/
def negPieces (operand : List Piece) : List Piece :=
  if (Piece.text operand).head? = some '-' then
    [token .minus, token .lparen] ++ operand ++ [token .rparen]
  else token .minus :: operand

mutual

/-- How a scalar expression is written. -/
def Expr.pieces (d : Dialect) : Expr → List Piece
  | .column parts => columnPieces parts
  | .number n => [token (.number n)]
  | .text s => [token (.text s)]
  | .date s => [token (d.dateToken s)]
  | .null => [word "NULL"]
  | .call f args => d.callPieces f (Expr.piecesOfAll d args)
  | .unary .neg e => negPieces (Expr.pieces d e)
  | .unary .not e => [word "NOT", space] ++ Expr.pieces d e
  | .binary op l r =>
    Expr.pieces d l ++ [space, token (d.operatorToken op), space] ++ Expr.pieces d r
  | .isNull negated e =>
    Expr.pieces d e ++ [space, word "IS", space] ++ notPieces negated ++ [word "NULL"]
  | .between negated e low high =>
    Expr.pieces d e ++ [space] ++ notPieces negated ++ [word "BETWEEN", space] ++
      Expr.pieces d low ++ [space, word "AND", space] ++ Expr.pieces d high
  | .inList negated e items =>
    Expr.pieces d e ++ [space] ++ notPieces negated ++ [word "IN", space, token .lparen] ++
      commaSeparated (Expr.piecesOfAll d items) ++ [token .rparen]
  | .like negated e pattern =>
    Expr.pieces d e ++ [space] ++ notPieces negated ++ [word "LIKE", space] ++ Expr.pieces d pattern
  | .nested e => token .lparen :: Expr.pieces d e ++ [token .rparen]

/-- How each of some expressions is written. -/
def Expr.piecesOfAll (d : Dialect) : List Expr → List (List Piece)
  | [] => []
  | e :: es => Expr.pieces d e :: Expr.piecesOfAll d es

end

/-- How the argument of an aggregate is written. -/
def Argument.pieces (d : Dialect) : Argument → List Piece
  | .star => [token .star]
  | .expr e => e.pieces d

/-- How an aggregate is written. -/
def Aggregate.pieces (d : Dialect) (a : Aggregate) : List Piece :=
  [word (d.aggregateName a.function), token .lparen] ++
    (if a.distinct then [word "DISTINCT", space] else []) ++ a.argument.pieces d ++ [token .rparen]

/-- The name that every query gives its result column. -/
def resultColumn : String := "value"

/-- How a query is written. -/
def Query.pieces (d : Dialect) (q : Query) : List Piece :=
  [word "SELECT", space] ++ q.aggregate.pieces d ++
    [space, word "AS", space, word resultColumn, space, word "FROM", space] ++
    d.tablePieces q.table ++
    match q.filter with
    | none => []
    | some e => [space, word "WHERE", space] ++ e.pieces d

/-- The text of a query for a server. The file database has no DISTINCT in an aggregate. -/
def Query.sql (d : Dialect) (q : Query) : Except Rejection String :=
  if d = .access ∧ q.aggregate.distinct then
    .error ⟨String.ofList (Piece.text (q.aggregate.pieces d)), .distinct⟩
  else .ok (String.ofList (Piece.text (q.pieces d)))

end MetricBoard.Expression
