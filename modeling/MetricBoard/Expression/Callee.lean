import MetricBoard.Expression.Query
import MetricBoard.Expression.Reason

/-!
# Recognised functions

The function names of both dialects and the trees that their calls stand for. Different spellings
of one idea give one tree: `ISNULL(a, b)`, `NZ(a, b)` and `COALESCE(a, b)` are a coalesce,
`NZ(a)` is a coalesce with zero, and `DATEPART(month, d)` is `MONTH(d)`.
-/

namespace MetricBoard.Expression

/-- The names of the functions an expression may call. -/
inductive Callee where
  | getDate
  | now
  | date
  | dateAdd
  | dateDiff
  | datePart
  | month
  | year
  | isNull
  | nz
  | coalesce
  | iif
  | abs
  | round
  deriving DecidableEq, Repr

namespace Callee

/-- The function that a word names, in any case of its letters. -/
def ofWord? (word : String) : Option Callee :=
  match Text.upper word with
  | "GETDATE" => some getDate
  | "NOW" => some now
  | "DATE" => some date
  | "DATEADD" => some dateAdd
  | "DATEDIFF" => some dateDiff
  | "DATEPART" => some datePart
  | "MONTH" => some month
  | "YEAR" => some year
  | "ISNULL" => some isNull
  | "NZ" => some nz
  | "COALESCE" => some coalesce
  | "IIF" => some iif
  | "ABS" => some abs
  | "ROUND" => some round
  | _ => none

/-- The date unit that an argument names, bare or as a text. -/
def unitOf? : Expr → Option DateUnit
  | .column [name] => DateUnit.ofWord? name
  | .text content => DateUnit.ofWord? content
  | _ => none

/-- The tree of a call of a recognised function. -/
def tree (f : Callee) (args : List Expr) : Except Reason Expr :=
  match f, args with
  | getDate, [] | now, [] | date, [] => .ok (.call .now [])
  | dateAdd, [unit, amount, moment] =>
    match unitOf? unit with
    | some u => .ok (.call (.dateAdd u) [amount, moment])
    | none => .error .dateInterval
  | dateDiff, [unit, earlier, later] =>
    match unitOf? unit with
    | some u => .ok (.call (.dateDiff u) [earlier, later])
    | none => .error .dateInterval
  | datePart, [unit, moment] =>
    match unitOf? unit with
    | some .month => .ok (.call .month [moment])
    | some .year => .ok (.call .year [moment])
    | _ => .error .datePart
  | month, [moment] => .ok (.call .month [moment])
  | year, [moment] => .ok (.call .year [moment])
  | isNull, [e] => .ok (.nested (.isNull false e))
  | isNull, [e, fallback] | nz, [e, fallback] => .ok (.call .coalesce [e, fallback])
  | nz, [e] => .ok (.call .coalesce [e, .number "0"])
  | coalesce, first :: second :: rest => .ok (Expr.coalesceOf first (second :: rest))
  | iif, [test, fallback, value] => .ok (Expr.iifOf test fallback value)
  | abs, [e] => .ok (.call .abs [e])
  | round, [e] => .ok (.call .round [e])
  | round, [e, places] => .ok (.call .round [e, places])
  | _, _ => .error .unknownCall

end Callee

/-- The tree of a call by name. An aggregate is no function of a scalar expression. -/
def callTree (name : String) (args : List Expr) : Except Reason Expr :=
  match Callee.ofWord? name with
  | some f => f.tree args
  | none =>
    .error (if (AggregateFunction.ofWord? name).isSome then .nestedAggregate else .unknownCall)

end MetricBoard.Expression
