import MetricBoard.Text.Ascii
import MetricBoard.Text.Blank

/-!
# Queries

The tree of an expression: one aggregate over one table, with an optional filter. Functions have
one name whatever dialect spelled them, so that expressions written for different servers give
the same tree.
-/

namespace MetricBoard.Expression

/-- The aggregates. -/
inductive AggregateFunction where
  | count
  | sum
  | avg
  | min
  | max
  deriving DecidableEq, Repr

/-- The units of a date interval. -/
inductive DateUnit where
  | day
  | week
  | month
  | quarter
  | year
  deriving DecidableEq, Repr

/-- The functions of the expression language. -/
inductive Function where
  | now
  | dateAdd (unit : DateUnit)
  | dateDiff (unit : DateUnit)
  | month
  | year
  | coalesce
  | iif
  | abs
  | round
  deriving DecidableEq, Repr

/-- The operators with one operand. -/
inductive UnaryOp where
  | neg
  | not
  deriving DecidableEq, Repr

/-- The operators with two operands. -/
inductive BinaryOp where
  | add
  | sub
  | mul
  | div
  | mod
  | eq
  | ne
  | lt
  | le
  | gt
  | ge
  | and
  | or
  deriving DecidableEq, Repr

/-- A scalar expression. -/
inductive Expr where
  /-- A column, with the parts of its name. -/
  | column (parts : List String)
  | number (digits : String)
  | text (content : String)
  | date (content : String)
  | null
  | call (function : Function) (args : List Expr)
  | unary (op : UnaryOp) (operand : Expr)
  | binary (op : BinaryOp) (left right : Expr)
  | isNull (negated : Bool) (operand : Expr)
  | between (negated : Bool) (operand low high : Expr)
  | inList (negated : Bool) (operand : Expr) (items : List Expr)
  | like (negated : Bool) (operand pattern : Expr)
  /-- An expression in parentheses. -/
  | nested (inner : Expr)
  deriving Repr

/-- What an aggregate runs over. -/
inductive Argument where
  | star
  | expr (e : Expr)
  deriving Repr

/-- An aggregate and its argument. -/
structure Aggregate where
  function : AggregateFunction
  distinct : Bool
  argument : Argument
  deriving Repr

/-- A table, with its schema if one was given. -/
structure TableName where
  schema : Option String
  name : String
  deriving DecidableEq, Repr

/-- A query: an aggregate over a table, with an optional filter. -/
structure Query where
  aggregate : Aggregate
  table : TableName
  filter : Option Expr
  deriving Repr

/-! ## Names -/

namespace AggregateFunction

/-- The aggregate that a word names, in any case of its letters. -/
def ofWord? (word : String) : Option AggregateFunction :=
  match Text.upper word with
  | "COUNT" => some count
  | "SUM" => some sum
  | "AVG" => some avg
  | "MIN" => some min
  | "MAX" => some max
  | _ => none

end AggregateFunction

namespace DateUnit

/-- The unit that a word names: a date part or an interval code, trimmed, in any case. -/
def ofWord? (word : String) : Option DateUnit :=
  match Text.lower (Text.trim word) with
  | "day" | "dd" | "d" => some day
  | "week" | "wk" | "ww" => some week
  | "month" | "mm" | "m" => some month
  | "quarter" | "qq" | "q" => some quarter
  | "year" | "yy" | "yyyy" => some year
  | _ => none

end DateUnit

/-! ## Equality of trees -/

mutual

/-- Whether two trees are the same. -/
def Expr.same : Expr → Expr → Bool
  | .column a, .column b => a == b
  | .number a, .number b => a == b
  | .text a, .text b => a == b
  | .date a, .date b => a == b
  | .null, .null => true
  | .call f as, .call g bs => f == g && Expr.sameAll as bs
  | .unary f a, .unary g b => f == g && Expr.same a b
  | .binary f a b, .binary g c d => f == g && Expr.same a c && Expr.same b d
  | .isNull m a, .isNull n b => m == n && Expr.same a b
  | .between m a b c, .between n d e f => m == n && Expr.same a d && Expr.same b e && Expr.same c f
  | .inList m a as, .inList n b bs => m == n && Expr.same a b && Expr.sameAll as bs
  | .like m a b, .like n c d => m == n && Expr.same a c && Expr.same b d
  | .nested a, .nested b => Expr.same a b
  | _, _ => false

/-- Whether two lists of trees are the same. -/
def Expr.sameAll : List Expr → List Expr → Bool
  | [], [] => true
  | a :: as, b :: bs => Expr.same a b && Expr.sameAll as bs
  | _, _ => false

end

mutual

theorem Expr.same_self : ∀ a : Expr, Expr.same a a = true
  | .column _ | .number _ | .text _ | .date _ | .null => by simp [Expr.same]
  | .call _ as => by simp [Expr.same, Expr.sameAll_self as]
  | .unary _ a | .isNull _ a | .nested a => by simp [Expr.same, Expr.same_self a]
  | .binary _ a b | .like _ a b => by simp [Expr.same, Expr.same_self a, Expr.same_self b]
  | .between _ a b c => by
    simp [Expr.same, Expr.same_self a, Expr.same_self b, Expr.same_self c]
  | .inList _ a as => by simp [Expr.same, Expr.same_self a, Expr.sameAll_self as]

theorem Expr.sameAll_self : ∀ as : List Expr, Expr.sameAll as as = true
  | [] => by simp [Expr.sameAll]
  | a :: as => by simp [Expr.sameAll, Expr.same_self a, Expr.sameAll_self as]

end

mutual

theorem Expr.eq_of_same : ∀ {a b : Expr}, Expr.same a b = true → a = b
  | .column _, b, h | .number _, b, h | .text _, b, h | .date _, b, h | .null, b, h => by
    cases b <;> simp_all [Expr.same]
  | .call _ as, b, h => by
    cases b <;> simp only [Expr.same, Bool.and_eq_true, beq_iff_eq, reduceCtorEq] at h
    rw [h.1, Expr.eq_of_sameAll h.2]
  | .unary _ a, b, h => by
    cases b <;> simp only [Expr.same, Bool.and_eq_true, beq_iff_eq, reduceCtorEq] at h
    rw [h.1, Expr.eq_of_same h.2]
  | .isNull _ a, b, h => by
    cases b <;> simp only [Expr.same, Bool.and_eq_true, beq_iff_eq, reduceCtorEq] at h
    rw [h.1, Expr.eq_of_same h.2]
  | .nested a, b, h => by
    cases b <;> simp only [Expr.same, reduceCtorEq] at h
    rw [Expr.eq_of_same h]
  | .binary _ a c, b, h => by
    cases b <;> simp only [Expr.same, Bool.and_eq_true, beq_iff_eq, reduceCtorEq] at h
    rw [h.1.1, Expr.eq_of_same h.1.2, Expr.eq_of_same h.2]
  | .like _ a c, b, h => by
    cases b <;> simp only [Expr.same, Bool.and_eq_true, beq_iff_eq, reduceCtorEq] at h
    rw [h.1.1, Expr.eq_of_same h.1.2, Expr.eq_of_same h.2]
  | .between _ a c d, b, h => by
    cases b <;> simp only [Expr.same, Bool.and_eq_true, beq_iff_eq, reduceCtorEq] at h
    rw [h.1.1.1, Expr.eq_of_same h.1.1.2, Expr.eq_of_same h.1.2, Expr.eq_of_same h.2]
  | .inList _ a as, b, h => by
    cases b <;> simp only [Expr.same, Bool.and_eq_true, beq_iff_eq, reduceCtorEq] at h
    rw [h.1.1, Expr.eq_of_same h.1.2, Expr.eq_of_sameAll h.2]

theorem Expr.eq_of_sameAll : ∀ {as bs : List Expr}, Expr.sameAll as bs = true → as = bs
  | [], bs, h => by cases bs <;> simp_all [Expr.sameAll]
  | a :: as, bs, h => by
    cases bs <;> simp only [Expr.sameAll, Bool.and_eq_true, reduceCtorEq] at h
    rw [Expr.eq_of_same h.1, Expr.eq_of_sameAll h.2]

end

theorem Expr.same_iff {a b : Expr} : Expr.same a b = true ↔ a = b :=
  ⟨Expr.eq_of_same, fun h => h ▸ Expr.same_self a⟩

instance : DecidableEq Expr := fun a b => decidable_of_iff (Expr.same a b = true) Expr.same_iff

deriving instance DecidableEq for Argument, Aggregate, Query

/-! ## Trees that a call builds -/

namespace Expr

/-- `COALESCE(a, b, c)` is `COALESCE(a, COALESCE(b, c))`. -/
def coalesceOf (first : Expr) : List Expr → Expr
  | [] => first
  | second :: rest => .call .coalesce [first, coalesceOf second rest]

/-- The operand of a test for null, which may stand in one pair of parentheses. -/
def nullTest? : Expr → Option Expr
  | .isNull false e => some e
  | .nested (.isNull false e) => some e
  | _ => none

/-- `IIF(test, a, b)`, where testing `b` for null and giving `a` if so is a coalesce. -/
def iifOf (test fallback value : Expr) : Expr :=
  if nullTest? test = some value then .call .coalesce [value, fallback]
  else .call .iif [test, fallback, value]

end Expr

end MetricBoard.Expression
