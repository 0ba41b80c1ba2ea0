import MetricBoard.Expression.Parser.Scalar

/-!
# Reading a query

An expression is one aggregate over one table: `SELECT` may be left out, an alias is read and
dropped, and so are lock hints behind the table. `parse` reads the whole source.
-/

namespace MetricBoard.Expression

/-- The aggregate at the head of a query, and the tokens after it. -/
def aggregate (ts : List Lexeme) : Except Fault (Aggregate × List Lexeme) :=
  match ts with
  | ⟨.word w, _⟩ :: us =>
    match AggregateFunction.ofWord? w with
    | some function => do
      let ⟨vs, _⟩ ← expect .lparen .openAfterAggregate us
      let (distinct, ⟨ws, _⟩) := eatKeyword .distinct vs
      let (argument, xs) ← argument function distinct ws
      let ⟨ys, _⟩ ← expect .rparen .closeAfterAggregate xs
      return (⟨function, distinct, argument⟩, ys)
    | none => .error (faultAt ts .aggregateExpected)
  | _ => .error (faultAt ts .aggregateExpected)
where
  /-- A star, which only COUNT without DISTINCT may have, or an expression. -/
  argument (function : AggregateFunction) (distinct : Bool) (ts : List Lexeme) :
      Except Fault (Argument × List Lexeme) :=
    match ts with
    | ⟨.star, _⟩ :: us =>
      if function = .count ∧ distinct = false then .ok (.star, us)
      else .error (faultAt ts .starOutsideCount)
    | _ => do
      let ⟨e, us, _⟩ ← chain .disjunction ts
      return (.expr e, us)

/-- Drops the alias of an aggregate. Behind AS there has to be one, and it may be a text. -/
def dropAlias (ts : List Lexeme) : Except Fault (List Lexeme) :=
  if headKeyword? ts = some .as then
    match ts.tail with
    | ⟨.text _, _⟩ :: us => .ok us
    | t :: us =>
      if t.token.name?.isSome then .ok us else .error (faultAt (t :: us) .aliasExpected)
    | [] => .error (faultAt [] .aliasExpected)
  else
    match ts with
    | t :: us => .ok (if t.token.name?.isSome then us else t :: us)
    | [] => .ok []

/-- A table of one or two parts. A parenthesis behind it has to open a lock hint. -/
def table (ts : List Lexeme) : Except Fault (TableName × List Lexeme) := do
  let ⟨name, us, _⟩ ← dottedName .tableExpected ts
  if opensCall us then .error (faultAt us .tableFunction)
  match name.parts with
  | [table] => return (⟨none, table⟩, us)
  | [schema, table] => return (⟨some schema, table⟩, us)
  | _ => .error ⟨name.last, .longTableName⟩
where
  /-- An opening parenthesis before anything but a lock hint. -/
  opensCall : List Lexeme → Bool
    | ⟨.lparen, _⟩ :: t :: _ => !t.token.isLockHint
    | ⟨.lparen, _⟩ :: [] => true
    | _ => false

/-- Drops lock hints and their closing parenthesis. -/
def dropHints : List Lexeme → Except Fault (List Lexeme)
  | [] => .error (faultAt [] .otherHint)
  | t :: us =>
    if t.token.isLockHint then
      match us with
      | ⟨.comma, _⟩ :: vs => dropHints vs
      | us => (expect .rparen .closeAfterHints us).map Subtype.val
    else .error (faultAt (t :: us) .otherHint)

/-- Drops the hints of a table, in parentheses behind WITH or directly behind the name. -/
def dropTableHints (ts : List Lexeme) : Except Fault (List Lexeme) :=
  if headKeyword? ts = some .with_ then do
    let ⟨us, _⟩ ← expect .lparen .openAfterWith ts.tail
    dropHints us
  else
    match ts with
    | ⟨.lparen, _⟩ :: us => dropHints us
    | ts => .ok ts

/-- The filter behind WHERE, if there is one. -/
def filter (ts : List Lexeme) : Except Fault (Option Expr × List Lexeme) :=
  if headKeyword? ts = some .where_ then do
    let ⟨e, us, _⟩ ← chain .disjunction ts.tail
    return (some e, us)
  else .ok (none, ts)

/-- Why a query may not go on with a token. -/
def trailingReason (t : Token) : Reason :=
  match t, t.keyword? with
  | .comma, _ => .manyTables
  | _, some .join | _, some .inner | _, some .left | _, some .right | _, some .full
  | _, some .cross => .join
  | _, some .group | _, some .order | _, some .having | _, some .union => .grouping
  | _, _ => .trailing

/-- The query that some tokens are. -/
def query (ts : List Lexeme) : Except Fault Query := do
  let (_, ⟨us, _⟩) := eatKeyword .select ts
  if headKeyword? us = some .top then .error (faultAt us .top)
  let (aggregate, vs) ← aggregate us
  let ws ← dropAlias vs
  if (ws.head?.map Lexeme.token) = some .comma then .error (faultAt ws .manyItems)
  let ⟨xs, _⟩ ← expectKeyword .from_ .fromExpected ws
  let (table, ys) ← table xs
  let zs ← dropTableHints ys
  let (filter, rest) ← filter zs
  match rest with
  | [] => return ⟨aggregate, table, filter⟩
  | t :: _ => .error (faultAt rest (trailingReason t.token))

/-- The query of a source, or the fault in it. -/
def parseFault (source : String) : Except Fault Query := do
  match ← tokenize source with
  | [] => .error ⟨.byte 0, .empty⟩
  | ts => query ts

/-- The query of a source, or how it is rejected. -/
def parse (source : String) : Except Rejection Query :=
  (parseFault source).mapError (Fault.rejection source)

end MetricBoard.Expression
