import MetricBoard.Expression.Parser.Basic

/-!
# Reading a scalar expression

A recursive descent over tokens, with one function a level of precedence:

* `chain`: the left-associative levels, from OR and AND over sums to products;
* `negation`, `predicate`: NOT, and at most one comparison, IS, BETWEEN, IN or LIKE;
* `signed`, `primary`: signs, and literals, columns, calls and parentheses.

Each gives the tree with the tokens that follow it and the proof that it took at least one. The
recursion goes to fewer tokens, or to the same tokens on a tighter level.
-/

namespace MetricBoard.Expression

/-! ## Operators -/

/-- The left-associative levels of precedence, the weakest first. -/
inductive Level where
  | disjunction
  | conjunction
  | sum
  | product
  deriving DecidableEq, Repr

/-- The operator that a token is on a level. -/
def Level.operator? : Level → Token → Option BinaryOp
  | disjunction, t => if t.keyword? = some .or then some .or else none
  | conjunction, t => if t.keyword? = some .and then some .and else none
  | sum, .plus => some .add
  | sum, .minus => some .sub
  | sum, _ => none
  | product, .star => some .mul
  | product, .slash => some .div
  | product, .percent => some .mod
  | product, t => if t.keyword? = some .mod then some .mod else none

/-- The comparison that a token is. -/
def comparison? : Token → Option BinaryOp
  | .eq => some .eq
  | .ne => some .ne
  | .lt => some .lt
  | .le => some .le
  | .gt => some .gt
  | .ge => some .ge
  | _ => none

/-- Whether BETWEEN, IN or LIKE comes next. -/
def startsRange (ts : List Lexeme) : Bool :=
  match headKeyword? ts with
  | some .between | some .in_ | some .like => true
  | _ => false

/-! ## Expressions -/

/-- How far a level is from the leaves. -/
def Level.height : Level → Nat
  | disjunction => 11
  | conjunction => 9
  | sum => 4
  | product => 2

mutual

/-- Operands of a level joined by its operators. -/
def chain (level : Level) (ts : List Lexeme) : Except Fault (Parsed Expr ts.length) := do
  let ⟨first, us, h⟩ ← operand level ts
  let ⟨e, vs, h'⟩ ← chainTail level first us
  return ⟨e, vs, by omega⟩
termination_by (ts.length, level.height + 1)
decreasing_by
  · exact Prod.Lex.right _ (Nat.lt_succ_self _)
  · exact Prod.Lex.left _ _ h

/-- The operators and operands that follow the ones read already. -/
def chainTail (level : Level) (left : Expr) (ts : List Lexeme) :
    Except Fault (Parsed Expr (ts.length + 1)) :=
  match ts with
  | [] => .ok ⟨left, [], Nat.lt_succ_self _⟩
  | t :: us =>
    match level.operator? t.token with
    | some op => do
      let ⟨right, vs, h⟩ ← operand level us
      let ⟨e, ws, h'⟩ ← chainTail level (.binary op left right) vs
      return ⟨e, ws, Nat.lt_succ_of_le <| Nat.le_succ_of_le <|
        Nat.le_trans (Nat.le_of_lt_succ h') (Nat.le_of_lt h)⟩
    | none => .ok ⟨left, t :: us, Nat.lt_succ_self _⟩
termination_by (ts.length, level.height + 1)
decreasing_by
  · exact Prod.Lex.left _ _ (by simp)
  · exact Prod.Lex.left _ _ (by simp only [List.length_cons]; omega)

/-- An operand of a level. -/
def operand (level : Level) (ts : List Lexeme) : Except Fault (Parsed Expr ts.length) :=
  match level with
  | .disjunction => chain .conjunction ts
  | .conjunction => negation ts
  | .sum => chain .product ts
  | .product => signed ts
termination_by (ts.length, level.height)
decreasing_by all_goals exact Prod.Lex.right _ (by simp [Level.height])

/-- NOT, any number of times, before a predicate. -/
def negation (ts : List Lexeme) : Except Fault (Parsed Expr ts.length) :=
  match ts with
  | [] => predicate []
  | t :: us =>
    if t.token.keyword? = some .not then do
      let ⟨e, vs, h⟩ ← negation us
      return ⟨.unary .not e, vs, by simp only [List.length_cons]; omega⟩
    else predicate (t :: us)
termination_by (ts.length, 8)
decreasing_by
  · exact Prod.Lex.right _ (by omega)
  · exact Prod.Lex.left _ _ (by simp)
  · exact Prod.Lex.right _ (by omega)

/-- A sum, with at most one comparison, IS, BETWEEN, IN or LIKE behind it. -/
def predicate (ts : List Lexeme) : Except Fault (Parsed Expr ts.length) := do
  let ⟨left, us, h⟩ ← chain .sum ts
  let ⟨e, vs, h'⟩ ← predicateTail left us
  return ⟨e, vs, by omega⟩
termination_by (ts.length, 7)
decreasing_by
  · exact Prod.Lex.right _ (by simp [Level.height])
  · exact Prod.Lex.left _ _ h

/-- What a predicate asks of the sum before it. NOT belongs to it only before BETWEEN, IN or
LIKE. -/
def predicateTail (left : Expr) (ts : List Lexeme) : Except Fault (Parsed Expr (ts.length + 1)) :=
  match ts with
  | [] => .ok ⟨left, [], Nat.lt_succ_self _⟩
  | t :: us =>
    match comparison? t.token, t.token.keyword? with
    | some op, _ => do
      let ⟨right, vs, h⟩ ← chain .sum us
      return ⟨.binary op left right, vs, by simp only [List.length_cons]; omega⟩
    | none, some .is => do
      let (negated, ⟨vs, h⟩) := eatKeyword .not us
      let ⟨ws, h'⟩ ← expectKeyword .null .nullExpected vs
      return ⟨.isNull negated left, ws, by simp only [List.length_cons]; omega⟩
    | none, some .not =>
      if startsRange us then do
        let ⟨e, vs, h⟩ ← rangeTail true left us
        return ⟨e, vs, by simp only [List.length_cons]; omega⟩
      else .ok ⟨left, t :: us, Nat.lt_succ_self _⟩
    | none, _ => rangeTail false left (t :: us)
termination_by (ts.length, 1)
decreasing_by
  · exact Prod.Lex.left _ _ (by simp)
  · exact Prod.Lex.left _ _ (by simp)
  · exact Prod.Lex.right _ (by omega)

/-- BETWEEN, IN or LIKE with its operands, if one of them comes next. -/
def rangeTail (negated : Bool) (left : Expr) (ts : List Lexeme) :
    Except Fault (Parsed Expr (ts.length + 1)) :=
  match ts with
  | [] => .ok ⟨left, [], Nat.lt_succ_self _⟩
  | t :: us =>
    match t.token.keyword? with
    | some .between => do
      let ⟨low, vs, h⟩ ← chain .sum us
      let ⟨ws, h'⟩ ← expectKeyword .and .andExpected vs
      let ⟨high, xs, h''⟩ ← chain .sum ws
      return ⟨.between negated left low high, xs, by simp only [List.length_cons]; omega⟩
    | some .in_ => do
      let ⟨vs, h⟩ ← expect .lparen .openAfterIn us
      if headKeyword? vs = some .select then .error (faultAt vs .subquery)
      let ⟨items, ws, h'⟩ ← expressions vs
      let ⟨xs, h''⟩ ← expect .rparen .closeAfterIn ws
      return ⟨.inList negated left items, xs, by simp only [List.length_cons]; omega⟩
    | some .like => do
      let ⟨pattern, vs, h⟩ ← chain .sum us
      return ⟨.like negated left pattern, vs, by simp only [List.length_cons]; omega⟩
    | _ => .ok ⟨left, t :: us, Nat.lt_succ_self _⟩
termination_by (ts.length, 0)
decreasing_by
  · exact Prod.Lex.left _ _ (by simp)
  · exact Prod.Lex.left _ _ (by simp only [List.length_cons] at h ⊢; omega)
  · exact Prod.Lex.left _ _ (by simp only [List.length_cons] at h ⊢; omega)
  · exact Prod.Lex.left _ _ (by simp)

/-- Plus signs, which say nothing, and minus signs before a primary. -/
def signed (ts : List Lexeme) : Except Fault (Parsed Expr ts.length) :=
  match ts with
  | ⟨.minus, _⟩ :: us => do
    let ⟨e, vs, h⟩ ← signed us
    return ⟨.unary .neg e, vs, by simp only [List.length_cons]; omega⟩
  | ⟨.plus, _⟩ :: us => do
    let ⟨e, vs, h⟩ ← signed us
    return ⟨e, vs, by simp only [List.length_cons]; omega⟩
  | ts => primary ts
termination_by (ts.length, 1)
decreasing_by
  · exact Prod.Lex.left _ _ (by simp)
  · exact Prod.Lex.left _ _ (by simp)
  · exact Prod.Lex.right _ (by omega)

/-- A literal, a column, a call or an expression in parentheses. -/
def primary (ts : List Lexeme) : Except Fault (Parsed Expr ts.length) :=
  match ts with
  | [] => .error (faultAt [] .endOfExpression)
  | t :: us =>
    match t.token with
    | .number n => .ok ⟨.number n, us, by simp⟩
    | .text s => .ok ⟨.text s, us, by simp⟩
    | .date d => .ok ⟨.date d, us, by simp⟩
    | .lparen =>
      if headKeyword? us = some .select then .error (faultAt us .subquery)
      else do
        let ⟨e, vs, h⟩ ← chain .disjunction us
        let ⟨ws, h'⟩ ← expect .rparen .closeExpected vs
        return ⟨.nested e, ws, by simp only [List.length_cons]; omega⟩
    | .quoted name => do
      let ⟨d, vs, h⟩ ← nameParts [name] (.byte t.offset) us
      return ⟨← columnOf d, vs, by simpa using h⟩
    | .word w =>
      match Keyword.ofWord? w with
      | some .null => .ok ⟨.null, us, by simp⟩
      | some .currentTimestamp => .ok ⟨.call .now [], us, by simp⟩
      | keyword =>
        match us with
        | ⟨.lparen, _⟩ :: vs => do
          let ⟨args, ws, h⟩ ← arguments vs
          match callTree w args with
          | .ok e => return ⟨e, ws, by simp only [List.length_cons]; omega⟩
          | .error reason => .error ⟨.byte t.offset, reason⟩
        | us =>
          match keyword with
          | some .case => .error ⟨.byte t.offset, .caseExpression⟩
          | some _ => .error ⟨.byte t.offset, .strayKeyword⟩
          | none => do
            let ⟨d, vs, h⟩ ← nameParts [w] (.byte t.offset) us
            return ⟨← columnOf d, vs, by simpa using h⟩
    | _ => .error ⟨.byte t.offset, .strayToken⟩
termination_by (ts.length, 0)
decreasing_by
  · exact Prod.Lex.left _ _ (by simp)
  · exact Prod.Lex.left _ _ (by simp only [List.length_cons]; omega)

/-- The arguments of a call and its closing parenthesis. -/
def arguments (ts : List Lexeme) : Except Fault (Parsed (List Expr) ts.length) :=
  match ts with
  | ⟨.rparen, _⟩ :: us => .ok ⟨[], us, by simp⟩
  | ts => do
    let ⟨args, us, h⟩ ← expressions ts
    let ⟨vs, h'⟩ ← expect .rparen .closeAfterArguments us
    return ⟨args, vs, by omega⟩
termination_by (ts.length, 14)
decreasing_by exact Prod.Lex.right _ (by omega)

/-- Expressions with commas between them, at least one. -/
def expressions (ts : List Lexeme) : Except Fault (Parsed (List Expr) ts.length) := do
  let ⟨e, us, h⟩ ← chain .disjunction ts
  let ⟨es, vs, h'⟩ ← moreExpressions us
  return ⟨e :: es, vs, by omega⟩
termination_by (ts.length, 13)
decreasing_by
  · exact Prod.Lex.right _ (by simp [Level.height])
  · exact Prod.Lex.left _ _ h

/-- The expressions after the first, each behind a comma. -/
def moreExpressions (ts : List Lexeme) : Except Fault (Parsed (List Expr) (ts.length + 1)) :=
  match ts with
  | ⟨.comma, _⟩ :: us => do
    let ⟨es, vs, h⟩ ← expressions us
    return ⟨es, vs, by simp only [List.length_cons]; omega⟩
  | ts => .ok ⟨[], ts, by omega⟩
termination_by (ts.length, 0)
decreasing_by exact Prod.Lex.left _ _ (by simp)

end

@[simp] theorem primary_nil : primary [] = .error (faultAt [] .endOfExpression) := by
  rw [primary]

end MetricBoard.Expression
