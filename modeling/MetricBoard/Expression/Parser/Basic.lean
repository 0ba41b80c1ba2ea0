import MetricBoard.Expression.Callee
import MetricBoard.Expression.Keyword
import MetricBoard.Expression.Lexer

/-!
# Reading tokens

What the readers of a query share: a result with the tokens that follow it, the place of a fault,
and names of parts joined by dots. A fault lies at the token that could not be read on with,
unless a rule names another place.
-/

namespace MetricBoard.Expression

/-- What was read, and the tokens after it: fewer than `bound`. -/
structure Parsed (α : Type) (bound : Nat) where
  value : α
  rest : List Lexeme
  shorter : rest.length < bound

/-- The place of the first of some tokens. -/
def placeOf : List Lexeme → Place
  | [] => .finish
  | t :: _ => .byte t.offset

/-- A fault at the first of some tokens. -/
def faultAt (ts : List Lexeme) (reason : Reason) : Fault := ⟨placeOf ts, reason⟩

/-- The keyword at the head of some tokens. -/
def headKeyword? : List Lexeme → Option Keyword
  | [] => none
  | t :: _ => t.token.keyword?

/-- The tokens after a given one, which has to come first. -/
def expect (token : Token) (reason : Reason) (ts : List Lexeme) :
    Except Fault { rest : List Lexeme // rest.length < ts.length } :=
  match ts with
  | t :: rest =>
    if t.token = token then .ok ⟨rest, Nat.lt_succ_self _⟩ else .error (faultAt ts reason)
  | [] => .error (faultAt ts reason)

/-- The tokens after a given keyword, which has to come first. -/
def expectKeyword (keyword : Keyword) (reason : Reason) (ts : List Lexeme) :
    Except Fault { rest : List Lexeme // rest.length < ts.length } :=
  match ts with
  | t :: rest =>
    if t.token.keyword? = some keyword then .ok ⟨rest, Nat.lt_succ_self _⟩
    else .error (faultAt ts reason)
  | [] => .error (faultAt ts reason)

/-- Leaves out a keyword that may come first: whether it did, and the tokens after it. -/
def eatKeyword (keyword : Keyword) (ts : List Lexeme) :
    Bool × { rest : List Lexeme // rest.length ≤ ts.length } :=
  match ts with
  | t :: rest =>
    if t.token.keyword? = some keyword then (true, ⟨rest, by simp⟩)
    else (false, ⟨t :: rest, by simp⟩)
  | [] => (false, ⟨[], by simp⟩)

/-! ## Names -/

/-- A name of parts joined by dots, and the place of its last part. -/
structure DottedName where
  parts : List String
  last : Place
  deriving DecidableEq, Repr

/-- The parts of a name that follow those read already. -/
def nameParts (parts : List String) (last : Place) (ts : List Lexeme) :
    Except Fault (Parsed DottedName (ts.length + 1)) :=
  match ts with
  | ⟨.dot, _⟩ :: us =>
    match us with
    | t :: vs =>
      match t.token.name? with
      | some name => do
        let ⟨d, ws, h⟩ ← nameParts (parts ++ [name]) (.byte t.offset) vs
        return ⟨d, ws, by simp only [List.length_cons]; omega⟩
      | none => .error (faultAt us .nameAfterDot)
    | [] => .error (faultAt us .nameAfterDot)
  | ts => .ok ⟨⟨parts, last⟩, ts, by omega⟩

/-- A name of one or more parts. -/
def dottedName (reason : Reason) (ts : List Lexeme) : Except Fault (Parsed DottedName ts.length) :=
  match ts with
  | t :: us =>
    match t.token.name? with
    | some name => do
      let ⟨d, vs, h⟩ ← nameParts [name] (.byte t.offset) us
      return ⟨d, vs, by simpa using h⟩
    | none => .error (faultAt ts reason)
  | [] => .error (faultAt ts reason)

/-- A column name has at most two parts. -/
def columnOf (name : DottedName) : Except Fault Expr :=
  if name.parts.length > 2 then .error ⟨name.last, .longColumnName⟩ else .ok (.column name.parts)

end MetricBoard.Expression
