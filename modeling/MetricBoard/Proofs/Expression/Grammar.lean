import MetricBoard.Expression.Callee
import MetricBoard.Expression.Keyword

/-!
# The grammar of expressions

Which lists of tokens are queries, and which trees they are, said without a parser: `Derives` for
scalar expressions on the eight tiers of precedence, `Calls` for the recognised functions with the
trees that their calls stand for, and `DerivesQuery` for whole queries. The binary operators of a
tier are left-associative, and a predicate has at most one comparison, IS, BETWEEN, IN or LIKE.
Nothing here says how tokens are to be looked at; that a reader can do so with two tokens in view
is `parse_eq_ok_iff_derivesQuery`.
-/

namespace MetricBoard.Expression

/-! ## Calls -/

/-- An argument that names a date unit, as a bare word or as a text. -/
inductive NamesUnit : Expr → DateUnit → Prop
  | bare {name : String} {u : DateUnit} :
    DateUnit.ofWord? name = some u → NamesUnit (.column [name]) u
  | text {content : String} {u : DateUnit} :
    DateUnit.ofWord? content = some u → NamesUnit (.text content) u

/-- A coalesce of two or more values nests to the right. -/
inductive Coalesced : List Expr → Expr → Prop
  | pair (a b : Expr) : Coalesced [a, b] (.call .coalesce [a, b])
  | more (a : Expr) {b c : Expr} {rest : List Expr} {e : Expr} :
    Coalesced (b :: c :: rest) e → Coalesced (a :: b :: c :: rest) (.call .coalesce [a, e])

/-- A test of a value for null, in at most one pair of parentheses. -/
def IsNullTestOf (test value : Expr) : Prop :=
  test = .isNull false value ∨ test = .nested (.isNull false value)

/-- The recognised functions by their names in capitals, with their arguments and trees. -/
inductive Calls (w : String) : List Expr → Expr → Prop
  | now : Text.upper w ∈ ["GETDATE", "NOW", "DATE"] → Calls w [] (.call .now [])
  | dateAdd {unit amount moment : Expr} {u : DateUnit} :
    Text.upper w = "DATEADD" → NamesUnit unit u →
      Calls w [unit, amount, moment] (.call (.dateAdd u) [amount, moment])
  | dateDiff {unit earlier later : Expr} {u : DateUnit} :
    Text.upper w = "DATEDIFF" → NamesUnit unit u →
      Calls w [unit, earlier, later] (.call (.dateDiff u) [earlier, later])
  | monthPart {unit moment : Expr} :
    Text.upper w = "DATEPART" → NamesUnit unit .month →
      Calls w [unit, moment] (.call .month [moment])
  | yearPart {unit moment : Expr} :
    Text.upper w = "DATEPART" → NamesUnit unit .year →
      Calls w [unit, moment] (.call .year [moment])
  | month (moment : Expr) : Text.upper w = "MONTH" → Calls w [moment] (.call .month [moment])
  | year (moment : Expr) : Text.upper w = "YEAR" → Calls w [moment] (.call .year [moment])
  | nullTest (e : Expr) : Text.upper w = "ISNULL" → Calls w [e] (.nested (.isNull false e))
  | orElse (e fallback : Expr) :
    Text.upper w ∈ ["ISNULL", "NZ"] → Calls w [e, fallback] (.call .coalesce [e, fallback])
  | orZero (e : Expr) : Text.upper w = "NZ" → Calls w [e] (.call .coalesce [e, .number "0"])
  | coalesce {args : List Expr} {e : Expr} :
    Text.upper w = "COALESCE" → Coalesced args e → Calls w args e
  | iifCoalesce {test fallback value : Expr} :
    Text.upper w = "IIF" → IsNullTestOf test value →
      Calls w [test, fallback, value] (.call .coalesce [value, fallback])
  | iif {test yes no : Expr} :
    Text.upper w = "IIF" → ¬ IsNullTestOf test no →
      Calls w [test, yes, no] (.call .iif [test, yes, no])
  | abs (e : Expr) : Text.upper w = "ABS" → Calls w [e] (.call .abs [e])
  | round (e : Expr) : Text.upper w = "ROUND" → Calls w [e] (.call .round [e])
  | roundTo (e places : Expr) :
    Text.upper w = "ROUND" → Calls w [e, places] (.call .round [e, places])

/-! ## Scalar expressions -/

/-- The tiers of precedence, the loosest first. -/
inductive Tier where
  | disjunction
  | conjunction
  | negation
  | predicate
  | sum
  | product
  | signed
  | primary
  deriving DecidableEq, Repr

/-- The next tighter tier. -/
def Tier.next? : Tier → Option Tier
  | disjunction => some conjunction
  | conjunction => some negation
  | negation => some predicate
  | predicate => some sum
  | sum => some product
  | product => some signed
  | signed => some primary
  | primary => none

/-- The operators that join operands on a tier, from left to right. -/
inductive Joins : Tier → Token → BinaryOp → Prop
  | or {t : Token} : t.keyword? = some .or → Joins .disjunction t .or
  | and {t : Token} : t.keyword? = some .and → Joins .conjunction t .and
  | add : Joins .sum .plus .add
  | sub : Joins .sum .minus .sub
  | mul : Joins .product .star .mul
  | div : Joins .product .slash .div
  | percent : Joins .product .percent .mod
  | mod {t : Token} : t.keyword? = some .mod → Joins .product t .mod

/-- The comparisons. -/
inductive Compares : Token → BinaryOp → Prop
  | eq : Compares .eq .eq
  | ne : Compares .ne .ne
  | lt : Compares .lt .lt
  | le : Compares .le .le
  | gt : Compares .gt .gt
  | ge : Compares .ge .ge

/-- NOT, or its absence, before BETWEEN, IN or LIKE and behind IS. -/
inductive Negates : Bool → List Token → Prop
  | plain : Negates false []
  | not {t : Token} : t.keyword? = some .not → Negates true [t]

/-- Lists of tokens with commas between them. -/
def commaJoined : List (List Token) → List Token
  | [] => []
  | [ts] => ts
  | ts :: rest => ts ++ .comma :: commaJoined rest

/-- The tokens that are an expression of a tier, and its tree. An item of a list stands here with
its tokens and its tree. -/
inductive Derives : Tier → List Token → Expr → Prop
  | tighter {p q : Tier} {ts : List Token} {e : Expr} :
    p.next? = some q → Derives q ts e → Derives p ts e
  | join {p q : Tier} {t : Token} {op : BinaryOp} {ts us : List Token} {l r : Expr} :
    Joins p t op → p.next? = some q → Derives p ts l → Derives q us r →
      Derives p (ts ++ t :: us) (.binary op l r)
  | not {t : Token} {ts : List Token} {e : Expr} :
    t.keyword? = some .not → Derives .negation ts e → Derives .negation (t :: ts) (.unary .not e)
  | compare {t : Token} {op : BinaryOp} {ts us : List Token} {l r : Expr} :
    Compares t op → Derives .sum ts l → Derives .sum us r →
      Derives .predicate (ts ++ t :: us) (.binary op l r)
  | isNull {is null : Token} {negated : Bool} {ts ns : List Token} {e : Expr} :
    is.keyword? = some .is → Negates negated ns → null.keyword? = some .null → Derives .sum ts e →
      Derives .predicate (ts ++ is :: (ns ++ [null])) (.isNull negated e)
  | between {b a : Token} {negated : Bool} {ts ns ls hs : List Token} {e low high : Expr} :
    Negates negated ns → b.keyword? = some .between → a.keyword? = some .and →
      Derives .sum ts e → Derives .sum ls low → Derives .sum hs high →
      Derives .predicate (ts ++ (ns ++ b :: (ls ++ a :: hs))) (.between negated e low high)
  | inList {i : Token} {negated : Bool} {ts ns : List Token} {e : Expr}
      {items : List (List Token × Expr)} :
    Negates negated ns → i.keyword? = some .in_ → Derives .sum ts e → items ≠ [] →
      (∀ x ∈ items, Derives .disjunction x.1 x.2) →
      Derives .predicate
        (ts ++ (ns ++ i :: .lparen :: (commaJoined (items.map Prod.fst) ++ [.rparen])))
        (.inList negated e (items.map Prod.snd))
  | like {k : Token} {negated : Bool} {ts ns us : List Token} {e pattern : Expr} :
    Negates negated ns → k.keyword? = some .like → Derives .sum ts e → Derives .sum us pattern →
      Derives .predicate (ts ++ (ns ++ k :: us)) (.like negated e pattern)
  | neg {ts : List Token} {e : Expr} :
    Derives .signed ts e → Derives .signed (.minus :: ts) (.unary .neg e)
  | plus {ts : List Token} {e : Expr} : Derives .signed ts e → Derives .signed (.plus :: ts) e
  | number (digits : String) : Derives .primary [.number digits] (.number digits)
  | text (content : String) : Derives .primary [.text content] (.text content)
  | date (content : String) : Derives .primary [.date content] (.date content)
  | null {t : Token} : t.keyword? = some .null → Derives .primary [t] .null
  | currentTimestamp {t : Token} :
    t.keyword? = some .currentTimestamp → Derives .primary [t] (.call .now [])
  | column {t : Token} {name : String} :
    t.name? = some name → Derives .primary [t] (.column [name])
  | qualifiedColumn {t u : Token} {table name : String} :
    t.name? = some table → u.name? = some name →
      Derives .primary [t, .dot, u] (.column [table, name])
  | nested {ts : List Token} {e : Expr} :
    Derives .disjunction ts e → Derives .primary (.lparen :: (ts ++ [.rparen])) (.nested e)
  | call {w : String} {items : List (List Token × Expr)} {e : Expr} :
    (∀ x ∈ items, Derives .disjunction x.1 x.2) → Calls w (items.map Prod.snd) e →
      Derives .primary (.word w :: .lparen :: (commaJoined (items.map Prod.fst) ++ [.rparen])) e

theorem Derives.of_primary {ts : List Token} {e : Expr} (h : Derives .primary ts e) (p : Tier) :
    Derives p ts e := by
  have h₁ : Derives .signed ts e := .tighter rfl h
  have h₂ : Derives .product ts e := .tighter rfl h₁
  have h₃ : Derives .sum ts e := .tighter rfl h₂
  have h₄ : Derives .predicate ts e := .tighter rfl h₃
  have h₅ : Derives .negation ts e := .tighter rfl h₄
  have h₆ : Derives .conjunction ts e := .tighter rfl h₅
  cases p with
  | disjunction => exact .tighter rfl h₆
  | _ => assumption

theorem Derives.of_predicate {ts : List Token} {e : Expr} (h : Derives .predicate ts e) :
    Derives .disjunction ts e :=
  .tighter rfl (.tighter rfl (.tighter rfl h))

/-! ## Queries -/

/-- The tokens of an aggregate. Only COUNT without DISTINCT takes a star. -/
inductive DerivesAggregate : List Token → Aggregate → Prop
  | star {w : String} : AggregateFunction.ofWord? w = some .count →
      DerivesAggregate [.word w, .lparen, .star, .rparen] ⟨.count, false, .star⟩
  | expr {w : String} {f : AggregateFunction} {ts : List Token} {e : Expr} :
    AggregateFunction.ofWord? w = some f → Derives .disjunction ts e →
      DerivesAggregate (.word w :: .lparen :: (ts ++ [.rparen])) ⟨f, false, .expr e⟩
  | distinct {w : String} {f : AggregateFunction} {d : Token} {ts : List Token} {e : Expr} :
    AggregateFunction.ofWord? w = some f → d.keyword? = some .distinct → Derives .disjunction ts e →
      DerivesAggregate (.word w :: .lparen :: d :: (ts ++ [.rparen])) ⟨f, true, .expr e⟩

/-- SELECT at the head of a query, or its absence. -/
inductive IsSelect : List Token → Prop
  | none : IsSelect []
  | select {t : Token} : t.keyword? = some .select → IsSelect [t]

/-- The alias of an aggregate. Behind AS it may be a text. -/
inductive IsAlias : List Token → Prop
  | none : IsAlias []
  | bare {t : Token} : t.name?.isSome → IsAlias [t]
  | named {a t : Token} : a.keyword? = some .as → t.name?.isSome → IsAlias [a, t]
  | text {a : Token} (content : String) : a.keyword? = some .as → IsAlias [a, .text content]

/-- The table of a query. -/
inductive DerivesTable : List Token → TableName → Prop
  | bare {t : Token} {name : String} : t.name? = some name → DerivesTable [t] ⟨none, name⟩
  | qualified {t u : Token} {schema name : String} :
    t.name? = some schema → u.name? = some name →
      DerivesTable [t, .dot, u] ⟨some schema, name⟩

/-- Lock hints in parentheses. -/
inductive IsHintList : List Token → Prop
  | mk {hs : List Token} : hs ≠ [] → (∀ h ∈ hs, h.isLockHint = true) →
      IsHintList (.lparen :: (commaJoined (hs.map fun h => [h]) ++ [.rparen]))

/-- The hints of a table, behind WITH or directly behind the name, or none. -/
inductive IsHints : List Token → Prop
  | none : IsHints []
  | legacy {ts : List Token} : IsHintList ts → IsHints ts
  | with_ {t : Token} {ts : List Token} :
    t.keyword? = some .with_ → IsHintList ts → IsHints (t :: ts)

/-- The filter of a query, or its absence. -/
inductive DerivesFilter : List Token → Option Expr → Prop
  | none : DerivesFilter [] none
  | where_ {t : Token} {ts : List Token} {e : Expr} :
    t.keyword? = some .where_ → Derives .disjunction ts e → DerivesFilter (t :: ts) (some e)

/-- The tokens that are a query, and its tree: an aggregate with its alias, from a table with its
hints, and a filter. -/
inductive DerivesQuery : List Token → Query → Prop
  | mk {f : Token} {ss as ls ts hs ws : List Token} {a : Aggregate} {table : TableName}
      {filter : Option Expr} :
    IsSelect ss → DerivesAggregate as a → IsAlias ls → f.keyword? = some .from_ →
      DerivesTable ts table → IsHints hs → DerivesFilter ws filter →
      DerivesQuery (ss ++ (as ++ (ls ++ f :: (ts ++ (hs ++ ws))))) ⟨a, table, filter⟩

end MetricBoard.Expression
