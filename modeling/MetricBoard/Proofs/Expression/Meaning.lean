import Mathlib.Data.List.Forall2
import MetricBoard.Proofs.Expression.Completeness

/-!
# What expressions mean

An `Interpretation` gives values to columns, literals, operators and functions, where any value may
be null. Under it a row of tokens has a meaning by the grammar alone (`Means`): production by
production, and call by call as the functions are documented. No tree is built for it. A tree has a
value (`Expr.value`), and `means_iff` says that the tree that is read of some tokens has the value
that the tokens mean.
-/

namespace MetricBoard.Expression

/-! ## Interpretations -/

/-- What expressions are made of, over values any of which may be null. The operators and functions
are arbitrary. A test gives a value that is true if and only if the test holds. -/
structure Interpretation (V : Type) where
  column : List String → Option V
  number : String → Option V
  text : String → Option V
  date : String → Option V
  truth : Bool → V
  isTrue : Option V → Bool
  isTrue_truth (b : Bool) : isTrue (some (truth b)) = b
  unary : UnaryOp → Option V → Option V
  binary : BinaryOp → Option V → Option V → Option V
  between : Bool → Option V → Option V → Option V → Option V
  inList : Bool → Option V → List (Option V) → Option V
  like : Bool → Option V → Option V → Option V
  /-- The functions that are not made of others. The current time is one without arguments. -/
  function : Function → List (Option V) → Option V

/-- The first value that is not null. -/
def firstNonNull {V : Type} (vs : List (Option V)) : Option V := vs.findSome? id

namespace Interpretation

variable {V : Type} (I : Interpretation V)

/-- Whether a value is null, or is not. -/
def isNull (negated : Bool) (v : Option V) : Option V :=
  some (I.truth (if negated then v.isSome else v.isNone))

/-- The one value if a test is true, and the other if it is false or null. -/
def iif (test yes no : Option V) : Option V := if I.isTrue test then yes else no

/-- A function of some values. Rounding is to whole numbers if nothing else is said. -/
def call : Function → List (Option V) → Option V
  | .coalesce, vs => firstNonNull vs
  | .iif, [test, yes, no] => I.iif test yes no
  | .round, [v] => I.function .round [v, I.number "0"]
  | f, vs => I.function f vs

/-- An IIF that gives a fallback for null is a coalesce. -/
theorem iif_isNull (v fallback : Option V) :
    I.iif (I.isNull false v) fallback v = firstNonNull [v, fallback] := by
  unfold iif isNull firstNonNull
  rw [I.isTrue_truth]
  cases v <;> cases fallback <;> rfl

end Interpretation

theorem firstNonNull_cons {V : Type} (v : Option V) (vs : List (Option V)) :
    firstNonNull (v :: vs) = firstNonNull [v, firstNonNull vs] := by
  cases v <;> simp [firstNonNull]

/-! ## The value of a tree -/

section Values

variable {V : Type} (I : Interpretation V)

mutual

/-- The value of a tree. -/
def Expr.value : Expr → Option V
  | .column parts => I.column parts
  | .number n => I.number n
  | .text s => I.text s
  | .date s => I.date s
  | .null => none
  | .call f args => I.call f (Expr.values args)
  | .unary op e => I.unary op e.value
  | .binary op l r => I.binary op l.value r.value
  | .isNull negated e => I.isNull negated e.value
  | .between negated e low high => I.between negated e.value low.value high.value
  | .inList negated e items => I.inList negated e.value (Expr.values items)
  | .like negated e pattern => I.like negated e.value pattern.value
  | .nested e => e.value

/-- The values of some trees. -/
def Expr.values : List Expr → List (Option V)
  | [] => []
  | e :: es => e.value :: Expr.values es

end

theorem Expr.values_eq_map (es : List Expr) : Expr.values I es = es.map (Expr.value I) := by
  induction es with
  | nil => rw [Expr.values, List.map_nil]
  | cons e es ih => rw [Expr.values, ih, List.map_cons]

theorem value_isNullTestOf {test e : Expr} (h : IsNullTestOf test e) :
    test.value I = I.isNull false (e.value I) := by
  rcases h with rfl | rfl <;> simp only [Expr.value]

theorem value_coalesced {args : List Expr} {e : Expr} (h : Coalesced args e) :
    e.value I = firstNonNull (args.map (Expr.value I)) := by
  induction h with
  | pair a b => rw [Expr.value, Expr.values_eq_map]; rfl
  | @more a b c rest e _ ih =>
    rw [Expr.value, Expr.values_eq_map]
    show firstNonNull [a.value I, e.value I] = firstNonNull (a.value I :: (b :: c :: rest).map _)
    rw [ih, ← firstNonNull_cons]

end Values

/-! ## The meaning of tokens -/

section Means

variable {V : Type} (I : Interpretation V)

/-- Tokens that name a date unit as the first argument of a call. -/
inductive WritesUnit : List Token → DateUnit → Prop
  | bare {t : Token} {name : String} {u : DateUnit} :
    t.name? = some name → DateUnit.ofWord? name = some u → WritesUnit [t] u
  | text {content : String} {u : DateUnit} :
    DateUnit.ofWord? content = some u → WritesUnit [.text content] u
  | plus {ts : List Token} {u : DateUnit} : WritesUnit ts u → WritesUnit (.plus :: ts) u

/-- What a call by name means, from the tokens and the meanings of its arguments. -/
inductive CallMeans (w : String) : List (List Token × Option V) → Option V → Prop
  | now : Text.upper w ∈ ["GETDATE", "NOW", "DATE"] → CallMeans w [] (I.function .now [])
  | dateAdd {unit amount moment : List Token × Option V} {u : DateUnit} :
    Text.upper w = "DATEADD" → WritesUnit unit.1 u →
      CallMeans w [unit, amount, moment] (I.function (.dateAdd u) [amount.2, moment.2])
  | dateDiff {unit earlier later : List Token × Option V} {u : DateUnit} :
    Text.upper w = "DATEDIFF" → WritesUnit unit.1 u →
      CallMeans w [unit, earlier, later] (I.function (.dateDiff u) [earlier.2, later.2])
  | monthPart {unit moment : List Token × Option V} :
    Text.upper w = "DATEPART" → WritesUnit unit.1 .month →
      CallMeans w [unit, moment] (I.function .month [moment.2])
  | yearPart {unit moment : List Token × Option V} :
    Text.upper w = "DATEPART" → WritesUnit unit.1 .year →
      CallMeans w [unit, moment] (I.function .year [moment.2])
  | month (moment : List Token × Option V) :
    Text.upper w = "MONTH" → CallMeans w [moment] (I.function .month [moment.2])
  | year (moment : List Token × Option V) :
    Text.upper w = "YEAR" → CallMeans w [moment] (I.function .year [moment.2])
  | nullTest (x : List Token × Option V) :
    Text.upper w = "ISNULL" → CallMeans w [x] (I.isNull false x.2)
  | orElse (x fallback : List Token × Option V) :
    Text.upper w ∈ ["ISNULL", "NZ"] → CallMeans w [x, fallback] (firstNonNull [x.2, fallback.2])
  | orZero (x : List Token × Option V) :
    Text.upper w = "NZ" → CallMeans w [x] (firstNonNull [x.2, I.number "0"])
  | coalesce {xs : List (List Token × Option V)} :
    Text.upper w = "COALESCE" → 2 ≤ xs.length → CallMeans w xs (firstNonNull (xs.map Prod.snd))
  | iif (test yes no : List Token × Option V) :
    Text.upper w = "IIF" → CallMeans w [test, yes, no] (I.iif test.2 yes.2 no.2)
  | abs (x : List Token × Option V) :
    Text.upper w = "ABS" → CallMeans w [x] (I.function .abs [x.2])
  | round (x : List Token × Option V) :
    Text.upper w = "ROUND" → CallMeans w [x] (I.function .round [x.2, I.number "0"])
  | roundTo (x places : List Token × Option V) :
    Text.upper w = "ROUND" → CallMeans w [x, places] (I.function .round [x.2, places.2])

/-- What the tokens of a tier mean. An item of a list stands here with its tokens and its
meaning. -/
inductive Means : Tier → List Token → Option V → Prop
  | tighter {p q : Tier} {ts : List Token} {v : Option V} :
    p.next? = some q → Means q ts v → Means p ts v
  | join {p q : Tier} {t : Token} {op : BinaryOp} {ts us : List Token} {l r : Option V} :
    Joins p t op → p.next? = some q → Means p ts l → Means q us r →
      Means p (ts ++ t :: us) (I.binary op l r)
  | not {t : Token} {ts : List Token} {v : Option V} :
    t.keyword? = some .not → Means .negation ts v → Means .negation (t :: ts) (I.unary .not v)
  | compare {t : Token} {op : BinaryOp} {ts us : List Token} {l r : Option V} :
    Compares t op → Means .sum ts l → Means .sum us r →
      Means .predicate (ts ++ t :: us) (I.binary op l r)
  | isNull {is null : Token} {negated : Bool} {ts ns : List Token} {v : Option V} :
    is.keyword? = some .is → Negates negated ns → null.keyword? = some .null → Means .sum ts v →
      Means .predicate (ts ++ is :: (ns ++ [null])) (I.isNull negated v)
  | between {b a : Token} {negated : Bool} {ts ns ls hs : List Token} {v low high : Option V} :
    Negates negated ns → b.keyword? = some .between → a.keyword? = some .and →
      Means .sum ts v → Means .sum ls low → Means .sum hs high →
      Means .predicate (ts ++ (ns ++ b :: (ls ++ a :: hs))) (I.between negated v low high)
  | inList {i : Token} {negated : Bool} {ts ns : List Token} {v : Option V}
      {items : List (List Token × Option V)} :
    Negates negated ns → i.keyword? = some .in_ → Means .sum ts v → items ≠ [] →
      (∀ x ∈ items, Means .disjunction x.1 x.2) →
      Means .predicate
        (ts ++ (ns ++ i :: .lparen :: (commaJoined (items.map Prod.fst) ++ [.rparen])))
        (I.inList negated v (items.map Prod.snd))
  | like {k : Token} {negated : Bool} {ts ns us : List Token} {v pattern : Option V} :
    Negates negated ns → k.keyword? = some .like → Means .sum ts v → Means .sum us pattern →
      Means .predicate (ts ++ (ns ++ k :: us)) (I.like negated v pattern)
  | neg {ts : List Token} {v : Option V} :
    Means .signed ts v → Means .signed (.minus :: ts) (I.unary .neg v)
  | plus {ts : List Token} {v : Option V} : Means .signed ts v → Means .signed (.plus :: ts) v
  | number (digits : String) : Means .primary [.number digits] (I.number digits)
  | text (content : String) : Means .primary [.text content] (I.text content)
  | date (content : String) : Means .primary [.date content] (I.date content)
  | null {t : Token} : t.keyword? = some .null → Means .primary [t] none
  | currentTimestamp {t : Token} :
    t.keyword? = some .currentTimestamp → Means .primary [t] (I.function .now [])
  | column {t : Token} {name : String} :
    t.name? = some name → Means .primary [t] (I.column [name])
  | qualifiedColumn {t u : Token} {table name : String} :
    t.name? = some table → u.name? = some name →
      Means .primary [t, .dot, u] (I.column [table, name])
  | nested {ts : List Token} {v : Option V} :
    Means .disjunction ts v → Means .primary (.lparen :: (ts ++ [.rparen])) v
  | call {w : String} {items : List (List Token × Option V)} {v : Option V} :
    (∀ x ∈ items, Means .disjunction x.1 x.2) → CallMeans I w items v →
      Means .primary (.word w :: .lparen :: (commaJoined (items.map Prod.fst) ++ [.rparen])) v

end Means

/-! ## Units -/

/-- What is derived on a tier is derived on the loosest. -/
theorem Derives.disjunction {p : Tier} {ts : List Token} {e : Expr} (h : Derives p ts e) :
    Derives .disjunction ts e := by
  have conjunction {e} (h : Derives .conjunction ts e) : Derives .disjunction ts e := .tighter rfl h
  have sum {e} (h : Derives .sum ts e) : Derives .disjunction ts e :=
    (Derives.tighter rfl h : Derives .predicate ts e).of_predicate
  cases p with
  | disjunction => exact h
  | conjunction => exact conjunction h
  | negation => exact conjunction (.tighter rfl h)
  | predicate => exact h.of_predicate
  | sum => exact sum h
  | product => exact sum (.tighter rfl h)
  | signed => exact sum (.tighter (q := .product) rfl (.tighter rfl h))
  | primary => exact h.of_primary _

theorem Calls.not_namesUnit {w : String} {args : List Expr} {e : Expr} (h : Calls w args e)
    (u : DateUnit) : ¬ NamesUnit e u := by
  intro hu
  cases h with
  | coalesce _ hc => cases hc <;> cases hu
  | _ => cases hu

theorem writesUnit_of_derives {p : Tier} {ts : List Token} {e : Expr} {u : DateUnit}
    (h : Derives p ts e) (hu : NamesUnit e u) : WritesUnit ts u := by
  induction h with
  | tighter _ _ ih => exact ih hu
  | plus _ ih => exact .plus (ih hu)
  | text content => cases hu with | text hw => exact .text hw
  | column hn => cases hu with | bare hw => exact .bare hn hw
  | call _ hc _ => exact absurd hu (hc.not_namesUnit u)
  | _ => cases hu

theorem exists_derives_of_writesUnit {ts : List Token} {u : DateUnit} (h : WritesUnit ts u) :
    ∃ e, Derives .signed ts e ∧ NamesUnit e u := by
  induction h with
  | bare hn hw => exact ⟨_, (Derives.column hn).of_primary _, .bare hw⟩
  | text hw => exact ⟨_, (Derives.text _).of_primary _, .text hw⟩
  | plus _ ih =>
    obtain ⟨e, he, hu⟩ := ih
    exact ⟨e, .plus he, hu⟩

theorem writesUnit_iff {ts : List Token} {e : Expr} {u : DateUnit}
    (h : Derives .disjunction ts e) : WritesUnit ts u ↔ NamesUnit e u := by
  refine ⟨fun hw => ?_, writesUnit_of_derives h⟩
  obtain ⟨e', he', hu⟩ := exists_derives_of_writesUnit hw
  rwa [h.unique he'.disjunction]

/-! ## Reading keeps the meaning -/

section Reading

variable {V : Type} {I : Interpretation V}

/-- An item with the tree that its tokens are read as, where its meaning is the tree's value. -/
def Valued (I : Interpretation V) (x : List Token × Option V) (e : Expr) : Prop :=
  Derives .disjunction x.1 e ∧ e.value I = x.2

theorem map_value_eq {items : List (List Token × Option V)} {args : List Expr}
    (h : List.Forall₂ (Valued I) items args) : args.map (Expr.value I) = items.map Prod.snd := by
  induction h with
  | nil => rfl
  | cons hx _ ih => rw [List.map_cons, List.map_cons, hx.2, ih]

theorem two_le_length_of_coalesced {args : List Expr} {e : Expr} (h : Coalesced args e) :
    2 ≤ args.length := by
  cases h <;> simp

theorem exists_coalesced {args : List Expr} (h : 2 ≤ args.length) : ∃ e, Coalesced args e := by
  match args, h with
  | _ :: _ :: _, _ => exact ⟨_, coalesced_iff.2 rfl⟩

/-- The tree of a call has the value that the call means. -/
theorem callMeans_of_calls {w : String} {items : List (List Token × Option V)} {args : List Expr}
    {e : Expr} (h : List.Forall₂ (Valued I) items args) (hc : Calls w args e) :
    CallMeans I w items (e.value I) := by
  cases hc with
  | now hw => cases h with | nil => exact .now hw
  | dateAdd hw hu =>
    obtain _ | ⟨⟨hd, -⟩, _ | ⟨⟨-, hy⟩, _ | ⟨⟨-, hz⟩, _ | _⟩⟩⟩ := h
    simp only [Expr.value, Expr.values, hy, hz]
    exact .dateAdd hw ((writesUnit_iff hd).2 hu)
  | dateDiff hw hu =>
    obtain _ | ⟨⟨hd, -⟩, _ | ⟨⟨-, hy⟩, _ | ⟨⟨-, hz⟩, _ | _⟩⟩⟩ := h
    simp only [Expr.value, Expr.values, hy, hz]
    exact .dateDiff hw ((writesUnit_iff hd).2 hu)
  | monthPart hw hu =>
    obtain _ | ⟨⟨hd, -⟩, _ | ⟨⟨-, hy⟩, _ | _⟩⟩ := h
    simp only [Expr.value, Expr.values, hy]
    exact .monthPart hw ((writesUnit_iff hd).2 hu)
  | yearPart hw hu =>
    obtain _ | ⟨⟨hd, -⟩, _ | ⟨⟨-, hy⟩, _ | _⟩⟩ := h
    simp only [Expr.value, Expr.values, hy]
    exact .yearPart hw ((writesUnit_iff hd).2 hu)
  | month _ hw =>
    obtain _ | ⟨⟨-, hx⟩, _ | _⟩ := h
    simp only [Expr.value, Expr.values, hx]
    exact .month _ hw
  | year _ hw =>
    obtain _ | ⟨⟨-, hx⟩, _ | _⟩ := h
    simp only [Expr.value, Expr.values, hx]
    exact .year _ hw
  | nullTest _ hw =>
    obtain _ | ⟨⟨-, hx⟩, _ | _⟩ := h
    simp only [Expr.value, hx]
    exact .nullTest _ hw
  | orElse _ _ hw =>
    obtain _ | ⟨⟨-, hx⟩, _ | ⟨⟨-, hy⟩, _ | _⟩⟩ := h
    simp only [Expr.value, Expr.values, hx, hy]
    exact .orElse _ _ hw
  | orZero _ hw =>
    obtain _ | ⟨⟨-, hx⟩, _ | _⟩ := h
    simp only [Expr.value, Expr.values, hx]
    exact .orZero _ hw
  | coalesce hw hc =>
    rw [value_coalesced I hc, map_value_eq h]
    exact .coalesce hw (h.length_eq.symm ▸ two_le_length_of_coalesced hc)
  | iifCoalesce hw ht =>
    obtain _ | ⟨⟨-, hx⟩, _ | ⟨⟨-, hy⟩, _ | ⟨⟨-, hz⟩, _ | _⟩⟩⟩ := h
    have hv := (value_isNullTestOf I ht).symm.trans hx
    simp only [Expr.value, Expr.values, hy, hz, Interpretation.call]
    rw [← I.iif_isNull, ← hz, hv, hz]
    exact .iif _ _ _ hw
  | iif hw _ =>
    obtain _ | ⟨⟨-, hx⟩, _ | ⟨⟨-, hy⟩, _ | ⟨⟨-, hz⟩, _ | _⟩⟩⟩ := h
    simp only [Expr.value, Expr.values, hx, hy, hz]
    exact .iif _ _ _ hw
  | abs _ hw =>
    obtain _ | ⟨⟨-, hx⟩, _ | _⟩ := h
    simp only [Expr.value, Expr.values, hx]
    exact .abs _ hw
  | round _ hw =>
    obtain _ | ⟨⟨-, hx⟩, _ | _⟩ := h
    simp only [Expr.value, Expr.values, hx]
    exact .round _ hw
  | roundTo _ _ hw =>
    obtain _ | ⟨⟨-, hx⟩, _ | ⟨⟨-, hy⟩, _ | _⟩⟩ := h
    simp only [Expr.value, Expr.values, hx, hy]
    exact .roundTo _ _ hw

/-- A call that means something has a tree of that value. -/
theorem exists_calls_of_callMeans {w : String} {items : List (List Token × Option V)}
    {args : List Expr} {v : Option V} (h : List.Forall₂ (Valued I) items args)
    (hc : CallMeans I w items v) : ∃ e, Calls w args e ∧ e.value I = v := by
  cases hc with
  | now hw => cases h with | nil => exact ⟨_, .now hw, by simp only [Expr.value, Expr.values]; rfl⟩
  | dateAdd hw hu =>
    obtain _ | ⟨⟨hd, -⟩, _ | ⟨⟨-, hy⟩, _ | ⟨⟨-, hz⟩, _ | _⟩⟩⟩ := h
    refine ⟨_, .dateAdd hw ((writesUnit_iff hd).1 hu), ?_⟩
    simp only [Expr.value, Expr.values, hy, hz]
    rfl
  | dateDiff hw hu =>
    obtain _ | ⟨⟨hd, -⟩, _ | ⟨⟨-, hy⟩, _ | ⟨⟨-, hz⟩, _ | _⟩⟩⟩ := h
    refine ⟨_, .dateDiff hw ((writesUnit_iff hd).1 hu), ?_⟩
    simp only [Expr.value, Expr.values, hy, hz]
    rfl
  | monthPart hw hu =>
    obtain _ | ⟨⟨hd, -⟩, _ | ⟨⟨-, hy⟩, _ | _⟩⟩ := h
    refine ⟨_, .monthPart hw ((writesUnit_iff hd).1 hu), ?_⟩
    simp only [Expr.value, Expr.values, hy]
    rfl
  | yearPart hw hu =>
    obtain _ | ⟨⟨hd, -⟩, _ | ⟨⟨-, hy⟩, _ | _⟩⟩ := h
    refine ⟨_, .yearPart hw ((writesUnit_iff hd).1 hu), ?_⟩
    simp only [Expr.value, Expr.values, hy]
    rfl
  | month _ hw =>
    obtain _ | ⟨⟨-, hx⟩, _ | _⟩ := h
    refine ⟨_, .month _ hw, ?_⟩
    simp only [Expr.value, Expr.values, hx]
    rfl
  | year _ hw =>
    obtain _ | ⟨⟨-, hx⟩, _ | _⟩ := h
    refine ⟨_, .year _ hw, ?_⟩
    simp only [Expr.value, Expr.values, hx]
    rfl
  | nullTest _ hw =>
    obtain _ | ⟨⟨-, hx⟩, _ | _⟩ := h
    refine ⟨_, .nullTest _ hw, ?_⟩
    simp only [Expr.value, hx]
  | orElse _ _ hw =>
    obtain _ | ⟨⟨-, hx⟩, _ | ⟨⟨-, hy⟩, _ | _⟩⟩ := h
    refine ⟨_, .orElse _ _ hw, ?_⟩
    simp only [Expr.value, Expr.values, hx, hy]
    rfl
  | orZero _ hw =>
    obtain _ | ⟨⟨-, hx⟩, _ | _⟩ := h
    refine ⟨_, .orZero _ hw, ?_⟩
    simp only [Expr.value, Expr.values, hx]
    rfl
  | coalesce hw hl =>
    obtain ⟨e, he⟩ := exists_coalesced (h.length_eq ▸ hl)
    exact ⟨e, .coalesce hw he, by rw [value_coalesced I he, map_value_eq h]⟩
  | iif _ _ _ hw =>
    obtain _ | @⟨_, test, _, _, ⟨-, hx⟩, _ | ⟨⟨-, hy⟩, _ | @⟨_, no, _, _, ⟨-, hz⟩, _ | _⟩⟩⟩ := h
    by_cases ht : IsNullTestOf test no
    · refine ⟨_, .iifCoalesce hw ht, ?_⟩
      simp only [Expr.value, Expr.values, hy, hz, Interpretation.call]
      rw [← hx, value_isNullTestOf I ht, hz, I.iif_isNull]
    · refine ⟨_, .iif hw ht, ?_⟩
      simp only [Expr.value, Expr.values, hx, hy, hz]
      rfl
  | abs _ hw =>
    obtain _ | ⟨⟨-, hx⟩, _ | _⟩ := h
    refine ⟨_, .abs _ hw, ?_⟩
    simp only [Expr.value, Expr.values, hx]
    rfl
  | round _ hw =>
    obtain _ | ⟨⟨-, hx⟩, _ | _⟩ := h
    refine ⟨_, .round _ hw, ?_⟩
    simp only [Expr.value, Expr.values, hx]
    rfl
  | roundTo _ _ hw =>
    obtain _ | ⟨⟨-, hx⟩, _ | ⟨⟨-, hy⟩, _ | _⟩⟩ := h
    refine ⟨_, .roundTo _ _ hw, ?_⟩
    simp only [Expr.value, Expr.values, hx, hy]
    rfl

/-- Tokens mean the value of the tree that they are read as. -/
theorem means_of_derives {p : Tier} {ts : List Token} {e : Expr} (h : Derives p ts e) :
    Means I p ts (e.value I) := by
  induction h with
  | tighter hn _ ih => exact .tighter hn ih
  | join hj hn _ _ ihl ihr => rw [Expr.value]; exact .join hj hn ihl ihr
  | not hk _ ih => rw [Expr.value]; exact .not hk ih
  | compare hc _ _ ihl ihr => rw [Expr.value]; exact .compare hc ihl ihr
  | isNull hi hneg hnull _ ih => rw [Expr.value]; exact .isNull hi hneg hnull ih
  | between hneg hb ha _ _ _ ih ihl ihh => rw [Expr.value]; exact .between hneg hb ha ih ihl ihh
  | @inList i negated ts ns e items hneg hi _ hne _ ih ihs =>
    rw [Expr.value, Expr.values_eq_map, List.map_map]
    have h := @Means.inList V I i negated ts ns _ (items.map fun x => (x.1, x.2.value I)) hneg hi ih
      (by simpa using hne) (List.forall_mem_map.2 ihs)
    simpa [Function.comp_def] using h
  | like hneg hk _ _ ih ihp => rw [Expr.value]; exact .like hneg hk ih ihp
  | neg _ ih => rw [Expr.value]; exact .neg ih
  | plus _ ih => exact .plus ih
  | number digits => rw [Expr.value]; exact .number digits
  | text content => rw [Expr.value]; exact .text content
  | date content => rw [Expr.value]; exact .date content
  | null hk => rw [Expr.value]; exact .null hk
  | currentTimestamp hk => rw [Expr.value, Expr.values]; exact .currentTimestamp hk
  | column hn => rw [Expr.value]; exact .column hn
  | qualifiedColumn ht hu => rw [Expr.value]; exact .qualifiedColumn ht hu
  | nested _ ih => rw [Expr.value]; exact .nested ih
  | @call w items e hd hc ihs =>
    have hv : List.Forall₂ (Valued I) (items.map fun x => (x.1, x.2.value I))
        (items.map Prod.snd) := by
      rw [List.forall₂_map_left_iff, List.forall₂_map_right_iff, List.forall₂_same]
      exact fun x hx => ⟨hd x hx, rfl⟩
    have h := @Means.call V I w (items.map fun x => (x.1, x.2.value I)) _
      (List.forall_mem_map.2 ihs) (callMeans_of_calls hv hc)
    simpa [Function.comp_def] using h

/-- Items that mean something have trees of these values. -/
theorem exists_trees {items : List (List Token × Option V)}
    (h : ∀ x ∈ items, ∃ e, Derives .disjunction x.1 e ∧ e.value I = x.2) :
    ∃ trees : List (List Token × Expr), trees.map Prod.fst = items.map Prod.fst ∧
      (∀ x ∈ trees, Derives .disjunction x.1 x.2) ∧
      List.Forall₂ (Valued I) items (trees.map Prod.snd) := by
  induction items with
  | nil => exact ⟨[], rfl, by simp, .nil⟩
  | cons x items ih =>
    obtain ⟨⟨e, he, hv⟩, hitems⟩ := List.forall_mem_cons.1 h
    obtain ⟨trees, hf, hd, hs⟩ := ih hitems
    exact ⟨(x.1, e) :: trees, by simp [hf], List.forall_mem_cons.2 ⟨he, hd⟩, .cons ⟨he, hv⟩ hs⟩

/-- Tokens that mean something are read as a tree of that value. -/
theorem exists_derives_of_means {p : Tier} {ts : List Token} {v : Option V} (h : Means I p ts v) :
    ∃ e, Derives p ts e ∧ e.value I = v := by
  induction h with
  | tighter hn _ ih =>
    obtain ⟨e, he, rfl⟩ := ih
    exact ⟨e, .tighter hn he, rfl⟩
  | join hj hn _ _ ihl ihr =>
    obtain ⟨l, hl, rfl⟩ := ihl
    obtain ⟨r, hr, rfl⟩ := ihr
    exact ⟨_, .join hj hn hl hr, by rw [Expr.value]⟩
  | not hk _ ih =>
    obtain ⟨e, he, rfl⟩ := ih
    exact ⟨_, .not hk he, by rw [Expr.value]⟩
  | compare hc _ _ ihl ihr =>
    obtain ⟨l, hl, rfl⟩ := ihl
    obtain ⟨r, hr, rfl⟩ := ihr
    exact ⟨_, .compare hc hl hr, by rw [Expr.value]⟩
  | isNull hi hneg hnull _ ih =>
    obtain ⟨e, he, rfl⟩ := ih
    exact ⟨_, .isNull hi hneg hnull he, by rw [Expr.value]⟩
  | between hneg hb ha _ _ _ ih ihl ihh =>
    obtain ⟨e, he, rfl⟩ := ih
    obtain ⟨l, hl, rfl⟩ := ihl
    obtain ⟨h, hh, rfl⟩ := ihh
    exact ⟨_, .between hneg hb ha he hl hh, by rw [Expr.value]⟩
  | @inList _ negated _ _ _ _ hneg hi _ hne _ ih ihs =>
    obtain ⟨e, he, rfl⟩ := ih
    obtain ⟨trees, hf, hd, hv⟩ := exists_trees ihs
    refine ⟨.inList negated e (trees.map Prod.snd), ?_, ?_⟩
    · rw [← hf]
      refine .inList hneg hi he ?_ hd
      rintro rfl
      exact hne (List.map_eq_nil_iff.1 hf.symm)
    · rw [Expr.value, Expr.values_eq_map, map_value_eq hv]
  | like hneg hk _ _ ih ihp =>
    obtain ⟨e, he, rfl⟩ := ih
    obtain ⟨p, hp, rfl⟩ := ihp
    exact ⟨_, .like hneg hk he hp, by rw [Expr.value]⟩
  | neg _ ih =>
    obtain ⟨e, he, rfl⟩ := ih
    exact ⟨_, .neg he, by rw [Expr.value]⟩
  | plus _ ih =>
    obtain ⟨e, he, rfl⟩ := ih
    exact ⟨e, .plus he, rfl⟩
  | number digits => exact ⟨_, .number digits, by rw [Expr.value]⟩
  | text content => exact ⟨_, .text content, by rw [Expr.value]⟩
  | date content => exact ⟨_, .date content, by rw [Expr.value]⟩
  | null hk => exact ⟨_, .null hk, by rw [Expr.value]⟩
  | currentTimestamp hk => exact ⟨_, .currentTimestamp hk, by rw [Expr.value, Expr.values]; rfl⟩
  | column hn => exact ⟨_, .column hn, by rw [Expr.value]⟩
  | qualifiedColumn ht hu => exact ⟨_, .qualifiedColumn ht hu, by rw [Expr.value]⟩
  | nested _ ih =>
    obtain ⟨e, he, rfl⟩ := ih
    exact ⟨_, .nested he, by rw [Expr.value]⟩
  | call _ hc ihs =>
    obtain ⟨trees, hf, hd, hv⟩ := exists_trees ihs
    obtain ⟨e, he, rfl⟩ := exists_calls_of_callMeans hv hc
    rw [← hf]
    exact ⟨e, .call hd he, rfl⟩

/-- Tokens mean exactly the value of the tree that they are read as. -/
theorem means_iff {p : Tier} {ts : List Token} {e : Expr} (h : Derives p ts e) {v : Option V} :
    Means I p ts v ↔ v = e.value I := by
  constructor
  · intro hv
    obtain ⟨e', he', rfl⟩ := exists_derives_of_means hv
    rw [h.unique he']
  · rintro rfl
    exact means_of_derives h

end Reading

end MetricBoard.Expression
