import MetricBoard.Proofs.Expression.Parts
import MetricBoard.Proofs.Expression.Wording

/-!
# Reading the text of a query

`Expr.reread` says what a written expression is read as: the tree again, with what the dialect
spells out, or nothing. Nothing is read when a test for null was written behind a predicate, as in
`(a = b IS NULL)`; behind AND, OR and NOT the test is read as a test of the last operand only.

Here it is shown of a call that its text is read so if the texts of its arguments are
(`reads_calls`), and of a test for null in parentheses (`reads_nested_test`).
-/

namespace MetricBoard.Expression

/-! ## What is read -/

/-- A test for null behind a tree: of the whole tree if that is a sum, of its last operand if it is
joined by AND or OR or negated by NOT, and of nothing if it ends in a predicate. -/
def Expr.test? (negated : Bool) : Expr → Option Expr
  | .unary .not e => (e.test? negated).map (.unary .not)
  | .binary .and l r => (r.test? negated).map (.binary .and l)
  | .binary .or l r => (r.test? negated).map (.binary .or l)
  | e => if e.isSum then some (.isNull negated e) else none

/-- A tree that is a negation. -/
def Expr.isNeg : Expr → Bool
  | .unary .neg _ => true
  | _ => false

namespace Dialect

/-- What a date is read as. -/
def dateTree : Dialect → String → Expr
  | tsql _, s => .text s
  | access, s => .date s

/-- What a call is read as. -/
def callTree (d : Dialect) (f : Function) (args : List Expr) : Expr :=
  match d, f, args with
  | tsql _, .round, [e] => .call .round [e, .number "0"]
  | _, .iif, [test, fallback, value] => Expr.iifOf test fallback value
  | _, f, args => .call f args

end Dialect

mutual

/-- What an expression is read as when it has been written. -/
def Expr.reread (d : Dialect) : Expr → Option Expr
  | .column parts => some (.column parts)
  | .number n => some (.number n)
  | .text s => some (.text s)
  | .date s => some (d.dateTree s)
  | .null => some .null
  | .call f args => (Expr.rereadAll d args).map (d.callTree f)
  | .unary .neg e =>
    (e.reread d).map fun operand => .unary .neg (if e.isNeg then .nested operand else operand)
  | .unary .not e => (e.reread d).map (.unary .not)
  | .binary op l r => (l.reread d).bind fun l => (r.reread d).map fun r => .binary op l r
  | .isNull negated e => (e.reread d).bind (Expr.test? negated)
  | .between negated e low high =>
    (e.reread d).bind fun e => (low.reread d).bind fun low =>
      (high.reread d).map fun high => .between negated e low high
  | .inList negated e items =>
    (e.reread d).bind fun e => (Expr.rereadAll d items).map fun items => .inList negated e items
  | .like negated e pattern =>
    (e.reread d).bind fun e => (pattern.reread d).map fun pattern => .like negated e pattern
  | .nested e => (e.reread d).map .nested

/-- What some expressions are read as when they have been written. -/
def Expr.rereadAll (d : Dialect) : List Expr → Option (List Expr)
  | [] => some []
  | e :: es => (e.reread d).bind fun e => (Expr.rereadAll d es).map fun es => e :: es

end

theorem Expr.test?_of_isSum {e : Expr} (h : e.isSum = true) (negated : Bool) :
    e.test? negated = some (.isNull negated e) := by
  cases e with
  | unary op _ => cases op <;> first | contradiction | rfl
  | binary op _ _ => cases op <;> first | contradiction | rfl
  | isNull _ _ | between _ _ _ _ | inList _ _ _ | like _ _ _ => contradiction
  | _ => rfl

theorem Expr.test?_eq_none_iff {e : Expr} (negated : Bool) :
    e.test? negated = none ↔ e.endsInPredicate = true := by
  fun_induction Expr.test? negated e with
  | case1 e ih => simpa [endsInPredicate] using ih
  | case2 l r ih => simpa [endsInPredicate] using ih
  | case3 l r ih => simpa [endsInPredicate] using ih
  | case4 e _ _ _ hs => simp [endsInPredicate_of_isSum hs]
  | case5 e hn ha ho hs =>
    simp only [true_iff]
    cases e with
    | unary op e => cases op <;> simp_all [isSum]
    | binary op l r => cases op <;> simp_all [isSum, endsInPredicate]
    | isNull _ _ | between _ _ _ _ | inList _ _ _ | like _ _ _ => rfl
    | _ => simp [isSum] at hs

theorem Expr.isSum_of_test? {negated : Bool} {e e' : Expr} (h : e.test? negated = some e') :
    e'.isSum = false := by
  unfold test? at h
  split at h
  · obtain ⟨r, -, rfl⟩ := Option.map_eq_some_iff.1 h
    rfl
  · obtain ⟨r, -, rfl⟩ := Option.map_eq_some_iff.1 h
    rfl
  · obtain ⟨r, -, rfl⟩ := Option.map_eq_some_iff.1 h
    rfl
  · split at h
    · obtain rfl := Option.some.inj h
      rfl
    · contradiction

theorem Dialect.isSum_callTree (d : Dialect) (f : Function) (args : List Expr) :
    (d.callTree f args).isSum = true := by
  unfold Dialect.callTree
  split
  · rfl
  · unfold Expr.iifOf
    split <;> rfl
  · rfl

theorem Expr.isSum_reread {d : Dialect} {e e' : Expr} (h : e.reread d = some e') :
    e'.isSum = e.isSum := by
  cases e with
  | call f args =>
    rw [reread] at h
    obtain ⟨es, -, rfl⟩ := Option.map_eq_some_iff.1 h
    exact d.isSum_callTree f es
  | unary op e =>
    cases op <;> rw [reread] at h <;> obtain ⟨e₁, -, rfl⟩ := Option.map_eq_some_iff.1 h <;> rfl
  | binary op l r =>
    rw [reread] at h
    obtain ⟨l', -, h⟩ := Option.bind_eq_some_iff.1 h
    obtain ⟨r', -, rfl⟩ := Option.map_eq_some_iff.1 h
    cases op <;> rfl
  | isNull negated e =>
    rw [reread] at h
    obtain ⟨e₁, -, h⟩ := Option.bind_eq_some_iff.1 h
    exact isSum_of_test? h
  | between negated e low high =>
    rw [reread] at h
    obtain ⟨e₁, -, h⟩ := Option.bind_eq_some_iff.1 h
    obtain ⟨low', -, h⟩ := Option.bind_eq_some_iff.1 h
    obtain ⟨high', -, rfl⟩ := Option.map_eq_some_iff.1 h
    rfl
  | inList negated e items =>
    rw [reread] at h
    obtain ⟨e₁, -, h⟩ := Option.bind_eq_some_iff.1 h
    obtain ⟨es, -, rfl⟩ := Option.map_eq_some_iff.1 h
    rfl
  | like negated e pattern =>
    rw [reread] at h
    obtain ⟨e₁, -, h⟩ := Option.bind_eq_some_iff.1 h
    obtain ⟨p', -, rfl⟩ := Option.map_eq_some_iff.1 h
    rfl
  | nested e =>
    rw [reread] at h
    obtain ⟨e₁, -, rfl⟩ := Option.map_eq_some_iff.1 h
    rfl
  | date s =>
    rw [reread] at h
    obtain rfl := Option.some.inj h
    cases d <;> rfl
  | _ =>
    rw [reread] at h
    obtain rfl := Option.some.inj h
    rfl

/-- What a sum is read as is a sum. -/
theorem Expr.isSum_of_reread {d : Dialect} {e e' : Expr} (h : e.reread d = some e')
    (hs : e.isSum = true) : e'.isSum = true := (isSum_reread h).trans hs

/-! ## Keywords and operators as they are written -/

theorem keyword_not : (Token.word "NOT").keyword? = some .not :=
  Keyword.ofWord?_eq_some (Text.upper_eq rfl)

theorem keyword_is : (Token.word "IS").keyword? = some .is :=
  Keyword.ofWord?_eq_some (Text.upper_eq rfl)

theorem keyword_null : (Token.word "NULL").keyword? = some .null :=
  Keyword.ofWord?_eq_some (Text.upper_eq rfl)

theorem keyword_between : (Token.word "BETWEEN").keyword? = some .between :=
  Keyword.ofWord?_eq_some (Text.upper_eq rfl)

theorem keyword_in : (Token.word "IN").keyword? = some .in_ :=
  Keyword.ofWord?_eq_some (Text.upper_eq rfl)

theorem keyword_like : (Token.word "LIKE").keyword? = some .like :=
  Keyword.ofWord?_eq_some (Text.upper_eq rfl)

theorem keyword_and : (Token.word "AND").keyword? = some .and :=
  Keyword.ofWord?_eq_some (Text.upper_eq rfl)

theorem keyword_or : (Token.word "OR").keyword? = some .or :=
  Keyword.ofWord?_eq_some (Text.upper_eq rfl)

theorem keyword_mod : (Token.word "Mod").keyword? = some .mod :=
  Keyword.ofWord?_eq_some (Text.upper_eq rfl)

theorem keyword_select : (Token.word "SELECT").keyword? = some .select :=
  Keyword.ofWord?_eq_some (Text.upper_eq rfl)

theorem keyword_distinct : (Token.word "DISTINCT").keyword? = some .distinct :=
  Keyword.ofWord?_eq_some (Text.upper_eq rfl)

theorem keyword_as : (Token.word "AS").keyword? = some .as :=
  Keyword.ofWord?_eq_some (Text.upper_eq rfl)

theorem keyword_from : (Token.word "FROM").keyword? = some .from_ :=
  Keyword.ofWord?_eq_some (Text.upper_eq rfl)

theorem keyword_with : (Token.word "WITH").keyword? = some .with_ :=
  Keyword.ofWord?_eq_some (Text.upper_eq rfl)

theorem keyword_where : (Token.word "WHERE").keyword? = some .where_ :=
  Keyword.ofWord?_eq_some (Text.upper_eq rfl)

theorem joins_operatorToken {p : Tier} {t : Token} {op : BinaryOp} (h : Joins p t op)
    (d : Dialect) : Joins p (d.operatorToken op) op := by
  cases h with
  | or => exact .or keyword_or
  | and => exact .and keyword_and
  | add => exact .add
  | sub => exact .sub
  | mul => exact .mul
  | div => exact .div
  | percent | mod =>
    cases d with
    | tsql _ => exact .percent
    | access => exact .mod keyword_mod

theorem compares_operatorToken {t : Token} {op : BinaryOp} (h : Compares t op) (d : Dialect) :
    Compares (d.operatorToken op) op := by
  cases h <;> constructor

/-- NOT as it is written, or its absence. -/
def notTokens (negated : Bool) : List Token := if negated then [.word "NOT"] else []

theorem negates_notTokens (negated : Bool) : Negates negated (notTokens negated) := by
  cases negated with
  | false => exact .plain
  | true => exact .not keyword_not

@[simp] theorem tokens_notPieces (negated : Bool) :
    Piece.tokens (notPieces negated) = notTokens negated := by
  cases negated <;> rfl

@[simp] theorem tokens_commaSeparated (pss : List (List Piece)) :
    Piece.tokens (Piece.commaSeparated pss) = commaJoined (pss.map Piece.tokens) := by
  induction pss with
  | nil => rfl
  | cons ps pss ih =>
    cases pss with
    | nil => rfl
    | cons qs pss => simpa [Piece.commaSeparated, commaJoined] using ih

theorem tokens_call (w : String) (args : List (List Piece)) :
    Piece.tokens (Piece.call w args) =
      .word w :: .lparen :: (commaJoined (args.map Piece.tokens) ++ [.rparen]) := by
  simp [Piece.call]

/-! ## Tiers -/

section Tiers

variable {ts us : List Token} {o : Option Expr}

/-- A sum of one part can stand wherever an expression can. -/
theorem Reads.disjunction_of_signed (h : Reads .signed ts o)
    (hs : ∀ e, o = some e → e.isSum = true) : Reads .disjunction ts o :=
  reads_level .disjunction <| reads_level .conjunction <| reads_negation <|
    reads_predicate (fun e he => Expr.endsInPredicate_of_isSum (hs e he)) <|
      reads_level .sum <| reads_level .product h

theorem Reads.disjunction_of_primary (h : Reads .primary ts o)
    (hs : ∀ e, o = some e → e.isSum = true) : Reads .disjunction ts o :=
  (reads_signed h).disjunction_of_signed hs

/-- Behind some tokens IS NULL is read as a test of their tree. -/
def Tests (p : Tier) (ts : List Token) (o : Option Expr) : Prop :=
  ∀ e e', o = some e → e.test? false = some e' →
    Reads p (ts ++ [.word "IS", .word "NULL"]) (some e')

theorem tests_of_endsInPredicate {p : Tier} (h : ∀ e, o = some e → e.endsInPredicate = true) :
    Tests p ts o := by
  intro e e' he ht
  rw [(Expr.test?_eq_none_iff false).2 (h e he)] at ht
  contradiction

theorem tests_of_isSum (h : Reads .sum ts o) (hs : ∀ e, o = some e → e.isSum = true) :
    Tests .predicate ts o := by
  intro e e' he ht
  rw [Expr.test?_of_isSum (hs e he)] at ht
  have hr := reads_isNull keyword_is .plain keyword_null h
  rwa [he, Option.map_some, ht] at hr

theorem tests_negation (h : Tests .predicate ts o) : Tests .negation ts o :=
  fun e e' he ht => reads_negation (h e e' he ht)

theorem tests_level (level : Level) (h : Tests level.operandTier ts o) : Tests level.tier ts o :=
  fun e e' he ht => reads_level level (h e e' he ht)

theorem tests_not {t : Token} (hk : t.keyword? = some .not) (h : Tests .negation ts o) :
    Tests .negation (t :: ts) (o.map (.unary .not)) := by
  intro e e' he ht
  obtain ⟨e₁, he₁, rfl⟩ := Option.map_eq_some_iff.1 he
  obtain ⟨e₂, he₂, rfl⟩ := Option.map_eq_some_iff.1 ht
  exact reads_not hk (h e₁ e₂ he₁ he₂)

theorem tests_join (level : Level) {t : Token} {op : BinaryOp} {ol or : Option Expr}
    (ha : level.operandTier.isArithmetic = false) (hj : Joins level.tier t op)
    (hl : Reads level.tier ts ol) (hr : Tests level.operandTier us or) :
    Tests level.tier (ts ++ t :: us) (ol.bind fun l => or.map fun r => .binary op l r) := by
  intro e e' he ht
  obtain ⟨l, rfl, he⟩ := Option.bind_eq_some_iff.1 he
  obtain ⟨r, rfl, rfl⟩ := Option.map_eq_some_iff.1 he
  have hop : (Expr.binary op l r).test? false = (r.test? false).map (.binary op l) := by
    cases level with
    | disjunction => cases hj; rfl
    | conjunction => cases hj; rfl
    | sum => contradiction
    | product => contradiction
  rw [hop] at ht
  obtain ⟨r', hr', rfl⟩ := Option.map_eq_some_iff.1 ht
  rw [List.append_assoc, List.cons_append]
  exact reads_join level hj hl (hr r r' rfl hr')

/-- A test for null in parentheses. -/
theorem reads_nested_test (h : Reads .disjunction ts o) (ht : Tests .disjunction ts o) :
    Reads .primary (.lparen :: (ts ++ ([.word "IS", .word "NULL"] ++ [.rparen])))
      ((o.bind (Expr.test? false)).map .nested) := by
  cases hb : o.bind (Expr.test? false) with
  | some e' =>
    obtain ⟨e, he, he'⟩ := Option.bind_eq_some_iff.1 hb
    rw [← List.append_assoc]
    exact reads_nested (ht e e' he he')
  | none =>
    refine reads_nested_append h (fun zs i rest e he hz => ?_) fun _ => rfl
    obtain ⟨j, ys, rfl, hy⟩ := tokens_eq_cons_iff.1 hz
    have hend : e.endsInPredicate = true := by
      rw [← Expr.test?_eq_none_iff false]
      rwa [he] at hb
    refine ⟨follows_of_keyword (t := ⟨.word "IS", j⟩) keyword_is (by simp) (by simp) (by simp) ?_,
      rfl⟩
    intro _ h
    rw [hend] at h
    contradiction

end Tiers

/-! ## Calls -/

section Calls

variable {d : Dialect}

/-- What is known of an argument when the call that it stands in is read. -/
def ReadsWritten (d : Dialect) (e : Expr) : Prop :=
  Reads .disjunction (Piece.tokens (e.pieces d)) (e.reread d)

theorem readsAll_written {es : List Expr} (h : ∀ e ∈ es, ReadsWritten d e) :
    ReadsAll ((Expr.piecesOfAll d es).map Piece.tokens) (Expr.rereadAll d es) := by
  induction es with
  | nil => exact .nil
  | cons e es ih =>
    obtain ⟨he, hes⟩ := List.forall_mem_cons.1 h
    exact .cons he (ih hes)

/-- A call of a function by a name, where every row of arguments has its tree. -/
theorem reads_named {w : String} {tss : List (List Token)} {os : Option (List Expr)}
    {f : List Expr → Expr} (h : ReadsAll tss os) (hw : Keyword.ofWord? w = none)
    (hf : ∀ es, os = some es → Calls w es (f es)) :
    Reads .primary (.word w :: .lparen :: (commaJoined tss ++ [.rparen])) (os.map f) := by
  have hr := reads_call hw h
  have ho : os.bind (callTree? w) = os.map f := by
    cases os with
    | none => rfl
    | some es => exact callTree?_eq_some_iff.2 (hf es rfl)
  rwa [ho] at hr

@[simp] theorem rereadAll_nil : Expr.rereadAll d [] = some [] := by rw [Expr.rereadAll]

@[simp] theorem rereadAll_cons (e : Expr) (es : List Expr) :
    Expr.rereadAll d (e :: es) =
      (e.reread d).bind fun e => (Expr.rereadAll d es).map fun es => e :: es := by
  rw [Expr.rereadAll]

theorem rereadAll_eq_nil {es : List Expr} (h : Expr.rereadAll d es = some []) : es = [] := by
  cases es with
  | nil => rfl
  | cons e es =>
    rw [rereadAll_cons] at h
    obtain ⟨e', -, h⟩ := Option.bind_eq_some_iff.1 h
    obtain ⟨es', -, h⟩ := Option.map_eq_some_iff.1 h
    contradiction

theorem rereadAll_eq_cons {es es' : List Expr} {e' : Expr}
    (h : Expr.rereadAll d es = some (e' :: es')) :
    ∃ e as, es = e :: as ∧ e.reread d = some e' ∧ Expr.rereadAll d as = some es' := by
  cases es with
  | nil =>
    rw [rereadAll_nil] at h
    cases h
  | cons e as =>
    rw [rereadAll_cons] at h
    obtain ⟨e₁, he, h⟩ := Option.bind_eq_some_iff.1 h
    obtain ⟨es₁, hes, h⟩ := Option.map_eq_some_iff.1 h
    obtain ⟨rfl, rfl⟩ := List.cons.inj h
    exact ⟨e, as, rfl, he, hes⟩

theorem length_of_rereadAll {es es' : List Expr} (h : Expr.rereadAll d es = some es') :
    es'.length = es.length := by
  induction es generalizing es' with
  | nil =>
    rw [rereadAll_nil] at h
    exact congrArg List.length (Option.some.inj h).symm
  | cons e es ih =>
    rw [rereadAll_cons] at h
    obtain ⟨a, -, h⟩ := Option.bind_eq_some_iff.1 h
    obtain ⟨as, ha, rfl⟩ := Option.map_eq_some_iff.1 h
    exact congrArg (· + 1) (ih ha)

theorem Function.Takes.reread {f : Function} {es es' : List Expr} (h : f.Takes es)
    (hr : Expr.rereadAll d es = some es') : f.Takes es' := by
  cases h <;> simp only [rereadAll_nil, rereadAll_cons, Option.bind_eq_some_iff,
    Option.map_eq_some_iff, Option.some.injEq] at hr
  case now => obtain rfl := hr; exact .now
  all_goals obtain ⟨a, -, es, hr, rfl⟩ := hr
  case month | year | abs | round => obtain rfl := hr; constructor
  all_goals obtain ⟨b, -, es, hr, rfl⟩ := hr
  case iif =>
    obtain ⟨c, -, es, hr, rfl⟩ := hr
    obtain rfl := hr
    exact .iif a b c
  all_goals obtain rfl := hr; constructor

/-- A call that a function is written with. -/
theorem reads_writtenCall {w : String} {f : Function} {es : List Expr} (ht : f.Takes es)
    (h : ∀ e ∈ es, ReadsWritten d e)
    (hc : ∀ es', f.Takes es' → es'.length = es.length → Calls w es' (d.callTree f es')) :
    Reads .primary (Piece.tokens (Piece.call w (Expr.piecesOfAll d es)))
      ((Expr.rereadAll d es).map (d.callTree f)) := by
  rw [tokens_call]
  exact reads_named (readsAll_written h) (hc es ht rfl).ofWord?_eq_none fun es' he =>
    hc es' (ht.reread he) (length_of_rereadAll he)

/-- A call that is written with a date unit before its arguments. -/
theorem reads_writtenUnitCall {w : String} {unit : Token} {tree : Expr} {f : Function}
    {e₁ e₂ : Expr} (ht : f.Takes [e₁, e₂]) (h : ∀ e ∈ [e₁, e₂], ReadsWritten d e)
    (hu : Reads .primary [unit] (some tree)) (hs : tree.isSum = true)
    (hc : ∀ es, f.Takes es → Calls w (tree :: es) (d.callTree f es)) :
    Reads .primary (Piece.tokens (Piece.unitCall w unit (Expr.piecesOfAll d [e₁, e₂])))
      ((Expr.rereadAll d [e₁, e₂]).map (d.callTree f)) := by
  have hunit : Reads .disjunction [unit] (some tree) :=
    hu.disjunction_of_primary fun e he => Option.some.inj he ▸ hs
  have hr := reads_named (w := w) (.cons hunit (readsAll_written h))
    (f := fun es => d.callTree f es.tail) (hc _ ht).ofWord?_eq_none fun es he => ?_
  · simpa [Piece.unitCall, Expr.piecesOfAll, commaJoined, Function.comp_def] using hr
  · obtain ⟨es', he', rfl⟩ := Option.map_eq_some_iff.1 he
    exact hc es' (ht.reread he')

theorem ofWord?_datePart (u : DateUnit) : DateUnit.ofWord? u.datePart = some u := by
  have h : Text.lower (Text.trim u.datePart) = u.datePart := Text.lower_eq (by cases u <;> rfl)
  rw [DateUnit.ofWord?, h]
  cases u <;> rfl

theorem ofWord?_intervalCode (u : DateUnit) : DateUnit.ofWord? u.intervalCode = some u := by
  have h : Text.lower (Text.trim u.intervalCode) = u.intervalCode :=
    Text.lower_eq (by cases u <;> rfl)
  rw [DateUnit.ofWord?, h]
  cases u <;> rfl

theorem name?_datePart (u : DateUnit) : (Token.word u.datePart).name? = some u.datePart :=
  Token.name?_word (by cases u <;> decide)

/-- The calls that T-SQL is written with. -/
theorem reads_tsql {schema : String} {f : Function} {es : List Expr} (ht : f.Takes es)
    (h : ∀ e ∈ es, ReadsWritten (.tsql schema) e) :
    Reads .primary (Piece.tokens ((Dialect.tsql schema).callPieces f
      (Expr.piecesOfAll (.tsql schema) es))) ((Expr.rereadAll (.tsql schema) es).map
        ((Dialect.tsql schema).callTree f)) := by
  have named (w : String) (hc : ∀ es', f.Takes es' → es'.length = es.length →
      Calls w es' ((Dialect.tsql schema).callTree f es')) := reads_writtenCall ht h hc
  cases ht with
  | now =>
    have hw : Text.upper "GETDATE" = "GETDATE" := Text.upper_eq rfl
    refine named "GETDATE" fun es he _ => ?_
    cases he
    exact .now (by simp [hw])
  | dateAdd u amount moment =>
    refine reads_writtenUnitCall (.dateAdd u amount moment) h (reads_column (name?_datePart u)) rfl
      fun es he => ?_
    cases he
    exact .dateAdd (Text.upper_eq rfl) (.bare (ofWord?_datePart u))
  | dateDiff u earlier later =>
    refine reads_writtenUnitCall (.dateDiff u earlier later) h (reads_column (name?_datePart u)) rfl
      fun es he => ?_
    cases he
    exact .dateDiff (Text.upper_eq rfl) (.bare (ofWord?_datePart u))
  | month e =>
    refine named "MONTH" fun es he _ => ?_
    cases he
    exact .month _ (Text.upper_eq rfl)
  | year e =>
    refine named "YEAR" fun es he _ => ?_
    cases he
    exact .year _ (Text.upper_eq rfl)
  | coalesce e fallback =>
    have hw : Text.upper "ISNULL" = "ISNULL" := Text.upper_eq rfl
    refine named "ISNULL" fun es he _ => ?_
    cases he
    exact .orElse _ _ (by simp [hw])
  | iif test yes no =>
    refine named "IIF" fun es he _ => ?_
    cases he
    exact calls_iif (Text.upper_eq rfl) _ _ _
  | abs e =>
    refine named "ABS" fun es he _ => ?_
    cases he
    exact .abs _ (Text.upper_eq rfl)
  | round e =>
    have hzero : Reads .disjunction [.number "0"] (some (.number "0")) :=
      (reads_number "0").disjunction_of_primary fun e he => Option.some.inj he ▸ rfl
    have hall := ReadsAll.cons (h e List.mem_cons_self) (.cons hzero .nil)
    have hcalls (a : Expr) : Calls "ROUND" [a, .number "0"] (.call .round [a, .number "0"]) :=
      .roundTo _ _ (Text.upper_eq rfl)
    have hr := reads_named (w := "ROUND") (f := .call .round) hall (hcalls e).ofWord?_eq_none
      fun es he => by
        obtain ⟨a, -, he⟩ := Option.bind_eq_some_iff.1 he
        obtain rfl : [a, .number "0"] = es := Option.some.inj he
        exact hcalls a
    simp only [rereadAll_cons, rereadAll_nil, Option.map_bind]
    simpa [Dialect.callPieces, Expr.piecesOfAll, tokens_call, Dialect.callTree, Option.map_bind,
      Function.comp_def] using hr
  | roundTo e places =>
    refine named "ROUND" fun es he hl => ?_
    cases he with
    | round _ => exact absurd hl (by simp)
    | roundTo a b => exact .roundTo a b (Text.upper_eq rfl)

/-- The test of a value for null that is written for the file database. -/
theorem reads_nullTest {ts : List Token} {o : Option Expr} (h : Reads .disjunction ts o) :
    Reads .primary (.word "IsNull" :: .lparen :: (commaJoined [ts] ++ [.rparen]))
      (o.map fun e => .nested (.isNull false e)) := by
  have hcalls (e : Expr) : Calls "IsNull" [e] (.nested (.isNull false e)) :=
    .nullTest e (Text.upper_eq rfl)
  have hr := reads_call (hcalls .null).ofWord?_eq_none (.cons h .nil)
  cases o with
  | none => exact hr
  | some e =>
    rwa [Option.bind_some, Option.map_some, Option.bind_some,
      callTree?_eq_some_iff.2 (hcalls e)] at hr

/-- The coalesce that is written for the file database: its test for null is recognised. -/
theorem reads_coalesce {ts us : List Token} {o o' : Option Expr} (h : Reads .disjunction ts o)
    (h' : Reads .disjunction us o') :
    Reads .primary (.word "IIf" :: .lparen :: (commaJoined
      [.word "IsNull" :: .lparen :: (commaJoined [ts] ++ [.rparen]), us, ts] ++ [.rparen]))
      (o.bind fun e => o'.map fun e' => .call .coalesce [e, e']) := by
  have ht := (reads_nullTest h).disjunction_of_primary fun e he => by
    obtain ⟨_, -, rfl⟩ := Option.map_eq_some_iff.1 he
    rfl
  have hcalls (e e' : Expr) : Calls "IIf" [.nested (.isNull false e), e', e]
      (.call .coalesce [e, e']) := .iifCoalesce (Text.upper_eq rfl) (Or.inr rfl)
  have hr := reads_call (hcalls .null .null).ofWord?_eq_none (.cons ht (.cons h' (.cons h .nil)))
  cases o with
  | none => exact hr
  | some e =>
    cases o' with
    | none => exact hr
    | some e' =>
      simpa [callTree?_eq_some_iff.2 (hcalls e e')] using hr

/-- The calls that the file database is written with. -/
theorem reads_access {f : Function} {es : List Expr} (ht : f.Takes es)
    (h : ∀ e ∈ es, ReadsWritten .access e) :
    Reads .primary (Piece.tokens (Dialect.access.callPieces f (Expr.piecesOfAll .access es)))
      ((Expr.rereadAll .access es).map (Dialect.access.callTree f)) := by
  have named (w : String) (hc : ∀ es', f.Takes es' → es'.length = es.length →
      Calls w es' (Dialect.access.callTree f es')) := reads_writtenCall ht h hc
  have unit (u : DateUnit) : Reads .primary [.text u.intervalCode] (some (.text u.intervalCode)) :=
    reads_text _
  cases ht with
  | now =>
    have hw : Text.upper "Date" = "DATE" := Text.upper_eq rfl
    refine named "Date" fun es he _ => ?_
    cases he
    exact .now (by simp [hw])
  | dateAdd u amount moment =>
    refine reads_writtenUnitCall (.dateAdd u amount moment) h (unit u) rfl fun es he => ?_
    cases he
    exact .dateAdd (Text.upper_eq rfl) (.text (ofWord?_intervalCode u))
  | dateDiff u earlier later =>
    refine reads_writtenUnitCall (.dateDiff u earlier later) h (unit u) rfl fun es he => ?_
    cases he
    exact .dateDiff (Text.upper_eq rfl) (.text (ofWord?_intervalCode u))
  | month e =>
    refine named "Month" fun es he _ => ?_
    cases he
    exact .month _ (Text.upper_eq rfl)
  | year e =>
    refine named "Year" fun es he _ => ?_
    cases he
    exact .year _ (Text.upper_eq rfl)
  | coalesce e fallback =>
    have hr := reads_coalesce (h e (by simp)) (h fallback (by simp))
    rw [rereadAll_cons, rereadAll_cons, rereadAll_nil]
    simpa [Dialect.callPieces, Expr.piecesOfAll, tokens_call, Dialect.callTree, Option.map_bind,
      Function.comp_def, Option.map_eq_bind, Option.bind_assoc] using hr
  | iif test yes no =>
    refine named "IIf" fun es he _ => ?_
    cases he
    exact calls_iif (Text.upper_eq rfl) _ _ _
  | abs e =>
    refine named "Abs" fun es he _ => ?_
    cases he
    exact .abs _ (Text.upper_eq rfl)
  | round _ | roundTo _ _ =>
    refine named "Round" fun es he _ => ?_
    cases he with
    | round a => exact .round a (Text.upper_eq rfl)
    | roundTo a b => exact .roundTo a b (Text.upper_eq rfl)

theorem reads_function {f : Function} {es : List Expr} (ht : f.Takes es)
    (h : ∀ e ∈ es, ReadsWritten d e) :
    Reads .primary (Piece.tokens ((Expr.call f es).pieces d)) ((Expr.call f es).reread d) := by
  rw [Expr.pieces, Expr.reread]
  cases d with
  | tsql schema => exact reads_tsql ht h
  | access => exact reads_access ht h

theorem readsWritten_zero : ReadsWritten d (.number "0") := by
  unfold ReadsWritten
  rw [Expr.pieces, Expr.reread]
  exact (reads_number "0").disjunction_of_primary fun e he => Option.some.inj he ▸ rfl

theorem isSum_of_reread_call {f : Function} {es : List Expr} {e : Expr}
    (h : (Expr.call f es).reread d = some e) : e.isSum = true := Expr.isSum_of_reread h rfl

theorem reads_coalesced {es : List Expr} {e : Expr} (hc : Coalesced es e)
    (h : ∀ e ∈ es, ReadsWritten d e) : Reads .primary (Piece.tokens (e.pieces d)) (e.reread d) := by
  induction hc with
  | pair a b => exact reads_function (.coalesce a b) h
  | @more a b c rest e hc ih =>
    obtain ⟨ha, hrest⟩ := List.forall_mem_cons.1 h
    refine reads_function (.coalesce a e) ?_
    simp only [List.mem_cons, List.not_mem_nil, or_false, forall_eq_or_imp, forall_eq]
    refine ⟨ha, (ih hrest).disjunction_of_primary fun e' he => ?_⟩
    cases hc <;> exact isSum_of_reread_call he

theorem reads_calls {w : String} {es : List Expr} {e : Expr} (hc : Calls w es e)
    (h : ∀ e ∈ es, ReadsWritten d e ∧ Tests .disjunction (Piece.tokens (e.pieces d)) (e.reread d)) :
    Reads .primary (Piece.tokens (e.pieces d)) (e.reread d) := by
  have hw : ∀ e ∈ es, ReadsWritten d e := fun e he => (h e he).1
  cases hc with
  | now _ => exact reads_function .now hw
  | dateAdd _ _ =>
    exact reads_function (.dateAdd _ _ _) fun e he => hw e (List.mem_cons_of_mem _ he)
  | dateDiff _ _ =>
    exact reads_function (.dateDiff _ _ _) fun e he => hw e (List.mem_cons_of_mem _ he)
  | monthPart _ _ => exact reads_function (.month _) fun e he => hw e (List.mem_cons_of_mem _ he)
  | yearPart _ _ => exact reads_function (.year _) fun e he => hw e (List.mem_cons_of_mem _ he)
  | month _ _ => exact reads_function (.month _) hw
  | year _ _ => exact reads_function (.year _) hw
  | nullTest e _ =>
    obtain ⟨he, ht⟩ := h e List.mem_cons_self
    simpa [Expr.pieces, Expr.reread, notTokens] using reads_nested_test he ht
  | orElse _ _ _ => exact reads_function (.coalesce _ _) hw
  | orZero e _ =>
    refine reads_function (.coalesce _ _) ?_
    simp only [List.mem_cons, List.not_mem_nil, or_false, forall_eq_or_imp, forall_eq]
    exact ⟨hw e List.mem_cons_self, readsWritten_zero⟩
  | coalesce _ hc => exact reads_coalesced hc hw
  | @iifCoalesce test fallback value _ _ =>
    refine reads_function (.coalesce _ _) ?_
    simp only [List.mem_cons, List.not_mem_nil, or_false, forall_eq_or_imp, forall_eq]
    exact ⟨hw value (by simp), hw fallback (by simp)⟩
  | iif _ _ => exact reads_function (.iif _ _ _) hw
  | abs _ _ => exact reads_function (.abs _) hw
  | round _ _ => exact reads_function (.round _) hw
  | roundTo _ _ _ => exact reads_function (.roundTo _ _) hw

end Calls

end MetricBoard.Expression
