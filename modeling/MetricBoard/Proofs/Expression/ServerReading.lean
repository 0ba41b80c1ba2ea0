import MetricBoard.Proofs.Expression.RoundTrip
import MetricBoard.Proofs.Expression.Servers

/-!
# Servers read what was meant

The text of a query goes to a server that has a grammar of its own. The server reads the query that
the source was read as, in its normal form, exactly when every test for null is a test of a sum and,
for the file database, no remainder is the left operand of a product or a quotient
(`serverDerivesQuery_sql_iff`).
-/

namespace MetricBoard.Expression

variable {d : Dialect}

/-! ## Queries as a server reads them -/

/-- The tokens that a server reads as an aggregate. -/
inductive ServerDerivesAggregate (d : Dialect) : List Token → Aggregate → Prop
  | star {w : String} : AggregateFunction.ofWord? w = some .count →
      ServerDerivesAggregate d [.word w, .lparen, .star, .rparen] ⟨.count, false, .star⟩
  | expr {w : String} {f : AggregateFunction} {ts : List Token} {e : Expr} :
    AggregateFunction.ofWord? w = some f → ServerDerives d .disjunction ts e →
      ServerDerivesAggregate d (.word w :: .lparen :: (ts ++ [.rparen])) ⟨f, false, .expr e⟩
  | distinct {w : String} {f : AggregateFunction} {t : Token} {ts : List Token} {e : Expr} :
    AggregateFunction.ofWord? w = some f → t.keyword? = some .distinct →
      ServerDerives d .disjunction ts e →
      ServerDerivesAggregate d (.word w :: .lparen :: t :: (ts ++ [.rparen])) ⟨f, true, .expr e⟩

/-- The tokens that a server reads as a filter, or its absence. -/
inductive ServerDerivesFilter (d : Dialect) : List Token → Option Expr → Prop
  | none : ServerDerivesFilter d [] none
  | where_ {t : Token} {ts : List Token} {e : Expr} :
    t.keyword? = some .where_ → ServerDerives d .disjunction ts e →
      ServerDerivesFilter d (t :: ts) (some e)

/-- The tokens that a server reads as a query, and its tree. -/
inductive ServerDerivesQuery (d : Dialect) : List Token → Query → Prop
  | mk {f : Token} {ss as ls ts hs ws : List Token} {a : Aggregate} {table : TableName}
      {filter : Option Expr} :
    IsSelect ss → ServerDerivesAggregate d as a → IsAlias ls → f.keyword? = some .from_ →
      DerivesTable ts table → IsHints hs → ServerDerivesFilter d ws filter →
      ServerDerivesQuery d (ss ++ (as ++ (ls ++ f :: (ts ++ (hs ++ ws))))) ⟨a, table, filter⟩

/-- What a server reads for the argument of an aggregate. -/
def Argument.regroup (d : Dialect) : Argument → Argument
  | .star => .star
  | .expr e => .expr (e.regroup d)

/-- What a server reads for a query. -/
def Query.regroup (d : Dialect) (q : Query) : Query :=
  ⟨{ q.aggregate with argument := q.aggregate.argument.regroup d }, q.table,
    q.filter.map (Expr.regroup d)⟩

theorem serverDerivesAggregate_iff {ts : List Token} (ht : ∀ t ∈ ts, d.Knows t) {a : Aggregate} :
    ServerDerivesAggregate d ts a ↔
      ∃ a', DerivesAggregate ts a' ∧ { a' with argument := a'.argument.regroup d } = a := by
  constructor
  · rintro (⟨hw⟩ | ⟨hw, he⟩ | ⟨hw, hd, he⟩)
    · exact ⟨_, .star hw, rfl⟩
    · obtain ⟨e', he', rfl⟩ := (serverDerives_iff fun t h => ht t (by simp [h])).1 he
      exact ⟨_, .expr hw he', rfl⟩
    · obtain ⟨e', he', rfl⟩ := (serverDerives_iff fun t h => ht t (by simp [h])).1 he
      exact ⟨_, .distinct hw hd he', rfl⟩
  · rintro ⟨a', ⟨hw⟩ | ⟨hw, he⟩ | ⟨hw, hd, he⟩, rfl⟩
    · exact .star hw
    · exact .expr hw ((serverDerives_iff fun t h => ht t (by simp [h])).2 ⟨_, he, rfl⟩)
    · exact .distinct hw hd ((serverDerives_iff fun t h => ht t (by simp [h])).2 ⟨_, he, rfl⟩)

theorem serverDerivesFilter_iff {ts : List Token} (ht : ∀ t ∈ ts, d.Knows t) {w : Option Expr} :
    ServerDerivesFilter d ts w ↔ ∃ w', DerivesFilter ts w' ∧ w'.map (Expr.regroup d) = w := by
  constructor
  · rintro (_ | ⟨hw, he⟩)
    · exact ⟨_, .none, rfl⟩
    · obtain ⟨e', he', rfl⟩ := (serverDerives_iff fun t h => ht t (by simp [h])).1 he
      exact ⟨_, .where_ hw he', rfl⟩
  · rintro ⟨w', _ | ⟨hw, he⟩, rfl⟩
    · exact .none
    · exact .where_ hw ((serverDerives_iff fun t h => ht t (by simp [h])).2 ⟨_, he, rfl⟩)

theorem serverDerivesQuery_iff {ts : List Token} (ht : ∀ t ∈ ts, d.Knows t) {q : Query} :
    ServerDerivesQuery d ts q ↔ ∃ q', DerivesQuery ts q' ∧ q'.regroup d = q := by
  constructor
  · rintro ⟨hs, ha, hl, hf, hn, hh, hw⟩
    obtain ⟨a', ha', rfl⟩ := (serverDerivesAggregate_iff fun t h => ht t (by simp [h])).1 ha
    obtain ⟨w', hw', rfl⟩ := (serverDerivesFilter_iff fun t h => ht t (by simp [h])).1 hw
    exact ⟨_, .mk hs ha' hl hf hn hh hw', rfl⟩
  · rintro ⟨q', ⟨hs, ha, hl, hf, hn, hh, hw⟩, rfl⟩
    exact .mk hs ((serverDerivesAggregate_iff fun t h => ht t (by simp [h])).2 ⟨_, ha, rfl⟩) hl hf
      hn hh ((serverDerivesFilter_iff fun t h => ht t (by simp [h])).2 ⟨_, hw, rfl⟩)

/-! ## Tokens that a query is written with -/

/-- Pieces whose remainders the server can read. -/
def Known (d : Dialect) (ps : List Piece) : Prop := ∀ t ∈ Piece.tokens ps, d.Knows t

theorem knows_word {w : String} (h : "MOD" ≠ String.ofList (w.toList.map Char.toUpper)) :
    d.Knows (.word w) := by
  cases d with
  | tsql _ => exact Keyword.ofWord?_ne h
  | access => simp [Dialect.Knows]

theorem knows_of_keyword?_eq_none {t : Token} (h : t.keyword? = none) (hp : t ≠ .percent) :
    d.Knows t := by
  cases d with
  | tsql _ => simp [Dialect.Knows, h]
  | access => exact hp

theorem knows_operatorToken (op : BinaryOp) : d.Knows (d.operatorToken op) := by
  cases op with
  | mod => cases d <;> simp [Dialect.Knows, Dialect.operatorToken, Token.keyword?]
  | and | or => exact knows_word (by decide)
  | _ => exact knows_of_keyword?_eq_none rfl (by simp [Dialect.operatorToken])

namespace Known

variable {ps qs : List Piece} {pss : List (List Piece)} {t : Token}

theorem nil : Known d [] := by simp [Known]

theorem append (hp : Known d ps) (hq : Known d qs) : Known d (ps ++ qs) := by
  simp only [Known, Piece.tokens_append, List.mem_append]
  rintro t (h | h)
  · exact hp t h
  · exact hq t h

theorem space (h : Known d ps) : Known d (.space :: ps) := h

theorem token (ht : d.Knows t) (h : Known d ps) : Known d (.token t :: ps) :=
  List.forall_mem_cons.2 ⟨ht, h⟩

theorem word {w : String} (hw : "MOD" ≠ String.ofList (w.toList.map Char.toUpper)) (h : Known d ps) :
    Known d (.word w :: ps) := token (knows_word hw) h

theorem mark (ht : t.keyword? = none) (hp : t ≠ .percent) (h : Known d ps) :
    Known d (.token t :: ps) := token (knows_of_keyword?_eq_none ht hp) h

theorem name (s : String) (h : Known d ps) : Known d (.token (nameToken s) :: ps) := by
  have hn : (nameToken s).name?.isSome = true := Option.isSome_of_eq_some (name?_nameToken s)
  refine mark (keyword?_of_name? hn) ?_ h
  intro hp
  simp [hp, Token.name?] at hn

theorem columns (parts : List String) : Known d (columnPieces parts) := by
  fun_induction columnPieces parts with
  | case1 => exact nil
  | case2 part => exact name part nil
  | case3 part rest _ ih => exact name part (mark rfl (by simp) ih)

theorem notPieces (negated : Bool) : Known d (notPieces negated) := by
  cases negated with
  | false => exact nil
  | true => exact word (by decide) (space nil)

theorem negPieces (h : Known d ps) : Known d (negPieces ps) := by
  unfold Expression.negPieces
  split
  · exact (mark rfl (by simp) (mark rfl (by simp) h)).append (mark rfl (by simp) nil)
  · exact mark rfl (by simp) h

theorem commaSeparated (h : ∀ ps ∈ pss, Known d ps) : Known d (Piece.commaSeparated pss) := by
  induction pss with
  | nil => exact nil
  | cons ps pss ih =>
    obtain ⟨hp, hpss⟩ := List.forall_mem_cons.1 h
    cases pss with
    | nil => exact hp
    | cons qs pss => exact (hp.append (mark rfl (by simp) (space nil))).append (ih hpss)

theorem call {w : String} (hw : "MOD" ≠ String.ofList (w.toList.map Char.toUpper))
    (h : ∀ ps ∈ pss, Known d ps) : Known d (Piece.call w pss) :=
  (word hw (mark rfl (by simp) (commaSeparated h))).append (mark rfl (by simp) nil)

theorem unitCall {w : String} (hw : "MOD" ≠ String.ofList (w.toList.map Char.toUpper)) (ht : d.Knows t)
    (h : ∀ ps ∈ pss, Known d ps) : Known d (Piece.unitCall w t pss) :=
  (word hw (mark rfl (by simp) (token ht (mark rfl (by simp) (space (commaSeparated h)))))).append
    (mark rfl (by simp) nil)

theorem tsqlCall (schema : String) (f : Function) (h : ∀ ps ∈ pss, Known (.tsql schema) ps) :
    Known (.tsql schema) ((Dialect.tsql schema).callPieces f pss) := by
  cases f with
  | now => exact call (by decide) (by simp)
  | dateAdd u | dateDiff u =>
    exact unitCall (by decide) (knows_word (by cases u <;> decide)) h
  | round =>
    match pss with
    | [ps] =>
      refine call (by decide) ?_
      simpa using ⟨h ps (by simp), mark rfl (by simp) nil⟩
    | [] | _ :: _ :: _ => exact call (by decide) h
  | _ => exact call (by decide) h

theorem accessCall (f : Function) (h : ∀ ps ∈ pss, Known .access ps) :
    Known .access (Dialect.access.callPieces f pss) := by
  cases f with
  | now => exact call (by decide) (by simp)
  | dateAdd u | dateDiff u =>
    exact unitCall (by decide) (knows_of_keyword?_eq_none rfl (by simp)) h
  | coalesce =>
    match pss with
    | [ps, qs] =>
      have htest : Known .access (Piece.call "IsNull" [ps]) :=
        call (by decide) (by simpa using h ps (by simp))
      refine call (by decide) ?_
      simpa using ⟨htest, h qs (by simp), h ps (by simp)⟩
    | [] | [_] | _ :: _ :: _ :: _ => exact call (by decide) h
  | _ => exact call (by decide) h

theorem callPieces (f : Function) (h : ∀ ps ∈ pss, Known d ps) :
    Known d (d.callPieces f pss) := by
  cases d with
  | tsql schema => exact tsqlCall schema f h
  | access => exact accessCall f h

end Known

mutual

/-- A server knows the tokens that expressions are written with for it. -/
theorem known_pieces : ∀ e : Expr, Known d (e.pieces d)
  | .column parts => .columns parts
  | .number _ | .text _ => .mark rfl (by simp) .nil
  | .date _ => by cases d <;> exact .mark rfl (by simp [Dialect.dateToken]) .nil
  | .null => .word (by decide) .nil
  | .call f args => by
    rw [Expr.pieces]
    exact .callPieces f (known_piecesOfAll args)
  | .unary .neg e => by
    rw [Expr.pieces]
    exact (known_pieces e).negPieces
  | .unary .not e => .word (by decide) (.space (known_pieces e))
  | .binary op l r =>
    ((known_pieces l).append (.space (.token (knows_operatorToken op) (.space .nil)))).append
      (known_pieces r)
  | .isNull negated e =>
    (((known_pieces e).append (.space (.word (by decide) (.space .nil)))).append
      (.notPieces negated)).append (.word (by decide) .nil)
  | .between negated e low high =>
    ((((((known_pieces e).append (.space .nil)).append (.notPieces negated)).append
      (.word (by decide) (.space .nil))).append (known_pieces low)).append
        (.space (.word (by decide) (.space .nil)))).append (known_pieces high)
  | .inList negated e items =>
    (((((known_pieces e).append (.space .nil)).append (.notPieces negated)).append
      (.word (by decide) (.space (.mark rfl (by simp) .nil)))).append
        (.commaSeparated (known_piecesOfAll items))).append (.mark rfl (by simp) .nil)
  | .like negated e pattern =>
    ((((known_pieces e).append (.space .nil)).append (.notPieces negated)).append
      (.word (by decide) (.space .nil))).append (known_pieces pattern)
  | .nested e => (Known.mark rfl (by simp) (known_pieces e)).append (.mark rfl (by simp) .nil)

theorem known_piecesOfAll : ∀ es : List Expr, ∀ ps ∈ Expr.piecesOfAll d es, Known d ps
  | [], _, h => absurd h List.not_mem_nil
  | e :: es, ps, h => by
    rw [Expr.piecesOfAll] at h
    rcases List.mem_cons.1 h with rfl | h
    · exact known_pieces e
    · exact known_piecesOfAll es ps h

end

theorem known_aggregate (a : Aggregate) : Known d (a.pieces d) := by
  have hname : "MOD" ≠ String.ofList ((d.aggregateName a.function).toList.map Char.toUpper) := by
    cases d <;> cases a.function <;> simp only [Dialect.aggregateName] <;> decide
  have hdistinct : Known d (if a.distinct then [.word "DISTINCT", .space] else []) := by
    split
    · exact .word (by decide) (.space .nil)
    · exact .nil
  have hargument : Known d (a.argument.pieces d) := by
    cases a.argument with
    | star => exact .mark rfl (by simp) .nil
    | expr e => exact known_pieces e
  exact (((Known.word hname (.mark rfl (by simp) .nil)).append hdistinct).append hargument).append
    (.mark rfl (by simp) .nil)

theorem known_tablePieces (t : TableName) : Known d (d.tablePieces t) := by
  cases d with
  | tsql schema =>
    exact .mark rfl (by simp) (.mark rfl (by simp) (.mark rfl (by simp) (.space
      (.word (by decide) (.space (.mark rfl (by simp) (.word (by decide)
        (.mark rfl (by simp) .nil))))))))
  | access => exact .mark rfl (by simp) .nil

theorem known_query (q : Query) : Known d (q.pieces d) := by
  have hselect : Known d [.word "SELECT", .space] := .word (by decide) (.space .nil)
  have hfrom : Known d [.space, .word "AS", .space, .word resultColumn, .space, .word "FROM",
      .space] :=
    .space (.word (by decide) (.space (.word (by decide)
      (.space (.word (by decide) (.space .nil))))))
  refine (((hselect.append (known_aggregate q.aggregate)).append hfrom).append
    (known_tablePieces q.table)).append ?_
  cases q.filter with
  | none => exact .nil
  | some e =>
    exact Known.append (.space (.word (by decide) (.space .nil))) (known_pieces e)

/-! ## Normal forms and regrouping -/

/-- A product or a quotient has no remainder on its left that the file database would take its
right operand from. -/
def Expr.KeepsRemainders (d : Dialect) : Expr → Prop
  | .binary .mul l _ | .binary .div l _ => d = .access → l.productOp? ≠ some .mod
  | _ => True

theorem productOp?_normal (e : Expr) : (e.normal d).productOp? = e.productOp? := by
  cases e with
  | binary op l r => cases op <;> rw [Expr.normal] <;> rfl
  | call f args =>
    rw [Expr.normal]
    obtain ⟨g, es, h⟩ := d.exists_callTree f (Expr.normalAll d args)
    rw [h]
    rfl
  | unary op e => cases op <;> rw [Expr.normal] <;> rfl
  | date s => cases d <;> rfl
  | _ => rw [Expr.normal] <;> rfl

/-- A property that is only asked of binary operators, and that is the same of normal forms. -/
structure IsOfProducts (d : Dialect) (P : Expr → Prop) : Prop where
  other : ∀ e, (∀ op l r, e ≠ .binary op l r) → P e
  normal : ∀ op l r, P (.binary op (l.normal d) (r.normal d)) ↔ P (.binary op l r)

namespace IsOfProducts

variable {P : Expr → Prop} (hP : IsOfProducts d P)

include hP

/-- A test for null has nothing that its value has not. -/
theorem everywhere_of_isNullTestOf {t v : Expr} (h : IsNullTestOf t v) :
    t.Everywhere P ↔ v.Everywhere P := by
  rcases h with rfl | rfl
  · simp [hP.other (.isNull false v) (by simp)]
  · simp [hP.other (.isNull false v) (by simp), hP.other (.nested (.isNull false v)) (by simp)]

theorem everywhere_callTree_iff (f : Function) (es : List Expr) :
    (d.callTree f es).Everywhere P ↔ Expr.EverywhereIn P es := by
  have hc (g : Function) (as : List Expr) : P (.call g as) := hP.other _ (by simp)
  unfold Dialect.callTree
  split
  · simp [hc, hP.other (.number "0")]
  · rename_i t y v
    by_cases h : IsNullTestOf t v
    · rw [iifOf_of_isNullTestOf h]
      simp only [Expr.Everywhere, Expr.EverywhereIn, hc, hP.everywhere_of_isNullTestOf h,
        true_and, and_true]
      exact ⟨fun ⟨hv, hy⟩ => ⟨hv, hy, hv⟩, fun ⟨hv, hy, _⟩ => ⟨hv, hy⟩⟩
    · rw [iifOf_of_not_isNullTestOf h]
      simp [hc]
  · simp [hc]

end IsOfProducts

mutual

/-- What is asked of products holds of an expression if it holds of its normal form. -/
theorem everywhere_normal_iff {P : Expr → Prop} (hP : IsOfProducts d P) : ∀ e : Expr,
    (e.normal d).Everywhere P ↔ e.Everywhere P
  | .column _ | .number _ | .text _ | .null => by rw [Expr.normal]
  | .date s => by
    rw [Expr.normal]
    cases d <;> simp [Dialect.dateTree, hP.other]
  | .call f args => by
    rw [Expr.normal, hP.everywhere_callTree_iff, everywhereIn_normalAll_iff hP args]
    simp [hP.other]
  | .unary .neg e => by
    rw [Expr.normal]
    have he := everywhere_normal_iff hP e
    split <;> simp [hP.other, he]
  | .unary .not e | .isNull _ e | .nested e => by
    rw [Expr.normal]
    simp [hP.other, everywhere_normal_iff hP e]
  | .binary op l r => by
    rw [Expr.normal]
    simp only [Expr.Everywhere, hP.normal, everywhere_normal_iff hP l, everywhere_normal_iff hP r]
  | .between _ e l h => by
    rw [Expr.normal]
    simp [hP.other, everywhere_normal_iff hP e, everywhere_normal_iff hP l,
      everywhere_normal_iff hP h]
  | .inList _ e items => by
    rw [Expr.normal]
    simp [hP.other, everywhere_normal_iff hP e, everywhereIn_normalAll_iff hP items]
  | .like _ e p => by
    rw [Expr.normal]
    simp [hP.other, everywhere_normal_iff hP e, everywhere_normal_iff hP p]

theorem everywhereIn_normalAll_iff {P : Expr → Prop} (hP : IsOfProducts d P) :
    ∀ es : List Expr, Expr.EverywhereIn P (Expr.normalAll d es) ↔ Expr.EverywhereIn P es
  | [] => by rw [Expr.normalAll]
  | e :: es => by
    rw [Expr.normalAll]
    simp [everywhere_normal_iff hP e, everywhereIn_normalAll_iff hP es]

end

theorem isOfProducts_hasFactorRight : IsOfProducts d Expr.HasFactorRight where
  other e h := by cases e <;> first | trivial | exact absurd rfl (h _ _ _)
  normal op l r := by cases op <;> simp [Expr.HasFactorRight, productOp?_normal]

theorem isOfProducts_keepsRemainders : IsOfProducts d (Expr.KeepsRemainders d) where
  other e h := by cases e <;> first | trivial | exact absurd rfl (h _ _ _)
  normal op l r := by cases op <;> simp [Expr.KeepsRemainders, productOp?_normal]

theorem exists_of_productOp?_eq_mod {e : Expr} (h : e.productOp? = some .mod) :
    ∃ a b, e = .binary .mod a b := by
  cases e with
  | binary op a b => cases op <;> first | exact ⟨a, b, rfl⟩ | simp [Expr.productOp?] at h
  | _ => contradiction

theorem joined_eq_iff {op : BinaryOp} {l r : Expr} :
    d.joined op l r = .binary op l r ↔ (Expr.binary op l r).KeepsRemainders d := by
  constructor
  · intro hj
    cases op with
    | mul | div =>
      rintro rfl hl
      obtain ⟨a, b, rfl⟩ := exists_of_productOp?_eq_mod hl
      simp [Dialect.joined] at hj
    | _ => trivial
  · intro hk
    rcases d.joined_cases op l r with hj | ⟨a, b, hd, hop, rfl, -⟩
    · exact hj
    · rcases hop with rfl | rfl <;> exact absurd rfl (hk hd)

mutual

theorem regroup_of_keepsRemainders : ∀ {e : Expr}, e.Everywhere (Expr.KeepsRemainders d) →
    e.regroup d = e
  | .column _, _ | .number _, _ | .text _, _ | .date _, _ | .null, _ => rfl
  | .call _ _, h => by rw [Expr.regroup, regroupAll_of_keepsRemainders h.2]
  | .unary _ _, h | .isNull _ _, h | .nested _, h => by
    rw [Expr.regroup, regroup_of_keepsRemainders h.2]
  | .binary op l r, h => by
    rw [Expr.regroup, regroup_of_keepsRemainders h.2.1, regroup_of_keepsRemainders h.2.2]
    exact joined_eq_iff.2 h.1
  | .between _ _ _ _, h => by
    rw [Expr.regroup, regroup_of_keepsRemainders h.2.1, regroup_of_keepsRemainders h.2.2.1,
      regroup_of_keepsRemainders h.2.2.2]
  | .inList _ _ _, h => by
    rw [Expr.regroup, regroup_of_keepsRemainders h.2.1, regroupAll_of_keepsRemainders h.2.2]
  | .like _ _ _, h => by
    rw [Expr.regroup, regroup_of_keepsRemainders h.2.1, regroup_of_keepsRemainders h.2.2]

theorem regroupAll_of_keepsRemainders : ∀ {es : List Expr},
    Expr.EverywhereIn (Expr.KeepsRemainders d) es → Expr.regroupAll d es = es
  | [], _ => rfl
  | _ :: _, h => by
    rw [Expr.regroupAll, regroup_of_keepsRemainders h.1, regroupAll_of_keepsRemainders h.2]

end

mutual

/-- What is read with products grouped to the left had no product over a remainder. -/
theorem keepsRemainders_of_regroup : ∀ {e : Expr},
    (e.regroup d).Everywhere Expr.HasFactorRight → e.Everywhere (Expr.KeepsRemainders d)
  | .column _, _ | .number _, _ | .text _, _ | .date _, _ | .null, _ => trivial
  | .call _ _, h => ⟨trivial, keepsRemaindersIn_of_regroupAll h.2⟩
  | .unary _ _, h | .isNull _ _, h | .nested _, h => ⟨trivial, keepsRemainders_of_regroup h.2⟩
  | .binary op l r, h => by
    rw [Expr.regroup] at h
    rcases d.joined_cases op (l.regroup d) (r.regroup d) with hj | ⟨a, b, -, hop, -, hj⟩
    · rw [hj] at h
      have hl := keepsRemainders_of_regroup h.2.1
      have hr := keepsRemainders_of_regroup h.2.2
      rw [regroup_of_keepsRemainders hl, regroup_of_keepsRemainders hr] at hj
      exact ⟨joined_eq_iff.1 hj, hl, hr⟩
    · rw [hj] at h
      rcases hop with rfl | rfl <;> simp [Expr.HasFactorRight, Expr.productOp?] at h
  | .between _ _ _ _, h =>
    ⟨trivial, keepsRemainders_of_regroup h.2.1, keepsRemainders_of_regroup h.2.2.1,
      keepsRemainders_of_regroup h.2.2.2⟩
  | .inList _ _ _, h =>
    ⟨trivial, keepsRemainders_of_regroup h.2.1, keepsRemaindersIn_of_regroupAll h.2.2⟩
  | .like _ _ _, h =>
    ⟨trivial, keepsRemainders_of_regroup h.2.1, keepsRemainders_of_regroup h.2.2⟩

theorem keepsRemaindersIn_of_regroupAll : ∀ {es : List Expr},
    Expr.EverywhereIn Expr.HasFactorRight (Expr.regroupAll d es) →
      Expr.EverywhereIn (Expr.KeepsRemainders d) es
  | [], _ => trivial
  | _ :: _, h => ⟨keepsRemainders_of_regroup h.1, keepsRemaindersIn_of_regroupAll h.2⟩

end

/-- A normal form is read by a server for what was read back if and only if it was read back, and
keeps its remainders. -/
theorem regroup_reread_eq_normal_iff {e : Expr} (h : e.Everywhere Expr.HasFactorRight) :
    (∃ e', e.reread d = some e' ∧ e'.regroup d = e.normal d) ↔
      e.Everywhere Expr.TestsSum ∧ e.Everywhere (Expr.KeepsRemainders d) := by
  rw [← everywhere_normal_iff isOfProducts_keepsRemainders e, ← reread_eq_normal_iff (d := d)]
  constructor
  · rintro ⟨e', he, hr⟩
    have hfactor := (everywhere_normal_iff (isOfProducts_hasFactorRight (d := d)) e).2 h
    have hkeeps := keepsRemainders_of_regroup (hr ▸ hfactor)
    rw [regroup_of_keepsRemainders hkeeps] at hr
    exact ⟨hr ▸ he, hr ▸ hkeeps⟩
  · rintro ⟨he, hk⟩
    exact ⟨_, he, regroup_of_keepsRemainders hk⟩

/-! ## Queries -/

theorem hasFactorRight_of_derivesQuery {ts : List Token} {q : Query} (h : DerivesQuery ts q) :
    q.Everywhere Expr.HasFactorRight := by
  obtain ⟨-, ha, -, -, -, -, hw⟩ := h
  constructor
  · intro e he
    cases ha with
    | star _ => cases he
    | expr _ hd | distinct _ _ hd =>
      cases he
      exact hasFactorRight_of_derives hd
  · intro e he
    cases hw with
    | none => cases he
    | where_ _ hd =>
      cases he
      exact hasFactorRight_of_derives hd

theorem regroup_reread_argument_iff {a : Argument}
    (h : ∀ e, a = .expr e → e.Everywhere Expr.HasFactorRight) :
    (∃ a', a.reread d = some a' ∧ a'.regroup d = a.normal d) ↔
      ∀ e, a = .expr e →
        e.Everywhere Expr.TestsSum ∧ e.Everywhere (Expr.KeepsRemainders d) := by
  cases a with
  | star => simp [Argument.reread, Argument.regroup, Argument.normal]
  | expr e =>
    have hr : (∃ a', (Argument.expr e).reread d = some a' ∧ a'.regroup d = .expr (e.normal d)) ↔
        ∃ e', e.reread d = some e' ∧ e'.regroup d = e.normal d := by
      rw [Argument.reread]
      cases e.reread d <;> simp [Argument.regroup]
    rw [Argument.normal, hr, regroup_reread_eq_normal_iff (h e rfl)]
    simp

theorem regroup_rereadFilter_iff {w : Option Expr}
    (h : ∀ e, w = some e → e.Everywhere Expr.HasFactorRight) :
    (∃ w', rereadFilter d w = some w' ∧ w'.map (Expr.regroup d) = w.map (Expr.normal d)) ↔
      ∀ e, w = some e →
        e.Everywhere Expr.TestsSum ∧ e.Everywhere (Expr.KeepsRemainders d) := by
  cases w with
  | none => simp [rereadFilter]
  | some e =>
    have hr : (∃ w', rereadFilter d (some e) = some w' ∧
        w'.map (Expr.regroup d) = some (e.normal d)) ↔
          ∃ e', e.reread d = some e' ∧ e'.regroup d = e.normal d := by
      rw [rereadFilter]
      cases e.reread d <;> simp
    rw [Option.map_some, hr, regroup_reread_eq_normal_iff (h e rfl)]
    simp

theorem regroup_reread_query_eq_normal_iff {q : Query} (h : q.Everywhere Expr.HasFactorRight) :
    (∃ q', q.reread d = some q' ∧ q'.regroup d = q.normal d) ↔
      q.Everywhere Expr.TestsSum ∧ q.Everywhere (Expr.KeepsRemainders d) := by
  have hparts : q.Everywhere Expr.TestsSum ∧ q.Everywhere (Expr.KeepsRemainders d) ↔
      (∃ a', q.aggregate.argument.reread d = some a' ∧
        a'.regroup d = q.aggregate.argument.normal d) ∧
      ∃ w', rereadFilter d q.filter = some w' ∧
        w'.map (Expr.regroup d) = q.filter.map (Expr.normal d) := by
    rw [regroup_reread_argument_iff h.1, regroup_rereadFilter_iff h.2]
    exact ⟨fun ⟨ht, hk⟩ => ⟨fun e he => ⟨ht.1 e he, hk.1 e he⟩, fun e he => ⟨ht.2 e he, hk.2 e he⟩⟩,
      fun ⟨ha, hw⟩ => ⟨⟨fun e he => (ha e he).1, fun e he => (hw e he).1⟩,
        ⟨fun e he => (ha e he).2, fun e he => (hw e he).2⟩⟩⟩
  rw [hparts]
  unfold Query.reread Query.normal Query.regroup
  cases q.aggregate.argument.reread d <;> cases rereadFilter d q.filter <;> simp

/-- A server reads what was read back, regrouped. -/
theorem serverDerivesQuery_tokens_iff {source sql : String} {q q' : Query} {ls : List Lexeme}
    (h : parse source = .ok q) (hs : q.sql d = .ok sql) (hls : tokenize sql = .ok ls)
    (ht : tokens ls = Piece.tokens (q.pieces d)) :
    ServerDerivesQuery d (tokens ls) q' ↔ ∃ q₀, q.reread d = some q₀ ∧ q₀.regroup d = q' := by
  rw [serverDerivesQuery_iff (ht ▸ known_query q)]
  simp only [← (parse_eq_ok_iff_derivesQuery hls).1, parse_sql_eq_ok_iff d h hs]

/-- **Reading by the server**: the server reads the text of a query as the normal form of the
query, and as no other, if and only if every test for null is one of a sum and, for the file
database, no product or quotient has a remainder on its left. -/
theorem serverDerivesQuery_sql_iff {source sql : String} {q : Query} (h : parse source = .ok q)
    (hs : q.sql d = .ok sql) :
    ∃ ls, tokenize sql = .ok ls ∧
      ((∀ q', ServerDerivesQuery d (tokens ls) q' ↔ q' = q.normal d) ↔
        q.Everywhere Expr.TestsSum ∧ q.Everywhere (Expr.KeepsRemainders d)) := by
  obtain ⟨ts, hq, -⟩ := derivesQuery_of_parse h
  obtain ⟨ls, hls, ht⟩ := tokenize_sql_of_parse d h hs
  refine ⟨ls, hls, ?_⟩
  simp only [serverDerivesQuery_tokens_iff h hs hls ht,
    ← regroup_reread_query_eq_normal_iff (hasFactorRight_of_derivesQuery hq)]
  constructor
  · exact fun hr => (hr _).2 rfl
  · rintro ⟨q₀, hq₀, hr⟩ q'
    rw [hq₀, ← hr]
    simp [eq_comm]

theorem parse_sum_mod_mul : parse "SUM(a % b * c) FROM t" =
    .ok ⟨⟨.sum, false, .expr (.binary .mul (.binary .mod (.column ["a"]) (.column ["b"]))
      (.column ["c"]))⟩, ⟨none, "t"⟩, none⟩ := by
  have ht : tokenize "SUM(a % b * c) FROM t" = .ok [⟨.word "SUM", 0⟩, ⟨.lparen, 3⟩, ⟨.word "a", 4⟩,
      ⟨.percent, 6⟩, ⟨.word "b", 8⟩, ⟨.star, 10⟩, ⟨.word "c", 12⟩, ⟨.rparen, 13⟩,
      ⟨.word "FROM", 15⟩, ⟨.word "t", 20⟩] := by
    rw [tokenize_eq_lexemesWithin]
    rfl
  have a := Derives.column (Token.name?_word (w := "a") (by decide))
  have b := Derives.column (Token.name?_word (w := "b") (by decide))
  have c := Derives.column (Token.name?_word (w := "c") (by decide))
  have mod := Derives.join .percent rfl (a.of_primary .product) (b.of_primary .signed)
  have mul := Derives.join .mul rfl mod (c.of_primary .signed)
  have sum : Derives .predicate _ _ := .tighter rfl (.tighter (p := .sum) rfl mul)
  rw [parse_eq_ok_iff_query ht, toOption_query_eq_some_iff]
  exact .mk .none (.expr (ofWord?_aggregateName (.tsql "") .sum) sum.of_predicate) .none
    keyword_from (.bare (Token.name?_word (by decide))) .none .none

/-- T-SQL reads remainders and products from left to right, as they were meant. -/
theorem serverDerivesQuery_sql_iff_sum_mod_mul :
    ∃ q, parse "SUM(a % b * c) FROM t" = .ok q ∧
      q.sql (.tsql "dbo") =
        .ok "SELECT SUM(a % b * c) AS value FROM [dbo].[t] WITH (NOLOCK)" ∧
      ∃ ls, tokenize "SELECT SUM(a % b * c) AS value FROM [dbo].[t] WITH (NOLOCK)" = .ok ls ∧
        ((∀ q', ServerDerivesQuery (.tsql "dbo") (tokens ls) q' ↔ q' = q.normal (.tsql "dbo")) ↔
          q.Everywhere Expr.TestsSum ∧ q.Everywhere (Expr.KeepsRemainders (.tsql "dbo"))) :=
  have hs : Query.sql (.tsql "dbo") ⟨⟨.sum, false, .expr (.binary .mul
      (.binary .mod (.column ["a"]) (.column ["b"])) (.column ["c"]))⟩, ⟨none, "t"⟩, none⟩ =
        .ok "SELECT SUM(a % b * c) AS value FROM [dbo].[t] WITH (NOLOCK)" := by
    have ha : nameToken "a" = .word "a" := nameToken_of_isWord rfl rfl rfl (by decide)
    have hb : nameToken "b" = .word "b" := nameToken_of_isWord rfl rfl rfl (by decide)
    have hc : nameToken "c" = .word "c" := nameToken_of_isWord rfl rfl rfl (by decide)
    simp only [Query.sql, Query.pieces, Aggregate.pieces, Argument.pieces, Expr.pieces,
      columnPieces, ha, hb, hc]
    rfl
  ⟨_, parse_sum_mod_mul, hs, serverDerivesQuery_sql_iff parse_sum_mod_mul hs⟩

/-- The file database takes the product first. -/
theorem serverDerivesQuery_ne_normal :
    ∃ q q' ls, parse "SUM(a % b * c) FROM t" = .ok q ∧
      q.sql .access = .ok "SELECT Sum(a Mod b * c) AS value FROM [t]" ∧
      tokenize "SELECT Sum(a Mod b * c) AS value FROM [t]" = .ok ls ∧
      ServerDerivesQuery .access (tokens ls) q' ∧
      q'.aggregate.argument = .expr (.binary .mod (.column ["a"])
        (.binary .mul (.column ["b"]) (.column ["c"]))) ∧ q' ≠ q.normal .access := by
  have hs : Query.sql .access ⟨⟨.sum, false, .expr (.binary .mul
      (.binary .mod (.column ["a"]) (.column ["b"])) (.column ["c"]))⟩, ⟨none, "t"⟩, none⟩ =
        .ok "SELECT Sum(a Mod b * c) AS value FROM [t]" := by
    have ha : nameToken "a" = .word "a" := nameToken_of_isWord rfl rfl rfl (by decide)
    have hb : nameToken "b" = .word "b" := nameToken_of_isWord rfl rfl rfl (by decide)
    have hc : nameToken "c" = .word "c" := nameToken_of_isWord rfl rfl rfl (by decide)
    simp only [Query.sql, Query.pieces, Aggregate.pieces, Argument.pieces, Expr.pieces,
      columnPieces, ha, hb, hc]
    rfl
  obtain ⟨ls, hls, ht⟩ := tokenize_sql_of_parse .access parse_sum_mod_mul hs
  exact ⟨_, _, ls, parse_sum_mod_mul, hs, hls,
    (serverDerivesQuery_tokens_iff parse_sum_mod_mul hs hls ht).2 ⟨_, rfl, rfl⟩, rfl, by decide⟩

end MetricBoard.Expression
