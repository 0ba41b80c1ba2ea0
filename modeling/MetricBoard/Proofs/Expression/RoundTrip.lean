import MetricBoard.Proofs.Expression.ReadingBack

/-!
# Reading undoes writing

`Query.normal` is what a query should be read as when it has been written. It is read so exactly
when every test for null in it is a test of a sum (`parse_sql_eq_ok_normal_iff`).
-/

namespace MetricBoard.Expression

variable {d : Dialect}

/-! ## Normal forms -/

mutual

/-- The normal form of an expression: a date is a text and rounding to whole numbers says so where
T-SQL has it so, a negation under a negation is in parentheses, and an IIF is a coalesce if its test
asks whether its last argument is null. -/
def Expr.normal (d : Dialect) : Expr → Expr
  | .column parts => .column parts
  | .number n => .number n
  | .text s => .text s
  | .date s => d.dateTree s
  | .null => .null
  | .call f args => d.callTree f (Expr.normalAll d args)
  | .unary .neg e => .unary .neg (if e.isNeg then .nested (e.normal d) else e.normal d)
  | .unary .not e => .unary .not (e.normal d)
  | .binary op l r => .binary op (l.normal d) (r.normal d)
  | .isNull negated e => .isNull negated (e.normal d)
  | .between negated e low high => .between negated (e.normal d) (low.normal d) (high.normal d)
  | .inList negated e items => .inList negated (e.normal d) (Expr.normalAll d items)
  | .like negated e pattern => .like negated (e.normal d) (pattern.normal d)
  | .nested e => .nested (e.normal d)

/-- The normal forms of some expressions. -/
def Expr.normalAll (d : Dialect) : List Expr → List Expr
  | [] => []
  | e :: es => e.normal d :: Expr.normalAll d es

end

/-- The normal form of the argument of an aggregate. -/
def Argument.normal (d : Dialect) : Argument → Argument
  | .star => .star
  | .expr e => .expr (e.normal d)

/-- The normal form of a query. -/
def Query.normal (d : Dialect) (q : Query) : Query :=
  ⟨{ q.aggregate with argument := q.aggregate.argument.normal d }, d.readTable q.table,
    q.filter.map (Expr.normal d)⟩

/-- A test for null is a test of a sum. -/
def Expr.TestsSum : Expr → Prop
  | .isNull _ e => e.isSum = true
  | _ => True

theorem Dialect.exists_callTree (d : Dialect) (f : Function) (args : List Expr) :
    ∃ g es, d.callTree f args = .call g es := by
  unfold Dialect.callTree
  split
  · exact ⟨_, _, rfl⟩
  · unfold Expr.iifOf
    split <;> exact ⟨_, _, rfl⟩
  · exact ⟨_, _, rfl⟩

theorem Expr.isSum_normal (e : Expr) : (e.normal d).isSum = e.isSum := by
  cases e with
  | unary op e => cases op <;> rw [normal] <;> rfl
  | binary op l r => cases op <;> rw [normal] <;> rfl
  | call f args =>
    rw [normal]
    exact d.isSum_callTree f _
  | date s =>
    rw [normal]
    cases d <;> rfl
  | _ => rw [normal] <;> rfl

/-! ## Tests of sums are read back -/

mutual

theorem reread_of_testsSum : ∀ {e : Expr}, e.Everywhere Expr.TestsSum →
    e.reread d = some (e.normal d)
  | .column _, _ | .number _, _ | .text _, _ | .date _, _ | .null, _ => by
    rw [Expr.reread, Expr.normal]
  | .call f args, h => by
    rw [Expr.reread, Expr.normal, rereadAll_of_testsSum h.2]
    rfl
  | .unary .neg e, h | .unary .not e, h => by
    rw [Expr.reread, Expr.normal, reread_of_testsSum h.2]
    rfl
  | .binary op l r, h => by
    rw [Expr.reread, Expr.normal, reread_of_testsSum h.2.1, reread_of_testsSum h.2.2]
    rfl
  | .isNull negated e, h => by
    rw [Expr.reread, Expr.normal, reread_of_testsSum h.2, Option.bind_some]
    exact Expr.test?_of_isSum (e.isSum_normal.trans h.1) negated
  | .between negated e low high, h => by
    rw [Expr.reread, Expr.normal, reread_of_testsSum h.2.1, reread_of_testsSum h.2.2.1,
      reread_of_testsSum h.2.2.2]
    rfl
  | .inList negated e items, h => by
    rw [Expr.reread, Expr.normal, reread_of_testsSum h.2.1, rereadAll_of_testsSum h.2.2]
    rfl
  | .like negated e pattern, h => by
    rw [Expr.reread, Expr.normal, reread_of_testsSum h.2.1, reread_of_testsSum h.2.2]
    rfl
  | .nested e, h => by
    rw [Expr.reread, Expr.normal, reread_of_testsSum h.2]
    rfl

theorem rereadAll_of_testsSum : ∀ {es : List Expr}, Expr.EverywhereIn Expr.TestsSum es →
    Expr.rereadAll d es = some (Expr.normalAll d es)
  | [], _ => by rw [Expr.rereadAll, Expr.normalAll]
  | e :: es, h => by
    rw [Expr.rereadAll, Expr.normalAll, reread_of_testsSum h.1, rereadAll_of_testsSum h.2]
    rfl

end

/-! ## Other tests are not -/

theorem Expr.test?_eq_isNull {m n : Bool} {e v : Expr} (h : e.test? n = some (.isNull m v)) :
    e.isSum = true ∧ n = m ∧ e = v := by
  unfold test? at h
  split at h
  · simp at h
  · simp at h
  · simp at h
  · split at h
    · rename_i hs
      exact ⟨hs, by simpa using h⟩
    · contradiction

theorem reread_eq_isNull {e v : Expr} {negated : Bool} (h : e.reread d = some (.isNull negated v)) :
    ∃ y, e = .isNull negated y ∧ v.isSum = true ∧ y.reread d = some v := by
  cases e with
  | isNull m y =>
    rw [Expr.reread] at h
    obtain ⟨y', hy, h⟩ := Option.bind_eq_some_iff.1 h
    obtain ⟨hs, rfl, rfl⟩ := Expr.test?_eq_isNull h
    exact ⟨y, rfl, hs, hy⟩
  | call f args =>
    have := Expr.isSum_of_reread h rfl
    contradiction
  | column _ | number _ | text _ | null => cases h
  | date s => cases d <;> cases h
  | unary op e => cases op <;> rw [Expr.reread] at h <;> simp at h
  | _ =>
    rw [Expr.reread] at h
    simp [Option.bind_eq_some_iff] at h

theorem reread_eq_nested {e e' : Expr} (h : e.reread d = some (.nested e')) :
    ∃ x, e = .nested x ∧ x.reread d = some e' := by
  cases e with
  | nested x =>
    rw [Expr.reread] at h
    obtain ⟨x', hx, he⟩ := Option.map_eq_some_iff.1 h
    exact ⟨x, rfl, Expr.nested.inj he ▸ hx⟩
  | isNull m y =>
    rw [Expr.reread] at h
    obtain ⟨y', hy, h⟩ := Option.bind_eq_some_iff.1 h
    have := Expr.isSum_of_test? h
    contradiction
  | call f args =>
    rw [Expr.reread] at h
    obtain ⟨es, -, h⟩ := Option.map_eq_some_iff.1 h
    obtain ⟨g, es', he⟩ := d.exists_callTree f es
    rw [he] at h
    contradiction
  | column _ | number _ | text _ | null => cases h
  | date s => cases d <;> cases h
  | unary op e => cases op <;> rw [Expr.reread] at h <;> simp at h
  | _ =>
    rw [Expr.reread] at h
    simp [Option.bind_eq_some_iff] at h

theorem normal_eq_isNull {e v : Expr} {negated : Bool} (h : e.normal d = .isNull negated v) :
    ∃ y, e = .isNull negated y ∧ y.normal d = v := by
  cases e with
  | isNull m y =>
    rw [Expr.normal] at h
    obtain ⟨rfl, rfl⟩ := Expr.isNull.inj h
    exact ⟨y, rfl, rfl⟩
  | call f args =>
    have := Expr.isSum_normal (d := d) (.call f args)
    rw [h] at this
    contradiction
  | date s => cases d <;> cases h
  | unary op e => cases op <;> rw [Expr.normal] at h <;> contradiction
  | _ => cases h

theorem normal_eq_nested {e e' : Expr} (h : e.normal d = .nested e') :
    ∃ x, e = .nested x ∧ x.normal d = e' := by
  cases e with
  | nested x => exact ⟨x, rfl, Expr.nested.inj h⟩
  | call f args =>
    rw [Expr.normal] at h
    obtain ⟨g, es', he⟩ := d.exists_callTree f (Expr.normalAll d args)
    rw [he] at h
    contradiction
  | date s => cases d <;> cases h
  | unary op e => cases op <;> rw [Expr.normal] at h <;> contradiction
  | _ => cases h

/-- A test that is read back as a test of the value that it should be is the test it should be. -/
theorem reread_eq_normal_of_isNullTestOf {t t' v : Expr} (h : t.reread d = some t')
    (ht' : IsNullTestOf t' v) (hn : IsNullTestOf (t.normal d) v) : t' = t.normal d := by
  rcases hn with hn | hn <;> rw [hn]
  · obtain ⟨y, rfl, -⟩ := normal_eq_isNull hn
    rcases ht' with rfl | rfl
    · rfl
    · obtain ⟨x, hx, -⟩ := reread_eq_nested h
      contradiction
  · obtain ⟨y, rfl, -⟩ := normal_eq_nested hn
    rcases ht' with rfl | rfl
    · obtain ⟨x, hx, -⟩ := reread_eq_isNull h
      contradiction
    · rfl

theorem iifOf_inj {t t' y y' v v' : Expr} (h : Expr.iifOf t y v = Expr.iifOf t' y' v') :
    y = y' ∧ v = v' ∧ (t = t' ∨ IsNullTestOf t v ∧ IsNullTestOf t' v) := by
  by_cases hv : IsNullTestOf t v <;> by_cases hv' : IsNullTestOf t' v'
  · rw [iifOf_of_isNullTestOf hv, iifOf_of_isNullTestOf hv'] at h
    obtain ⟨rfl, rfl⟩ : v = v' ∧ y = y' := by simpa using h
    exact ⟨rfl, rfl, .inr ⟨hv, hv'⟩⟩
  · rw [iifOf_of_isNullTestOf hv, iifOf_of_not_isNullTestOf hv'] at h
    cases h
  · rw [iifOf_of_not_isNullTestOf hv, iifOf_of_isNullTestOf hv'] at h
    cases h
  · rw [iifOf_of_not_isNullTestOf hv, iifOf_of_not_isNullTestOf hv'] at h
    obtain ⟨rfl, rfl, rfl⟩ : t = t' ∧ y = y' ∧ v = v' := by simpa using h
    exact ⟨rfl, rfl, .inl rfl⟩

/-- Calls that are read back alike have the same arguments, but for what a coalesce drops. -/
theorem callTree_inj {f : Function} {as bs : List Expr} (hl : as.length = bs.length)
    (h : d.callTree f as = d.callTree f bs) :
    as = bs ∨ ∃ t t' y v, as = [t, y, v] ∧ bs = [t', y, v] ∧ IsNullTestOf t v ∧
      IsNullTestOf t' v := by
  cases f with
  | iif =>
    match as, bs with
    | [t, y, v], [t', y', v'] =>
      have h' : Expr.iifOf t y v = Expr.iifOf t' y' v' := by cases d <;> exact h
      obtain ⟨rfl, rfl, rfl | hv⟩ := iifOf_inj h'
      · exact .inl rfl
      · exact .inr ⟨t, t', y, v, rfl, rfl, hv⟩
    | [], [] => exact .inl rfl
    | [_], [_] | [_, _], [_, _] | _ :: _ :: _ :: _ :: _, _ :: _ :: _ :: _ :: _ =>
      exact .inl (by cases d <;> exact (Expr.call.inj h).2)
  | round =>
    match as, bs with
    | [a], [b] => exact .inl (by cases d <;> simpa [Dialect.callTree] using h)
    | [], [] => exact .inl rfl
    | _ :: _ :: _, _ :: _ :: _ => exact .inl (by cases d <;> exact (Expr.call.inj h).2)
  | _ => exact .inl (by cases d <;> exact (Expr.call.inj h).2)

theorem length_normalAll (es : List Expr) : (Expr.normalAll d es).length = es.length := by
  induction es with
  | nil => rw [Expr.normalAll]
  | cons e es ih => rw [Expr.normalAll, List.length_cons, ih, List.length_cons]

theorem rereadAll_eq_normalAll {args es : List Expr} {t t' v : Expr}
    (h : Expr.rereadAll d args = some (t :: es)) (hn : Expr.normalAll d args = t' :: es)
    (ht : IsNullTestOf t v) (ht' : IsNullTestOf t' v) :
    Expr.rereadAll d args = some (Expr.normalAll d args) := by
  obtain ⟨e, as, rfl, he, has⟩ := rereadAll_eq_cons h
  rw [Expr.normalAll] at hn
  obtain ⟨rfl, hn⟩ := List.cons.inj hn
  rw [h, Expr.normalAll, hn, reread_eq_normal_of_isNullTestOf he ht ht']

mutual

theorem testsSum_of_reread : ∀ {e : Expr}, e.reread d = some (e.normal d) →
    e.Everywhere Expr.TestsSum
  | .column _, _ | .number _, _ | .text _, _ | .date _, _ | .null, _ => trivial
  | .call f args, h => by
    rw [Expr.reread, Expr.normal] at h
    obtain ⟨as, ha, h⟩ := Option.map_eq_some_iff.1 h
    refine ⟨trivial, testsSumIn_of_rereadAll ?_⟩
    have hl : as.length = (Expr.normalAll d args).length :=
      (length_of_rereadAll ha).trans (length_normalAll args).symm
    rcases callTree_inj hl h with rfl | ⟨t, t', y, v, rfl, hn, ht, ht'⟩
    · exact ha
    · exact rereadAll_eq_normalAll ha hn ht ht'
  | .unary .neg e, h => by
    rw [Expr.reread, Expr.normal] at h
    obtain ⟨e', he, h⟩ := Option.map_eq_some_iff.1 h
    refine ⟨trivial, testsSum_of_reread ?_⟩
    rw [he]
    split at h <;> simp_all
  | .unary .not e, h => by
    rw [Expr.reread, Expr.normal] at h
    obtain ⟨e', he, h⟩ := Option.map_eq_some_iff.1 h
    obtain ⟨-, rfl⟩ := Expr.unary.inj h
    exact ⟨trivial, testsSum_of_reread he⟩
  | .binary op l r, h => by
    rw [Expr.reread, Expr.normal] at h
    obtain ⟨l', hl, h⟩ := Option.bind_eq_some_iff.1 h
    obtain ⟨r', hr, h⟩ := Option.map_eq_some_iff.1 h
    obtain ⟨-, rfl, rfl⟩ := Expr.binary.inj h
    exact ⟨trivial, testsSum_of_reread hl, testsSum_of_reread hr⟩
  | .isNull negated e, h => by
    rw [Expr.normal] at h
    obtain ⟨y, he, hs, hy⟩ := reread_eq_isNull h
    obtain ⟨-, rfl⟩ := Expr.isNull.inj he
    exact ⟨e.isSum_normal.symm.trans hs, testsSum_of_reread hy⟩
  | .between negated e low high, h => by
    rw [Expr.reread, Expr.normal] at h
    obtain ⟨e', he, h⟩ := Option.bind_eq_some_iff.1 h
    obtain ⟨low', hlow, h⟩ := Option.bind_eq_some_iff.1 h
    obtain ⟨high', hhigh, h⟩ := Option.map_eq_some_iff.1 h
    obtain ⟨-, rfl, rfl, rfl⟩ := Expr.between.inj h
    exact ⟨trivial, testsSum_of_reread he, testsSum_of_reread hlow, testsSum_of_reread hhigh⟩
  | .inList negated e items, h => by
    rw [Expr.reread, Expr.normal] at h
    obtain ⟨e', he, h⟩ := Option.bind_eq_some_iff.1 h
    obtain ⟨items', hitems, h⟩ := Option.map_eq_some_iff.1 h
    obtain ⟨-, rfl, rfl⟩ := Expr.inList.inj h
    exact ⟨trivial, testsSum_of_reread he, testsSumIn_of_rereadAll hitems⟩
  | .like negated e pattern, h => by
    rw [Expr.reread, Expr.normal] at h
    obtain ⟨e', he, h⟩ := Option.bind_eq_some_iff.1 h
    obtain ⟨pattern', hpattern, h⟩ := Option.map_eq_some_iff.1 h
    obtain ⟨-, rfl, rfl⟩ := Expr.like.inj h
    exact ⟨trivial, testsSum_of_reread he, testsSum_of_reread hpattern⟩
  | .nested e, h => by
    rw [Expr.reread, Expr.normal] at h
    obtain ⟨e', he, h⟩ := Option.map_eq_some_iff.1 h
    obtain rfl := Expr.nested.inj h
    exact ⟨trivial, testsSum_of_reread he⟩

theorem testsSumIn_of_rereadAll : ∀ {es : List Expr},
    Expr.rereadAll d es = some (Expr.normalAll d es) → Expr.EverywhereIn Expr.TestsSum es
  | [], _ => trivial
  | e :: es, h => by
    rw [Expr.rereadAll, Expr.normalAll] at h
    obtain ⟨e', he, h⟩ := Option.bind_eq_some_iff.1 h
    obtain ⟨es', hes, h⟩ := Option.map_eq_some_iff.1 h
    obtain ⟨rfl, rfl⟩ := List.cons.inj h
    exact ⟨testsSum_of_reread he, testsSumIn_of_rereadAll hes⟩

end

/-! ## Queries -/

/-- An expression is read back in normal form if and only if its tests for null test sums. -/
theorem reread_eq_normal_iff {e : Expr} :
    e.reread d = some (e.normal d) ↔ e.Everywhere Expr.TestsSum :=
  ⟨testsSum_of_reread, reread_of_testsSum⟩

theorem reread_argument_eq_normal_iff {a : Argument} :
    a.reread d = some (a.normal d) ↔ ∀ e, a = .expr e → e.Everywhere Expr.TestsSum := by
  cases a with
  | star => simp [Argument.reread, Argument.normal]
  | expr e => simp [Argument.reread, Argument.normal, ← reread_eq_normal_iff (d := d)]

theorem rereadFilter_eq_normal_iff {w : Option Expr} :
    rereadFilter d w = some (w.map (Expr.normal d)) ↔
      ∀ e, w = some e → e.Everywhere Expr.TestsSum := by
  cases w with
  | none => simp [rereadFilter]
  | some e => simp [rereadFilter, ← reread_eq_normal_iff (d := d)]

theorem reread_query_eq_normal_iff {q : Query} :
    q.reread d = some (q.normal d) ↔ q.Everywhere Expr.TestsSum := by
  unfold Query.Everywhere
  rw [← reread_argument_eq_normal_iff (d := d), ← rereadFilter_eq_normal_iff (d := d)]
  unfold Query.reread Query.normal
  cases q.aggregate.argument.reread d <;> cases rereadFilter d q.filter <;> simp

/-- **Reading undoes writing**: the text of a query is read as its normal form if and only if no
test for null stands behind anything but a sum. -/
theorem parse_sql_eq_ok_normal_iff {source sql : String} {q : Query} (h : parse source = .ok q)
    (hs : q.sql d = .ok sql) :
    parse sql = .ok (q.normal d) ↔ q.Everywhere Expr.TestsSum := by
  rw [parse_sql_eq_ok_iff d h hs, reread_query_eq_normal_iff]

example : (Query.sql .access ⟨⟨.count, false, .star⟩, ⟨none, "t"⟩, none⟩).toOption =
    some "SELECT Count(*) AS value FROM [t]" := rfl

theorem parse_sum_round : parse "SUM(ROUND(a)) FROM t WHERE b > #2024-01-01#" =
    .ok ⟨⟨.sum, false, .expr (.call .round [.column ["a"]])⟩, ⟨none, "t"⟩,
      some (.binary .gt (.column ["b"]) (.date "2024-01-01"))⟩ := by
  have ht : tokenize "SUM(ROUND(a)) FROM t WHERE b > #2024-01-01#" = .ok [⟨.word "SUM", 0⟩,
      ⟨.lparen, 3⟩, ⟨.word "ROUND", 4⟩, ⟨.lparen, 9⟩, ⟨.word "a", 10⟩, ⟨.rparen, 11⟩, ⟨.rparen, 12⟩,
      ⟨.word "FROM", 14⟩, ⟨.word "t", 19⟩, ⟨.word "WHERE", 21⟩, ⟨.word "b", 27⟩, ⟨.gt, 29⟩,
      ⟨.date "2024-01-01", 31⟩] := by
    rw [tokenize_eq_lexemesWithin]
    rfl
  have a := Derives.column (Token.name?_word (w := "a") (by decide))
  have b := Derives.column (Token.name?_word (w := "b") (by decide))
  have call := @Derives.call "ROUND" [([.word "a"], _)] _
    (by simpa using a.of_primary .disjunction) (.round _ (Text.upper_eq rfl))
  have compare := (Derives.compare .gt (b.of_primary .sum)
    ((Derives.date "2024-01-01").of_primary .sum)).of_predicate
  rw [parse_eq_ok_iff_query ht, toOption_query_eq_some_iff]
  exact .mk .none
    (.expr (ofWord?_aggregateName (.tsql "") .sum) (call.of_primary .disjunction)) .none
    keyword_from (.bare (Token.name?_word (by decide))) .none (.where_ keyword_where compare)

theorem sql_sum_round :
    Query.sql (.tsql "dbo") ⟨⟨.sum, false, .expr (.call .round [.column ["a"]])⟩,
      ⟨none, "t"⟩, some (.binary .gt (.column ["b"]) (.date "2024-01-01"))⟩ =
        .ok ("SELECT SUM(ROUND(a, 0)) AS value FROM [dbo].[t] " ++
          "WITH (NOLOCK) WHERE b > '2024-01-01'") := by
  have ha : nameToken "a" = .word "a" := nameToken_of_isWord rfl rfl rfl (by decide)
  have hb : nameToken "b" = .word "b" := nameToken_of_isWord rfl rfl rfl (by decide)
  simp only [Query.sql, Query.pieces, Aggregate.pieces, Argument.pieces, Expr.pieces,
    Expr.piecesOfAll, columnPieces, ha, hb]
  rfl

theorem parse_sql_round_eq_ok_normal_iff :
    ∃ q, parse "SUM(ROUND(a)) FROM t WHERE b > #2024-01-01#" = .ok q ∧
      q.sql (.tsql "dbo") = .ok ("SELECT SUM(ROUND(a, 0)) AS value FROM [dbo].[t] " ++
        "WITH (NOLOCK) WHERE b > '2024-01-01'") ∧
      (parse ("SELECT SUM(ROUND(a, 0)) AS value FROM [dbo].[t] " ++
        "WITH (NOLOCK) WHERE b > '2024-01-01'") = .ok (q.normal (.tsql "dbo")) ↔
          q.Everywhere Expr.TestsSum) :=
  ⟨_, parse_sum_round, sql_sum_round, parse_sql_eq_ok_normal_iff parse_sum_round sql_sum_round⟩

theorem parse_count_isNull : parse "COUNT(*) FROM t WHERE ISNULL(a = b)" =
    .ok ⟨⟨.count, false, .star⟩, ⟨none, "t"⟩,
      some (.nested (.isNull false (.binary .eq (.column ["a"]) (.column ["b"]))))⟩ := by
  have ht : tokenize "COUNT(*) FROM t WHERE ISNULL(a = b)" = .ok [⟨.word "COUNT", 0⟩,
      ⟨.lparen, 5⟩, ⟨.star, 6⟩, ⟨.rparen, 7⟩, ⟨.word "FROM", 9⟩, ⟨.word "t", 14⟩,
      ⟨.word "WHERE", 16⟩, ⟨.word "ISNULL", 22⟩, ⟨.lparen, 28⟩, ⟨.word "a", 29⟩, ⟨.eq, 31⟩,
      ⟨.word "b", 33⟩, ⟨.rparen, 34⟩] := by
    rw [tokenize_eq_lexemesWithin]
    rfl
  have a := Derives.column (Token.name?_word (w := "a") (by decide))
  have b := Derives.column (Token.name?_word (w := "b") (by decide))
  have compare := (Derives.compare .eq (a.of_primary .sum) (b.of_primary .sum)).of_predicate
  have call := @Derives.call "ISNULL" [([.word "a", .eq, .word "b"], _)] _
    (by simpa using compare) (.nullTest _ (Text.upper_eq rfl))
  rw [parse_eq_ok_iff_query ht, toOption_query_eq_some_iff]
  exact .mk .none (.star (ofWord?_aggregateName (.tsql "") .count)) .none keyword_from
    (.bare (Token.name?_word (by decide))) .none
    (.where_ keyword_where (call.of_primary .disjunction))

/-- A comparison is written before IS NULL as it stands, and the text is no query. -/
theorem parse_sql_isNull_ne_normal :
    ∃ q, parse "COUNT(*) FROM t WHERE ISNULL(a = b)" = .ok q ∧
      q.sql .access = .ok "SELECT Count(*) AS value FROM [t] WHERE (a = b IS NULL)" ∧
      parse "SELECT Count(*) AS value FROM [t] WHERE (a = b IS NULL)" ≠ .ok (q.normal .access) := by
  have hs : Query.sql .access ⟨⟨.count, false, .star⟩, ⟨none, "t"⟩,
      some (.nested (.isNull false (.binary .eq (.column ["a"]) (.column ["b"]))))⟩ =
        .ok "SELECT Count(*) AS value FROM [t] WHERE (a = b IS NULL)" := by
    have ha : nameToken "a" = .word "a" := nameToken_of_isWord rfl rfl rfl (by decide)
    have hb : nameToken "b" = .word "b" := nameToken_of_isWord rfl rfl rfl (by decide)
    simp only [Query.sql, Query.pieces, Aggregate.pieces, Argument.pieces, Expr.pieces,
      columnPieces, ha, hb]
    rfl
  refine ⟨_, parse_count_isNull, hs, fun h => ?_⟩
  rw [parse_sql_eq_ok_iff .access parse_count_isNull hs] at h
  contradiction

end MetricBoard.Expression
