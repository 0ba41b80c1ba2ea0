import MetricBoard.Proofs.Expression.Idempotence

/-!
# Chains of dialects

An expression is transpiled for one server, the result for another, and so on. Where the tree of
the source is written alike for both servers, the texts in between leave no trace: the chain ends
where its last dialect leads directly, exactly when no test for null is one of a predicate
(`collapses_iff`).
-/

namespace MetricBoard.Expression

variable {d d' : Dialect}

/-- What is read back as the same tree from the texts of all dialects: no date, no IIF and no
rounding to whole numbers. -/
def Expr.IsPortable : Expr → Prop
  | .date _ | .call .iif _ | .call .round [_] => False
  | _ => True

/-- A test for null is not one of a predicate. -/
def Expr.TestsNoPredicate : Expr → Prop
  | .isNull _ e => e.endsInPredicate = false
  | _ => True

/-- A chain that is never rejected and ends where its last dialect leads directly. -/
structure Collapses (source : String) (ds : List Dialect) : Prop where
  accepted : ∀ r ∈ transpileChain source ds, ∃ sql, r = .ok sql
  last : (transpileChain source ds).getLast? = ds.getLast?.map fun d => transpile d source

/-! ## Trees that are written alike -/

theorem Dialect.callTree_of_isPortable {f : Function} {args es : List Expr}
    (h : (Expr.call f args).IsPortable) (hl : es.length = args.length) (d : Dialect) :
    d.callTree f es = .call f es := by
  unfold Dialect.callTree
  split
  · obtain ⟨e, rfl⟩ := List.length_eq_one_iff.1 hl.symm
    exact h.elim
  · exact h.elim
  · rfl

mutual

theorem reread_of_isPortable (d d' : Dialect) : ∀ {e : Expr}, e.Everywhere Expr.IsPortable →
    e.reread d = e.reread d'
  | .column _, _ | .number _, _ | .text _, _ | .null, _ => by rw [Expr.reread, Expr.reread]
  | .date _, h => h.elim
  | .call f args, h => by
    rw [Expr.reread, Expr.reread, rereadAll_of_isPortable d d' h.2]
    refine Option.map_congr fun es hes => ?_
    have hl := length_of_rereadAll hes
    rw [d.callTree_of_isPortable h.1 hl, d'.callTree_of_isPortable h.1 hl]
  | .unary .neg e, h | .unary .not e, h => by
    rw [Expr.reread, Expr.reread, reread_of_isPortable d d' h.2]
  | .binary op l r, h => by
    rw [Expr.reread, Expr.reread, reread_of_isPortable d d' h.2.1,
      reread_of_isPortable d d' h.2.2]
  | .isNull negated e, h => by
    rw [Expr.reread, Expr.reread, reread_of_isPortable d d' h.2]
  | .between negated e low high, h => by
    rw [Expr.reread, Expr.reread, reread_of_isPortable d d' h.2.1,
      reread_of_isPortable d d' h.2.2.1, reread_of_isPortable d d' h.2.2.2]
  | .inList negated e items, h => by
    rw [Expr.reread, Expr.reread, reread_of_isPortable d d' h.2.1,
      rereadAll_of_isPortable d d' h.2.2]
  | .like negated e pattern, h => by
    rw [Expr.reread, Expr.reread, reread_of_isPortable d d' h.2.1,
      reread_of_isPortable d d' h.2.2]
  | .nested e, h => by
    rw [Expr.reread, Expr.reread, reread_of_isPortable d d' h.2]

theorem rereadAll_of_isPortable (d d' : Dialect) : ∀ {es : List Expr},
    Expr.EverywhereIn Expr.IsPortable es → Expr.rereadAll d es = Expr.rereadAll d' es
  | [], _ => by rw [Expr.rereadAll, Expr.rereadAll]
  | e :: es, h => by
    rw [Expr.rereadAll, Expr.rereadAll, reread_of_isPortable d d' h.1,
      rereadAll_of_isPortable d d' h.2]

end

mutual

/-- What is read back at all has no test for null of a predicate. -/
theorem testsNoPredicate_of_reread : ∀ {e e' : Expr}, e.reread d = some e' →
    e.Everywhere Expr.TestsNoPredicate
  | .column _, _, _ | .number _, _, _ | .text _, _, _ | .date _, _, _ | .null, _, _ => trivial
  | .call f args, _, h => by
    rw [Expr.reread] at h
    obtain ⟨es, hes, -⟩ := Option.map_eq_some_iff.1 h
    exact ⟨trivial, testsNoPredicate_of_rereadAll hes⟩
  | .unary .neg e, _, h | .unary .not e, _, h => by
    rw [Expr.reread] at h
    obtain ⟨e', he, -⟩ := Option.map_eq_some_iff.1 h
    exact ⟨trivial, testsNoPredicate_of_reread he⟩
  | .binary op l r, _, h => by
    rw [Expr.reread] at h
    obtain ⟨l', hl, h⟩ := Option.bind_eq_some_iff.1 h
    obtain ⟨r', hr, -⟩ := Option.map_eq_some_iff.1 h
    exact ⟨trivial, testsNoPredicate_of_reread hl, testsNoPredicate_of_reread hr⟩
  | .isNull negated e, _, h => by
    rw [Expr.reread] at h
    obtain ⟨e', he, h⟩ := Option.bind_eq_some_iff.1 h
    refine ⟨?_, testsNoPredicate_of_reread he⟩
    show e.endsInPredicate = false
    rw [← endsInPredicate_reread he, Bool.eq_false_iff, Ne, ← Expr.test?_eq_none_iff negated, h]
    simp
  | .between negated e low high, _, h => by
    rw [Expr.reread] at h
    obtain ⟨e', he, h⟩ := Option.bind_eq_some_iff.1 h
    obtain ⟨low', hlow, h⟩ := Option.bind_eq_some_iff.1 h
    obtain ⟨high', hhigh, -⟩ := Option.map_eq_some_iff.1 h
    exact ⟨trivial, testsNoPredicate_of_reread he, testsNoPredicate_of_reread hlow,
      testsNoPredicate_of_reread hhigh⟩
  | .inList negated e items, _, h => by
    rw [Expr.reread] at h
    obtain ⟨e', he, h⟩ := Option.bind_eq_some_iff.1 h
    obtain ⟨es, hes, -⟩ := Option.map_eq_some_iff.1 h
    exact ⟨trivial, testsNoPredicate_of_reread he, testsNoPredicate_of_rereadAll hes⟩
  | .like negated e pattern, _, h => by
    rw [Expr.reread] at h
    obtain ⟨e', he, h⟩ := Option.bind_eq_some_iff.1 h
    obtain ⟨p', hp, -⟩ := Option.map_eq_some_iff.1 h
    exact ⟨trivial, testsNoPredicate_of_reread he, testsNoPredicate_of_reread hp⟩
  | .nested e, _, h => by
    rw [Expr.reread] at h
    obtain ⟨e', he, -⟩ := Option.map_eq_some_iff.1 h
    exact ⟨trivial, testsNoPredicate_of_reread he⟩

theorem testsNoPredicate_of_rereadAll : ∀ {es es' : List Expr}, Expr.rereadAll d es = some es' →
    Expr.EverywhereIn Expr.TestsNoPredicate es
  | [], _, _ => trivial
  | e :: es, _, h => by
    rw [Expr.rereadAll] at h
    obtain ⟨e', he, h⟩ := Option.bind_eq_some_iff.1 h
    obtain ⟨es', hes, -⟩ := Option.map_eq_some_iff.1 h
    exact ⟨testsNoPredicate_of_reread he, testsNoPredicate_of_rereadAll hes⟩

end

theorem stays_of_isPortable {e : Expr} (hp : e.IsPortable) (ht : e.TestsNoPredicate) :
    e.Stays d := by
  cases e with
  | isNull _ _ => exact ht
  | call f _ =>
    cases f with
    | iif => exact hp.elim
    | _ => trivial
  | _ => trivial

/-! ## Queries -/

/-- A query is read back from the texts of two dialects as the same query but for its table. -/
theorem reread_query_of_isPortable (d d' : Dialect) {q : Query}
    (h : q.Everywhere Expr.IsPortable) :
    q.reread d = (q.reread d').map fun q' => { q' with table := d.readTable q.table } := by
  have ha : q.aggregate.argument.reread d = q.aggregate.argument.reread d' := by
    cases hq : q.aggregate.argument with
    | star => rfl
    | expr e => rw [Argument.reread, Argument.reread, reread_of_isPortable d d' (h.1 e hq)]
  have hw : rereadFilter d q.filter = rereadFilter d' q.filter := by
    cases hq : q.filter with
    | none => rfl
    | some e => rw [rereadFilter, rereadFilter, reread_of_isPortable d d' (h.2 e hq)]
  rw [Query.reread, Query.reread, ha, hw]
  cases q.aggregate.argument.reread d' <;> cases rereadFilter d' q.filter <;> rfl

theorem testsNoPredicate_of_reread_query {q q' : Query} (h : q.reread d = some q') :
    q.Everywhere Expr.TestsNoPredicate := by
  obtain ⟨a, ha, h⟩ := Option.bind_eq_some_iff.1 h
  obtain ⟨w, hw, -⟩ := Option.map_eq_some_iff.1 h
  constructor
  · intro e he
    rw [he] at ha
    obtain ⟨e', he', -⟩ := Option.map_eq_some_iff.1 ha
    exact testsNoPredicate_of_reread he'
  · intro e he
    rw [he] at hw
    obtain ⟨e', he', -⟩ := Option.map_eq_some_iff.1 hw
    exact testsNoPredicate_of_reread he'

theorem sql_of_tablePieces {q : Query} {t : TableName}
    (h : d.tablePieces t = d.tablePieces q.table) :
    Query.sql d { q with table := t } = q.sql d := by
  simp only [Query.sql, Query.pieces, h]

theorem table_of_reread {q q' : Query} (h : q.reread d = some q') :
    q'.table = d.readTable q.table := by
  obtain ⟨a, -, h⟩ := Option.bind_eq_some_iff.1 h
  obtain ⟨w, -, rfl⟩ := Option.map_eq_some_iff.1 h
  rfl

/-- The dialects that are given one default schema. -/
def Dialect.TakesSchema (schema : String) (d : Dialect) : Prop := d = .access ∨ d = .tsql schema

section Chains

variable {source schema : String} {q : Query}

/-- A table in the default schema is found in it whether it has been written or not. -/
theorem tablePieces_readTable_of_schema {t : TableName}
    (ht : t.schema = none ∨ t.schema = some schema) (hd : d.TakesSchema schema)
    (hd' : d'.TakesSchema schema) : d'.tablePieces (d.readTable t) = d'.tablePieces t := by
  obtain ⟨s, n⟩ := t
  rcases ht with rfl | rfl <;> rcases hd with rfl | rfl <;> rcases hd' with rfl | rfl <;> rfl

theorem transpile_eq_sql (h : parse source = .ok q) (d : Dialect) :
    transpile d source = q.sql d := by
  rw [transpile, h]
  rfl

/-- The text for one dialect is transpiled for another as the source is. -/
theorem transpile_sql {sql : String} (h : parse source = .ok q)
    (hp : q.Everywhere Expr.IsPortable) (ht : q.Everywhere Expr.TestsNoPredicate)
    (hs : q.table.schema = none ∨ q.table.schema = some schema) (hd : d.TakesSchema schema)
    (hd' : d'.TakesSchema schema) (hsql : q.sql d = .ok sql) : transpile d' sql = q.sql d' := by
  obtain ⟨q', hr, hq'⟩ := exists_reread_query_of_stays
    (hp.map₂ (fun _ => stays_of_isPortable (d := d')) ht)
  have hread : q.reread d = some { q' with table := d.readTable q.table } := by
    rw [reread_query_of_isPortable d d' hp, hr]
    rfl
  have htable : d'.tablePieces (d.readTable q.table) = d'.tablePieces q'.table := by
    rw [table_of_reread hr, tablePieces_readTable_of_schema hs hd hd', tablePieces_readTable]
  rw [transpile_eq_sql ((parse_sql_eq_ok_iff d h hsql).2 hread), sql_of_tablePieces htable, hq']

/-- Every query but one with DISTINCT has a text. -/
theorem exists_sql_of_not_distinct (hq : q.aggregate.distinct = false) (d : Dialect) :
    ∃ sql, q.sql d = .ok sql := exists_sql_iff.2 (by simp [hq])

/-- Behind the first text the chain goes on as it would from the source. -/
theorem transpileChain_sql {sql : String} (h : parse source = .ok q)
    (hp : q.Everywhere Expr.IsPortable) (ht : q.Everywhere Expr.TestsNoPredicate)
    (hq : q.aggregate.distinct = false) (hs : q.table.schema = none ∨ q.table.schema = some schema)
    (hd : d.TakesSchema schema) (hsql : q.sql d = .ok sql) (ds : List Dialect)
    (hds : ∀ d' ∈ ds, d'.TakesSchema schema) :
    transpileChain sql ds = ds.map fun d' => q.sql d' := by
  induction ds generalizing d sql with
  | nil => rfl
  | cons d' ds ih =>
    obtain ⟨hd', hds⟩ := List.forall_mem_cons.1 hds
    obtain ⟨sql', hsql'⟩ := exists_sql_of_not_distinct hq d'
    have hstep := transpile_sql h hp ht hs hd hd' hsql
    rw [transpileChain, hstep, hsql']
    show .ok sql' :: transpileChain sql' ds = _
    rw [ih hd' hsql' hds, List.map_cons, hsql']

theorem transpileChain_of_ok {sql : String} (h : transpile d source = .ok sql)
    (ds : List Dialect) : transpileChain source (d :: ds) = .ok sql :: transpileChain sql ds := by
  rw [transpileChain, h]

/-- The next dialect is met with the text of the one before it. -/
theorem mem_transpileChain (d : Dialect) (ds : List Dialect) :
    transpile d source ∈ transpileChain source (d :: ds) := by
  rw [transpileChain]
  cases transpile d source <;> exact List.mem_cons_self

/-- A text that is transpiled at all was written without a test of a predicate. -/
theorem testsNoPredicate_of_transpile_sql {sql sql' : String} (h : parse source = .ok q)
    (hsql : q.sql d = .ok sql) (ht : transpile d' sql = .ok sql') :
    q.Everywhere Expr.TestsNoPredicate := by
  cases hq : parse sql with
  | error r =>
    rw [transpile, hq] at ht
    contradiction
  | ok q' => exact testsNoPredicate_of_reread_query ((parse_sql_eq_ok_iff d h hsql).1 hq)

theorem testsNoPredicate_of_collapses (h : parse source = .ok q)
    (hq : q.aggregate.distinct = false) {ds : List Dialect}
    (hc : Collapses source (d :: d' :: ds)) : q.Everywhere Expr.TestsNoPredicate := by
  obtain ⟨sql, hsql⟩ := exists_sql_of_not_distinct hq d
  have hmem : transpile d' sql ∈ transpileChain source (d :: d' :: ds) := by
    rw [transpileChain_of_ok ((transpile_eq_sql h d).trans hsql)]
    exact List.mem_cons_of_mem _ (mem_transpileChain d' ds)
  obtain ⟨sql', hsql'⟩ := hc.accepted _ hmem
  exact testsNoPredicate_of_transpile_sql h hsql hsql'

theorem collapses_of_testsNoPredicate (h : parse source = .ok q)
    (hp : q.Everywhere Expr.IsPortable) (ht : q.Everywhere Expr.TestsNoPredicate)
    (hq : q.aggregate.distinct = false) (hs : q.table.schema = none ∨ q.table.schema = some schema)
    {ds : List Dialect} (hds : ∀ d ∈ ds, d.TakesSchema schema) : Collapses source ds := by
  have hchain : transpileChain source ds = ds.map fun d => q.sql d := by
    cases ds with
    | nil => rfl
    | cons d ds =>
      obtain ⟨hd, hds⟩ := List.forall_mem_cons.1 hds
      obtain ⟨sql, hsql⟩ := exists_sql_of_not_distinct hq d
      rw [transpileChain_of_ok ((transpile_eq_sql h d).trans hsql),
        transpileChain_sql h hp ht hq hs hd hsql ds hds, List.map_cons, hsql]
  constructor
  · intro r hr
    rw [hchain] at hr
    obtain ⟨d, -, rfl⟩ := List.mem_map.1 hr
    exact exists_sql_of_not_distinct hq d
  · rw [hchain, List.getLast?_map]
    simp only [transpile_eq_sql h]

/-- **Chains collapse**: a portable query with its table in the default schema is transpiled along
a chain of dialects to what its last dialect makes of the source, if and only if the chain has one
dialect or no test for null in the query is one of a predicate. -/
theorem collapses_iff (h : parse source = .ok q) (hp : q.Everywhere Expr.IsPortable)
    (hq : q.aggregate.distinct = false) (hs : q.table.schema = none ∨ q.table.schema = some schema)
    {ds : List Dialect} (hds : ∀ d ∈ ds, d.TakesSchema schema) :
    Collapses source ds ↔ ds.length ≤ 1 ∨ q.Everywhere Expr.TestsNoPredicate := by
  constructor
  · intro hc
    match ds with
    | [] => exact .inl (Nat.zero_le 1)
    | [_] => exact .inl (Nat.le_refl 1)
    | _ :: _ :: _ => exact .inr (testsNoPredicate_of_collapses h hq hc)
  · rintro (hl | ht)
    · match ds with
      | [] => exact ⟨fun r hr => absurd hr List.not_mem_nil, rfl⟩
      | [d] =>
        obtain ⟨sql, hsql⟩ := exists_sql_of_not_distinct hq d
        have hd := (transpile_eq_sql h d).trans hsql
        have hchain : transpileChain source [d] = [.ok sql] := transpileChain_of_ok hd []
        constructor
        · intro r hr
          rw [hchain, List.mem_singleton] at hr
          exact ⟨sql, hr⟩
        · rw [hchain]
          exact congrArg some hd.symm
    · exact collapses_of_testsNoPredicate h hp ht hq hs hds

end Chains

theorem parse_sum_mod : parse "SUM(NZ(a) % 2) FROM t WHERE ISNULL(b)" =
    .ok ⟨⟨.sum, false, .expr (.binary .mod (.call .coalesce [.column ["a"], .number "0"])
      (.number "2"))⟩, ⟨none, "t"⟩, some (.nested (.isNull false (.column ["b"])))⟩ := by
  have ht : tokenize "SUM(NZ(a) % 2) FROM t WHERE ISNULL(b)" = .ok [⟨.word "SUM", 0⟩, ⟨.lparen, 3⟩,
      ⟨.word "NZ", 4⟩, ⟨.lparen, 6⟩, ⟨.word "a", 7⟩, ⟨.rparen, 8⟩, ⟨.percent, 10⟩,
      ⟨.number "2", 12⟩, ⟨.rparen, 13⟩, ⟨.word "FROM", 15⟩, ⟨.word "t", 20⟩,
      ⟨.word "WHERE", 22⟩, ⟨.word "ISNULL", 28⟩, ⟨.lparen, 34⟩, ⟨.word "b", 35⟩,
      ⟨.rparen, 36⟩] := by
    rw [tokenize_eq_lexemesWithin]
    rfl
  have a := Derives.column (Token.name?_word (w := "a") (by decide))
  have b := Derives.column (Token.name?_word (w := "b") (by decide))
  have nz := @Derives.call "NZ" [([.word "a"], _)] _
    (by simpa using a.of_primary .disjunction) (.orZero _ (Text.upper_eq rfl))
  have mod := Derives.join .percent rfl (nz.of_primary .product)
    ((Derives.number "2").of_primary .signed)
  have sum : Derives .disjunction _ _ := (Derives.tighter (p := .predicate) rfl
    (.tighter (p := .sum) rfl mod)).of_predicate
  have test := @Derives.call "ISNULL" [([.word "b"], _)] _
    (by simpa using b.of_primary .disjunction) (.nullTest _ (Text.upper_eq rfl))
  rw [parse_eq_ok_iff_query ht, toOption_query_eq_some_iff]
  exact .mk .none (.expr (ofWord?_aggregateName (.tsql "") .sum) sum) .none keyword_from
    (.bare (Token.name?_word (by decide))) .none
    (.where_ keyword_where (test.of_primary .disjunction))

/-- A chain from one server to the other and back, through two spellings of each function. -/
theorem collapses_iff_sum_mod :
    ∃ q, parse "SUM(NZ(a) % 2) FROM t WHERE ISNULL(b)" = .ok q ∧
      q.Everywhere Expr.TestsNoPredicate ∧
      (Collapses "SUM(NZ(a) % 2) FROM t WHERE ISNULL(b)" [.tsql "dbo", .access, .tsql "dbo"] ↔
        3 ≤ 1 ∨ q.Everywhere Expr.TestsNoPredicate) :=
  ⟨_, parse_sum_mod, by simp [Query.Everywhere, Expr.TestsNoPredicate, Expr.endsInPredicate],
    @collapses_iff _ "dbo" _ parse_sum_mod (by simp [Query.Everywhere, Expr.IsPortable]) rfl
      (.inl rfl) _ (by simp [Dialect.TakesSchema])⟩

/-- A test of a comparison for null is written without the parentheses that it needs, and the
second dialect cannot read it. -/
theorem not_collapses_isNull :
    ∃ q, parse "COUNT(*) FROM t WHERE ISNULL(a = b)" = .ok q ∧ q.Everywhere Expr.IsPortable ∧
      q.aggregate.distinct = false ∧ q.table.schema = none ∧
      ¬ Collapses "COUNT(*) FROM t WHERE ISNULL(a = b)" [.tsql "dbo", .access] := by
  refine ⟨_, parse_count_isNull, by simp [Query.Everywhere, Expr.IsPortable], rfl, rfl, ?_⟩
  intro hc
  have ht := testsNoPredicate_of_collapses parse_count_isNull rfl hc
  simp [Query.Everywhere, Expr.TestsNoPredicate, Expr.endsInPredicate] at ht

end MetricBoard.Expression
