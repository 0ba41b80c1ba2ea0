import MetricBoard.Proofs.Expression.Lexing
import MetricBoard.Proofs.Expression.Parts

/-!
# What is in the grammar is read

`reads_of_derives`: where the grammar derives a tree, the reader of the tier gives that tree.
`query_of_derivesQuery` is the same for whole queries. Both directions together give
`parse_eq_ok_iff_derivesQuery`: a source is read as a query exactly when the grammar derives the
query from its tokens, and it derives no other.
-/

namespace MetricBoard.Expression

/-! ## Scalar expressions -/

theorem readsAll_of_forall {items : List (List Token × Expr)}
    (h : ∀ x ∈ items, Reads .disjunction x.1 (some x.2)) :
    ReadsAll (items.map Prod.fst) (some (items.map Prod.snd)) := by
  induction items with
  | nil => exact .nil
  | cons x items ih =>
    obtain ⟨hx, hitems⟩ := List.forall_mem_cons.1 h
    exact .cons hx (ih hitems)

/-- The reader of a tier reads what the grammar derives there. -/
theorem reads_of_derives {p : Tier} {ts : List Token} {e : Expr} (h : Derives p ts e) :
    Reads p ts (some e) := by
  induction h with
  | @tighter p q ts e hn hd ih =>
    cases p with
    | disjunction => cases hn; exact reads_level .disjunction ih
    | conjunction => cases hn; exact reads_level .conjunction ih
    | negation => cases hn; exact reads_negation ih
    | predicate =>
      cases hn
      refine reads_predicate (fun e' he => ?_) ih
      obtain rfl := Option.some.inj he
      exact Expr.endsInPredicate_of_isSum (isSum_of_derives hd rfl)
    | sum => cases hn; exact reads_level .sum ih
    | product => cases hn; exact reads_level .product ih
    | signed => cases hn; exact reads_signed ih
    | primary => contradiction
  | @join p q _ _ _ _ _ _ hj hn _ _ ihl ihr =>
    cases p with
    | disjunction => cases hn; exact reads_join .disjunction hj ihl ihr
    | conjunction => cases hn; exact reads_join .conjunction hj ihl ihr
    | sum => cases hn; exact reads_join .sum hj ihl ihr
    | product => cases hn; exact reads_join .product hj ihl ihr
    | _ => cases hj
  | not hk _ ih => exact reads_not hk ih
  | compare hc _ _ ihl ihr => exact reads_compare hc ihl ihr
  | isNull hi hneg hnull _ ih => exact reads_isNull hi hneg hnull ih
  | between hneg hb ha _ _ _ ih ihl ihh => exact reads_between hneg hb ha ih ihl ihh
  | inList hneg hi _ hne _ ih ihs =>
    exact reads_inList hneg hi ih (by simpa using hne) (readsAll_of_forall ihs)
  | like hneg hk _ _ ih ihp => exact reads_like hneg hk ih ihp
  | neg _ ih => exact reads_neg ih
  | plus _ ih => exact reads_plus ih
  | number n => exact reads_number n
  | text s => exact reads_text s
  | date d => exact reads_date d
  | null hk => exact reads_null hk
  | currentTimestamp hk => exact reads_currentTimestamp hk
  | column hn => exact reads_column hn
  | qualifiedColumn ht hu => exact reads_qualifiedColumn ht hu
  | nested _ ih => exact reads_nested ih
  | call _ hc ihs =>
    have h := reads_call hc.ofWord?_eq_none (readsAll_of_forall ihs)
    rwa [Option.bind_some, callTree?_eq_some_iff.2 hc] at h

/-- The grammar derives at most one tree from some tokens on a tier. -/
theorem Derives.unique {p : Tier} {ts : List Token} {e e' : Expr} (h : Derives p ts e)
    (h' : Derives p ts e') : e = e' :=
  Option.some.inj ((reads_of_derives h).unique (reads_of_derives h'))

/-! ## Queries -/

theorem readsAggregate_of_derives {ts : List Token} {a : Aggregate} (h : DerivesAggregate ts a) :
    ReadsAggregate ts (some a) := by
  cases h with
  | star hw => exact readsAggregate_star hw
  | expr hw he => exact readsAggregate_expr hw (reads_of_derives he)
  | distinct hw hd he => exact readsAggregate_distinct hw hd (reads_of_derives he)

theorem readsFilter_of_derives {ts : List Token} {w : Option Expr} (h : DerivesFilter ts w) :
    ReadsFilter ts (some w) := by
  cases h with
  | none => exact readsFilter_none
  | where_ ht he => exact readsFilter_where ht (reads_of_derives he)

/-- What the grammar derives as a query is read as that query. -/
theorem query_of_derivesQuery {ts : List Lexeme} {q : Query} (h : DerivesQuery (tokens ts) q) :
    (query ts).toOption = some q := by
  generalize hts : tokens ts = zs at h
  cases h with
  | mk hss has hls hf hns hhs hws =>
    exact query_of_parts hss (readsAggregate_of_derives has) hls hf hns hhs
      (readsFilter_of_derives hws) hts

/-! ## Sources -/

theorem toOption_query_eq_some_iff {ts : List Lexeme} {q : Query} :
    (query ts).toOption = some q ↔ DerivesQuery (tokens ts) q :=
  ⟨derives_of_query, query_of_derivesQuery⟩

/-- The grammar derives at most one query from some tokens. -/
theorem DerivesQuery.unique {ts : List Token} {q q' : Query} (h : DerivesQuery ts q)
    (h' : DerivesQuery ts q') : q = q' := by
  obtain ⟨xs, rfl⟩ := exists_tokens_eq ts
  exact Option.some.inj ((query_of_derivesQuery h).symm.trans (query_of_derivesQuery h'))

theorem toOption_query_nil : (query []).toOption = none := by
  rw [toOption_query]
  rfl

theorem parse_eq_ok_iff_query {source : String} {ls : List Lexeme} (ht : tokenize source = .ok ls)
    {q : Query} : parse source = .ok q ↔ (query ls).toOption = some q := by
  unfold parse parseFault
  rw [ht]
  cases ls with
  | nil =>
    rw [toOption_query_nil]
    constructor <;> intro h <;> contradiction
  | cons t ls =>
    show (query (t :: ls)).mapError (Fault.rejection source) = .ok q ↔ _
    cases query (t :: ls) with
    | error f => constructor <;> intro h <;> contradiction
    | ok q' =>
      show Except.ok q' = .ok q ↔ some q' = some q
      simp

/-- **Reading a query**: a source that has tokens is read as a query exactly when the grammar
derives the query from all of its tokens, and the grammar derives no other query from them. -/
theorem parse_eq_ok_iff_derivesQuery {source : String} {ls : List Lexeme}
    (ht : tokenize source = .ok ls) :
    (∀ q, parse source = .ok q ↔ DerivesQuery (tokens ls) q) ∧
      ∀ q q', DerivesQuery (tokens ls) q → DerivesQuery (tokens ls) q' → q = q' := by
  refine ⟨fun q => ?_, fun q q' h h' => h.unique h'⟩
  rw [parse_eq_ok_iff_query ht, toOption_query_eq_some_iff]

theorem parse_count_eq_ok_iff_derivesQuery :
    tokenize "COUNT(*) FROM t" = .ok [⟨.word "COUNT", 0⟩, ⟨.lparen, 5⟩, ⟨.star, 6⟩, ⟨.rparen, 7⟩,
      ⟨.word "FROM", 9⟩, ⟨.word "t", 14⟩] ∧
    (∀ q, parse "COUNT(*) FROM t" = .ok q ↔
      DerivesQuery [.word "COUNT", .lparen, .star, .rparen, .word "FROM", .word "t"] q) ∧
    ∀ q q',
      DerivesQuery [.word "COUNT", .lparen, .star, .rparen, .word "FROM", .word "t"] q →
      DerivesQuery [.word "COUNT", .lparen, .star, .rparen, .word "FROM", .word "t"] q' →
      q = q' := by
  have h : tokenize "COUNT(*) FROM t" = .ok [⟨.word "COUNT", 0⟩, ⟨.lparen, 5⟩, ⟨.star, 6⟩,
      ⟨.rparen, 7⟩, ⟨.word "FROM", 9⟩, ⟨.word "t", 14⟩] := by
    rw [tokenize_eq_lexemesWithin]
    rfl
  exact ⟨h, parse_eq_ok_iff_derivesQuery h⟩

end MetricBoard.Expression
