import MetricBoard.Proofs.Expression.Completeness
import MetricBoard.Proofs.Expression.Rereading

/-!
# Reading a query back

`rereads_of_derives`: what was read from a source and written again is read as `Expr.reread` says.
`parse_sql_eq_ok_iff` is the same for whole queries.
-/

namespace MetricBoard.Expression

/-! ## Signs -/

/-- A tree that can stand behind a sign. -/
def Expr.isOperand : Expr → Bool
  | .unary .not _ | .binary _ _ _ | .isNull _ _ | .between _ _ _ _ | .inList _ _ _ | .like _ _ _ =>
    false
  | _ => true

theorem Calls.isOperand {w : String} {args : List Expr} {e : Expr} (h : Calls w args e) :
    e.isOperand = true := by
  cases h with
  | coalesce _ hc => cases hc <;> rfl
  | _ => rfl

theorem isOperand_of_derives {p : Tier} {ts : List Token} {e : Expr} (h : Derives p ts e) :
    p = .signed ∨ p = .primary → e.isOperand = true := by
  induction h with
  | @tighter p q _ _ hn _ ih =>
    intro hp
    apply ih
    cases p <;> cases q <;> simp_all [Tier.next?]
  | plus _ ih => exact ih
  | join hj _ _ _ _ _ => cases hj <;> simp
  | call _ hc _ => exact fun _ => hc.isOperand
  | not _ _ _ | compare _ _ _ _ _ | isNull _ _ _ _ _ | between _ _ _ _ _ _ _ _ _
  | inList _ _ _ _ _ _ _ | like _ _ _ _ _ _ => simp
  | _ => exact fun _ => rfl

theorem head?_text_token {t : Token} (ht : t.IsLexical) (hm : t ≠ .minus) (ps : List Piece) :
    (Piece.text (.token t :: ps)).head? ≠ some '-' := by
  cases t with
  | word w =>
    obtain ⟨c, cs, hw, hc, -⟩ := ht
    have : c ≠ '-' := by rintro rfl; contradiction
    simp [Piece.text, Piece.spelling, Token.spelling, hw, this]
  | number n =>
    obtain ⟨c, whole, fraction, hn, hc, -⟩ := ht
    have : c ≠ '-' := by rintro rfl; contradiction
    simp [Piece.text, Piece.spelling, Token.spelling, hn, this]
  | minus => contradiction
  | _ => simp [Piece.text, Piece.spelling, Token.spelling, Token.delimited]

theorem head?_text_word {w : String} (hw : (Token.word w).IsLexical) (ps : List Piece) :
    (Piece.text (Piece.word w :: ps)).head? ≠ some '-' :=
  head?_text_token hw (by simp) ps

theorem head?_text_columnPieces (parts : List String) :
    (Piece.text (columnPieces parts)).head? ≠ some '-' := by
  have hname (name : String) : nameToken name ≠ .minus := by unfold nameToken; split <;> simp
  fun_cases columnPieces parts with
  | case1 => simp [Piece.text]
  | case2 part | case3 part rest _ =>
    exact head?_text_token (isLexical_nameToken part) (hname part) _

theorem head?_text_callPieces (d : Dialect) (f : Function) (args : List (List Piece)) :
    (Piece.text (d.callPieces f args)).head? ≠ some '-' := by
  unfold Dialect.callPieces
  split <;> exact head?_text_word (isLexical_word (by decide)) _

/-- A tree that can stand behind a sign is written with a minus sign first if it is a negation. -/
theorem head?_text_pieces (d : Dialect) {e : Expr} (ho : e.isOperand = true) (hl : e.IsLexical) :
    (Piece.text (e.pieces d)).head? = some '-' ↔ e.isNeg = true := by
  cases e with
  | column parts =>
    rw [Expr.pieces]
    exact iff_of_false (head?_text_columnPieces parts) (by simp [Expr.isNeg])
  | call f args =>
    rw [Expr.pieces]
    exact iff_of_false (head?_text_callPieces d f _) (by simp [Expr.isNeg])
  | number n =>
    rw [Expr.pieces]
    exact iff_of_false (head?_text_token (t := .number n) hl (by simp) _) (by simp [Expr.isNeg])
  | text s =>
    rw [Expr.pieces]
    exact iff_of_false (head?_text_token (t := .text s) trivial (by simp) _) (by simp [Expr.isNeg])
  | date s =>
    rw [Expr.pieces]
    exact iff_of_false (head?_text_token (isLexical_dateToken hl) (by cases d <;> simp
      [Dialect.dateToken]) _) (by simp [Expr.isNeg])
  | null =>
    rw [Expr.pieces]
    exact iff_of_false (head?_text_word (isLexical_word (by decide)) _) (by simp [Expr.isNeg])
  | nested e =>
    rw [Expr.pieces]
    exact iff_of_false (head?_text_token (t := .lparen) trivial (by simp) _) (by simp [Expr.isNeg])
  | unary op e =>
    cases op with
    | neg =>
      rw [Expr.pieces, negPieces]
      exact iff_of_true (by split <;> rfl) rfl
    | not => contradiction
  | _ => contradiction

theorem reads_negPieces {d : Dialect} {e : Expr} {ts : List Token} (hd : Derives .signed ts e)
    (hl : e.IsLexical) (h : Reads .signed (Piece.tokens (e.pieces d)) (e.reread d)) :
    Reads .signed (Piece.tokens ((Expr.unary .neg e).pieces d))
      ((Expr.unary .neg e).reread d) := by
  have hhead := head?_text_pieces d (isOperand_of_derives hd (.inl rfl)) hl
  rw [Expr.pieces, Expr.reread, negPieces]
  by_cases he : e.isNeg = true
  · have hnested := reads_nested <| h.disjunction_of_signed fun e' he' =>
      Expr.isSum_of_reread he' (isSum_of_derives hd rfl)
    rw [if_pos (hhead.2 he)]
    simpa [he, Function.comp_def] using reads_neg (reads_signed hnested)
  · rw [if_neg (mt hhead.1 he)]
    simpa [he] using reads_neg h

/-! ## Expressions -/

theorem name?_nameToken (name : String) : (nameToken name).name? = some name := by
  unfold nameToken
  split
  · rename_i h
    unfold isBareName at h
    split at h
    · simp_all [Token.name?]
    · contradiction
  · rfl

/-- What is read of an expression that has been written, alone and with IS NULL behind it. -/
structure Rereads (d : Dialect) (p : Tier) (e : Expr) : Prop where
  reads : Reads p (Piece.tokens (e.pieces d)) (e.reread d)
  tests : p.isArithmetic = false → Tests p (Piece.tokens (e.pieces d)) (e.reread d)

namespace Rereads

variable {d : Dialect} {p q : Tier} {e l r : Expr}

theorem of_isArithmetic (hp : p.isArithmetic = true)
    (h : Reads p (Piece.tokens (e.pieces d)) (e.reread d)) : Rereads d p e :=
  ⟨h, fun hp' => by rw [hp] at hp'; contradiction⟩

theorem of_predicate (h : Reads p (Piece.tokens (e.pieces d)) (e.reread d))
    (he : ∀ e', e.reread d = some e' → e'.endsInPredicate = true) : Rereads d p e :=
  ⟨h, fun _ => tests_of_endsInPredicate he⟩

theorem tighter (hn : p.next? = some q) (hs : q.isArithmetic = true → e.isSum = true)
    (h : Rereads d q e) : Rereads d p e := by
  cases p with
  | disjunction =>
    cases hn
    exact ⟨reads_level .disjunction h.reads,
      fun _ => tests_level .disjunction (h.tests rfl)⟩
  | conjunction =>
    cases hn
    exact ⟨reads_level .conjunction h.reads,
      fun _ => tests_level .conjunction (h.tests rfl)⟩
  | negation =>
    cases hn
    exact ⟨reads_negation h.reads, fun _ => tests_negation (h.tests rfl)⟩
  | predicate =>
    cases hn
    have hs' : ∀ e', e.reread d = some e' → e'.isSum = true := fun e' he =>
      Expr.isSum_of_reread he (hs rfl)
    exact ⟨reads_predicate (fun e' he => Expr.endsInPredicate_of_isSum (hs' e' he)) h.reads,
      fun _ => tests_of_isSum h.reads hs'⟩
  | sum => cases hn; exact of_isArithmetic rfl (reads_level .sum h.reads)
  | product => cases hn; exact of_isArithmetic rfl (reads_level .product h.reads)
  | signed => cases hn; exact of_isArithmetic rfl (reads_signed h.reads)
  | primary => contradiction

theorem join {t : Token} {op : BinaryOp} (hj : Joins p t op) (hn : p.next? = some q)
    (hl : Rereads d p l) (hr : Rereads d q r) : Rereads d p (.binary op l r) := by
  have hj' := joins_operatorToken hj d
  have hp : Piece.tokens ((Expr.binary op l r).pieces d) =
      Piece.tokens (l.pieces d) ++ d.operatorToken op :: Piece.tokens (r.pieces d) := by
    simp [Expr.pieces]
  have he : (Expr.binary op l r).reread d =
      (l.reread d).bind fun l => (r.reread d).map fun r => .binary op l r := by rw [Expr.reread]
  cases p with
  | disjunction =>
    cases hn
    refine ⟨?_, fun _ => ?_⟩ <;> rw [hp, he]
    · exact reads_join .disjunction hj' hl.reads hr.reads
    · exact tests_join .disjunction rfl hj' hl.reads (hr.tests rfl)
  | conjunction =>
    cases hn
    refine ⟨?_, fun _ => ?_⟩ <;> rw [hp, he]
    · exact reads_join .conjunction hj' hl.reads hr.reads
    · exact tests_join .conjunction rfl hj' hl.reads (hr.tests rfl)
  | sum =>
    cases hn
    refine of_isArithmetic rfl ?_
    rw [hp, he]
    exact reads_join .sum hj' hl.reads hr.reads
  | product =>
    cases hn
    refine of_isArithmetic rfl ?_
    rw [hp, he]
    exact reads_join .product hj' hl.reads hr.reads
  | _ => cases hj

theorem not (h : Rereads d .negation e) : Rereads d .negation (.unary .not e) := by
  have hp : Piece.tokens ((Expr.unary .not e).pieces d) =
      .word "NOT" :: Piece.tokens (e.pieces d) := by simp [Expr.pieces, Piece.word]
  refine ⟨?_, fun _ => ?_⟩ <;> rw [hp, Expr.reread]
  · exact reads_not keyword_not h.reads
  · exact tests_not keyword_not (h.tests rfl)

theorem compare {t : Token} {op : BinaryOp} (hc : Compares t op) (hl : Rereads d .sum l)
    (hr : Rereads d .sum r) : Rereads d .predicate (.binary op l r) := by
  refine of_predicate ?_ fun e' he => ?_
  · have h := reads_compare (compares_operatorToken hc d) hl.reads hr.reads
    rw [Expr.reread]
    simpa [Expr.pieces] using h
  · rw [Expr.reread] at he
    obtain ⟨l', -, he⟩ := Option.bind_eq_some_iff.1 he
    obtain ⟨r', -, rfl⟩ := Option.map_eq_some_iff.1 he
    cases hc <;> rfl

theorem isNull (negated : Bool) (hs : e.isSum = true) (h : Rereads d .sum e) :
    Rereads d .predicate (.isNull negated e) := by
  have he : (Expr.isNull negated e).reread d = (e.reread d).map (.isNull negated) := by
    rw [Expr.reread]
    cases ho : e.reread d with
    | none => rfl
    | some e' => exact Expr.test?_of_isSum (Expr.isSum_of_reread ho hs) negated
  refine of_predicate ?_ fun e' he' => ?_
  · have hr := reads_isNull keyword_is (negates_notTokens negated) keyword_null h.reads
    rw [he]
    simpa [Expr.pieces, Piece.word] using hr
  · rw [he] at he'
    obtain ⟨e₁, -, rfl⟩ := Option.map_eq_some_iff.1 he'
    rfl

theorem between (negated : Bool) {low high : Expr} (h : Rereads d .sum e)
    (hl : Rereads d .sum low) (hh : Rereads d .sum high) :
    Rereads d .predicate (.between negated e low high) := by
  refine of_predicate ?_ fun e' he => ?_
  · have hr := reads_between (negates_notTokens negated) keyword_between keyword_and h.reads
      hl.reads hh.reads
    rw [Expr.reread]
    simpa [Expr.pieces, Piece.word] using hr
  · rw [Expr.reread] at he
    obtain ⟨e₁, -, he⟩ := Option.bind_eq_some_iff.1 he
    obtain ⟨l', -, he⟩ := Option.bind_eq_some_iff.1 he
    obtain ⟨h', -, rfl⟩ := Option.map_eq_some_iff.1 he
    rfl

theorem inList (negated : Bool) {items : List Expr} (hne : items ≠ []) (h : Rereads d .sum e)
    (hitems : ∀ e ∈ items, ReadsWritten d e) : Rereads d .predicate (.inList negated e items) := by
  refine of_predicate ?_ fun e' he => ?_
  · have hr := reads_inList (negates_notTokens negated) keyword_in h.reads
      (by cases items <;> simp_all [Expr.piecesOfAll]) (readsAll_written hitems)
    rw [Expr.reread]
    simpa [Expr.pieces, Piece.word] using hr
  · rw [Expr.reread] at he
    obtain ⟨e₁, -, he⟩ := Option.bind_eq_some_iff.1 he
    obtain ⟨es, -, rfl⟩ := Option.map_eq_some_iff.1 he
    rfl

theorem like (negated : Bool) {pattern : Expr} (h : Rereads d .sum e)
    (hp : Rereads d .sum pattern) : Rereads d .predicate (.like negated e pattern) := by
  refine of_predicate ?_ fun e' he => ?_
  · have hr := reads_like (negates_notTokens negated) keyword_like h.reads hp.reads
    rw [Expr.reread]
    simpa [Expr.pieces, Piece.word] using hr
  · rw [Expr.reread] at he
    obtain ⟨e₁, -, he⟩ := Option.bind_eq_some_iff.1 he
    obtain ⟨p', -, rfl⟩ := Option.map_eq_some_iff.1 he
    rfl

theorem date (s : String) : Rereads d .primary (.date s) := by
  refine of_isArithmetic rfl ?_
  rw [Expr.pieces, Expr.reread]
  cases d with
  | tsql _ => exact reads_text s
  | access => exact reads_date s

end Rereads

/-- What was read from a source is read again as `Expr.reread` says. -/
theorem rereads_of_derives (d : Dialect) {p : Tier} {ts : List Token} {e : Expr}
    (h : Derives p ts e) (ht : ∀ t ∈ ts, t.IsLexical) : Rereads d p e := by
  induction h with
  | tighter hn hd ih => exact .tighter hn (isSum_of_derives hd) (ih ht)
  | join hj hn _ _ ihl ihr =>
    exact .join hj hn (ihl fun t h => ht t (by simp [h])) (ihr fun t h => ht t (by simp [h]))
  | not _ _ ih => exact .not (ih fun t h => ht t (by simp [h]))
  | compare hc _ _ ihl ihr =>
    exact .compare hc (ihl fun t h => ht t (by simp [h])) (ihr fun t h => ht t (by simp [h]))
  | isNull _ _ _ hd ih =>
    exact .isNull _ (isSum_of_derives hd rfl) (ih fun t h => ht t (by simp [h]))
  | between _ _ _ _ _ _ ih ihl ihh =>
    exact .between _ (ih fun t h => ht t (by simp [h])) (ihl fun t h => ht t (by simp [h]))
      (ihh fun t h => ht t (by simp [h]))
  | inList _ _ _ hne _ ih ihs =>
    refine .inList _ (by simpa using hne) (ih fun t h => ht t (by simp [h])) fun e he => ?_
    obtain ⟨x, hx, rfl⟩ := List.mem_map.1 he
    exact (ihs x hx fun t h =>
      ht t (by simp [mem_commaJoined (List.mem_map_of_mem hx) h])).reads
  | like _ _ _ _ ih ihp =>
    exact .like _ (ih fun t h => ht t (by simp [h])) (ihp fun t h => ht t (by simp [h]))
  | neg hd ih =>
    have ht' := fun t h => ht t (List.mem_cons_of_mem _ h)
    exact .of_isArithmetic rfl (reads_negPieces hd (isLexical_of_derives hd ht') (ih ht').reads)
  | plus _ ih => exact ih fun t h => ht t (List.mem_cons_of_mem _ h)
  | number n =>
    refine .of_isArithmetic rfl ?_
    rw [Expr.pieces, Expr.reread]
    exact reads_number n
  | text s =>
    refine .of_isArithmetic rfl ?_
    rw [Expr.pieces, Expr.reread]
    exact reads_text s
  | date s => exact .date s
  | null _ =>
    refine .of_isArithmetic rfl ?_
    rw [Expr.pieces, Expr.reread]
    exact reads_null keyword_null
  | currentTimestamp _ => exact .of_isArithmetic rfl (reads_function .now (by simp))
  | column _ =>
    refine .of_isArithmetic rfl ?_
    rw [Expr.pieces, Expr.reread]
    exact reads_column (name?_nameToken _)
  | qualifiedColumn _ _ =>
    refine .of_isArithmetic rfl ?_
    rw [Expr.pieces, Expr.reread]
    exact reads_qualifiedColumn (name?_nameToken _) (name?_nameToken _)
  | nested _ ih =>
    refine .of_isArithmetic rfl ?_
    rw [Expr.reread]
    simpa [Expr.pieces] using reads_nested (ih fun t h => ht t (by simp [h])).reads
  | call _ hc ihs =>
    refine .of_isArithmetic rfl (reads_calls hc fun e he => ?_)
    obtain ⟨x, hx, rfl⟩ := List.mem_map.1 he
    have h := ihs x hx fun t h => ht t (by simp [mem_commaJoined (List.mem_map_of_mem hx) h])
    exact ⟨h.reads, h.tests rfl⟩

/-! ## Queries -/

/-- What the argument of an aggregate is read as when it has been written. -/
def Argument.reread (d : Dialect) : Argument → Option Argument
  | .star => some .star
  | .expr e => (e.reread d).map .expr

/-- What a table is read as when it has been written. -/
def Dialect.readTable : Dialect → TableName → TableName
  | tsql schema, t => ⟨some (t.schema.getD schema), t.name⟩
  | access, t => ⟨none, t.name⟩

/-- What a filter is read as when it has been written. -/
def rereadFilter (d : Dialect) : Option Expr → Option (Option Expr)
  | none => some none
  | some e => (e.reread d).map some

/-- What a query is read as when it has been written. -/
def Query.reread (d : Dialect) (q : Query) : Option Query :=
  (q.aggregate.argument.reread d).bind fun a =>
    (rereadFilter d q.filter).map fun w =>
      ⟨{ q.aggregate with argument := a }, d.readTable q.table, w⟩

section Queries

variable (d : Dialect)

theorem ofWord?_aggregateName (f : AggregateFunction) :
    AggregateFunction.ofWord? (d.aggregateName f) = some f := by
  have h : Text.upper (d.aggregateName f) = (Dialect.tsql "").aggregateName f :=
    Text.upper_eq (by cases d <;> cases f <;> simp only [Dialect.aggregateName] <;> decide)
  rw [AggregateFunction.ofWord?, h]
  cases f <;> rfl

theorem readsAggregate_pieces {ts : List Token} {a : Aggregate} (h : DerivesAggregate ts a)
    (ht : ∀ t ∈ ts, t.IsLexical) :
    ReadsAggregate (Piece.tokens (a.pieces d))
      ((a.argument.reread d).map fun arg => { a with argument := arg }) := by
  cases h with
  | star _ => exact readsAggregate_star (ofWord?_aggregateName d .count)
  | @expr _ f _ _ _ he =>
    have hr := (rereads_of_derives d he fun t h => ht t (by simp [h])).reads
    simpa [Aggregate.pieces, Argument.pieces, Argument.reread, Piece.word, Function.comp_def]
      using readsAggregate_expr (ofWord?_aggregateName d f) hr
  | @distinct _ f _ _ _ _ _ he =>
    have hr := (rereads_of_derives d he fun t h => ht t (by simp [h])).reads
    simpa [Aggregate.pieces, Argument.pieces, Argument.reread, Piece.word, Function.comp_def]
      using readsAggregate_distinct (ofWord?_aggregateName d f) keyword_distinct hr

theorem readsFilter_pieces {ts : List Token} {w : Option Expr} (h : DerivesFilter ts w)
    (ht : ∀ t ∈ ts, t.IsLexical) :
    ReadsFilter (Piece.tokens
      (match w with
      | none => []
      | some e => [.space, .word "WHERE", .space] ++ e.pieces d)) (rereadFilter d w) := by
  cases h with
  | none => exact readsFilter_none
  | where_ _ he =>
    have hr := (rereads_of_derives d he fun t h => ht t (by simp [h])).reads
    exact readsFilter_where keyword_where hr

theorem isHintList_nolock : IsHintList [.lparen, .word "NOLOCK", .rparen] := by
  have h : Text.upper "NOLOCK" = "NOLOCK" := Text.upper_eq rfl
  exact @IsHintList.mk [.word "NOLOCK"] (by simp) (by simp [Token.isLockHint, lockHints, h])

theorem isHints_nolock : IsHints [.word "WITH", .lparen, .word "NOLOCK", .rparen] :=
  .with_ keyword_with isHintList_nolock

/-- A table is written as a table with hints. -/
theorem tokens_tablePieces (t : TableName) : ∃ ns hs, Piece.tokens (d.tablePieces t) = ns ++ hs ∧
    DerivesTable ns (d.readTable t) ∧ IsHints hs := by
  cases d with
  | tsql schema =>
    exact ⟨[.quoted (t.schema.getD schema), .dot, .quoted t.name], _, rfl, .qualified rfl rfl,
      isHints_nolock⟩
  | access => exact ⟨[.quoted t.name], [], rfl, .bare rfl, .none⟩

theorem toOption_query_pieces {ts : List Token} {q : Query} (h : DerivesQuery ts q)
    (ht : ∀ t ∈ ts, t.IsLexical) {xs : List Lexeme} (hx : tokens xs = Piece.tokens (q.pieces d)) :
    (query xs).toOption = q.reread d := by
  cases h with
  | @mk f ss as ls ts hs ws a table filter hss has hls hf hns hhs hws =>
    obtain ⟨ns', hs', hts, hn, hh⟩ := tokens_tablePieces d table
    have hselect : IsSelect [.word "SELECT"] := .select keyword_select
    have hvalue : IsAlias [.word "AS", .word resultColumn] :=
      .named keyword_as (by rw [Token.name?_word (by decide)]; rfl)
    have hagg := readsAggregate_pieces d has fun t h => ht t (by simp [h])
    have hfilter := readsFilter_pieces d hws fun t h => ht t (by simp [h])
    rw [query_of_parts hselect hagg hvalue keyword_from hn hh hfilter]
    · unfold Query.reread
      cases a.argument.reread d <;> rfl
    · rw [hx]
      cases filter <;> simp [Query.pieces, hts, Piece.word]

/-- The grammar derives a query that was read from the tokens of its source. -/
theorem exists_tokenize_of_parse {source : String} {q : Query} (h : parse source = .ok q) :
    ∃ ls, tokenize source = .ok ls ∧ DerivesQuery (tokens ls) q := by
  cases ht : tokenize source with
  | error f =>
    rw [parse, parseFault, ht] at h
    contradiction
  | ok ls => exact ⟨ls, rfl, toOption_query_eq_some_iff.1 ((parse_eq_ok_iff_query ht).1 h)⟩

/-- A query that was read from a source has its tokens, and they are such as a source has. -/
theorem derivesQuery_of_parse {source : String} {q : Query} (h : parse source = .ok q) :
    ∃ ts, DerivesQuery ts q ∧ ∀ t ∈ ts, t.IsLexical := by
  obtain ⟨ls, hls, hq⟩ := exists_tokenize_of_parse h
  exact ⟨tokens ls, hq, isLexical_of_tokenize hls⟩

/-- The text of a query that was read from a source is split into the tokens it was written
with. -/
theorem tokenize_sql_of_parse {source sql : String} {q : Query} (h : parse source = .ok q)
    (hs : q.sql d = .ok sql) :
    ∃ ls, tokenize sql = .ok ls ∧ tokens ls = Piece.tokens (q.pieces d) := by
  obtain ⟨ts, hq, ht⟩ := derivesQuery_of_parse h
  exact tokenize_sql ((isLexical_of_derivesQuery hq ht).mono fun _ => .of_root) hs

/-- The text of a query is read as `Query.reread` says. -/
theorem parse_sql_eq_ok_iff {source sql : String} {q q' : Query} (h : parse source = .ok q)
    (hs : q.sql d = .ok sql) : parse sql = .ok q' ↔ q.reread d = some q' := by
  obtain ⟨ts, hq, ht⟩ := derivesQuery_of_parse h
  obtain ⟨ls, hls, hx⟩ := tokenize_sql_of_parse d h hs
  rw [parse_eq_ok_iff_query hls, toOption_query_pieces d hq ht hx]

end Queries

end MetricBoard.Expression
