import MetricBoard.Proofs.Expression.Meaning
import MetricBoard.Proofs.Expression.RoundTrip

/-!
# Rewriting keeps the meaning

A call is read as a tree in which a coalesce nests to the right, an IIF on a test for null has
become a coalesce, and signs are dropped; and a server is written other calls than were read. The
value stays what the call meant, and the text that is written means it too, but for one case: a test
for null is written behind its operand without parentheses, and the text means something else, or
nothing, exactly when some operand is not a sum (`calls_keep_their_meaning`).
-/

namespace MetricBoard.Expression

variable {d : Dialect}

/-! ## The value of a normal form -/

section Normal

variable {V : Type} {I : Interpretation V}

/-- An interpretation for the trees that a server is written: it is a date what the server takes in
its place. -/
def Interpretation.on (I : Interpretation V) (d : Dialect) : Interpretation V :=
  { I with date := fun s => (d.dateTree s).value I }

theorem Interpretation.call_on (I : Interpretation V) (f : Function) (vs : List (Option V)) :
    (I.on d).call f vs = I.call f vs := by
  unfold Interpretation.call
  rfl

theorem value_iifOf (test yes no : Expr) :
    (Expr.iifOf test yes no).value I = I.iif (test.value I) (yes.value I) (no.value I) := by
  by_cases h : IsNullTestOf test no
  · rw [iifOf_of_isNullTestOf h, value_isNullTestOf I h, I.iif_isNull]
    simp only [Expr.value, Expr.values, Interpretation.call]
  · rw [iifOf_of_not_isNullTestOf h]
    simp only [Expr.value, Expr.values, Interpretation.call]

theorem value_callTree (f : Function) (args : List Expr) :
    (d.callTree f args).value I = I.call f (args.map (Expr.value I)) := by
  unfold Dialect.callTree
  split
  · simp only [Expr.value, Expr.values]
    rfl
  · rw [value_iifOf]
    rfl
  · rw [Expr.value, Expr.values_eq_map]

mutual

/-- A normal form has the value of the tree. -/
theorem value_normal (I : Interpretation V) : ∀ e : Expr, (e.normal d).value I = e.value (I.on d)
  | .column _ | .number _ | .text _ | .date _ => by simp only [Expr.normal, Expr.value]; rfl
  | .null => by simp only [Expr.normal, Expr.value]
  | .call f args => by
    rw [Expr.normal, value_callTree, map_value_normalAll I args, Expr.value, Expr.values_eq_map,
      Interpretation.call_on]
  | .unary .neg e => by
    rw [Expr.normal, Expr.value, Expr.value, ← value_normal I e]
    split
    · rw [Expr.value]; rfl
    · rfl
  | .unary .not e => by rw [Expr.normal, Expr.value, Expr.value, value_normal I e]; rfl
  | .binary op l r => by
    rw [Expr.normal, Expr.value, Expr.value, value_normal I l, value_normal I r]; rfl
  | .isNull negated e => by rw [Expr.normal, Expr.value, Expr.value, value_normal I e]; rfl
  | .between negated e low high => by
    rw [Expr.normal, Expr.value, Expr.value, value_normal I e, value_normal I low,
      value_normal I high]
    rfl
  | .inList negated e items => by
    rw [Expr.normal, Expr.value, Expr.value, value_normal I e, Expr.values_eq_map,
      map_value_normalAll I items, Expr.values_eq_map]
    rfl
  | .like negated e pattern => by
    rw [Expr.normal, Expr.value, Expr.value, value_normal I e, value_normal I pattern]; rfl
  | .nested e => by rw [Expr.normal, Expr.value, Expr.value, value_normal I e]

theorem map_value_normalAll (I : Interpretation V) : ∀ es : List Expr,
    (Expr.normalAll d es).map (Expr.value I) = es.map (Expr.value (I.on d))
  | [] => by rw [Expr.normalAll, List.map_nil, List.map_nil]
  | e :: es => by
    rw [Expr.normalAll, List.map_cons, List.map_cons, value_normal I e, map_value_normalAll I es]

end

end Normal

/-! ## The text of an expression -/

/-- What is read of the text of an expression is derived from the tokens it was written with. -/
theorem derives_pieces_iff {ts : List Token} {e e' : Expr} (h : Derives .disjunction ts e)
    (ht : ∀ t ∈ ts, t.IsLexical) :
    Derives .disjunction (Piece.tokens (e.pieces d)) e' ↔ e.reread d = some e' := by
  have hr := (rereads_of_derives d h ht).reads
  refine ⟨fun he => hr.unique (reads_of_derives he), fun he => ?_⟩
  obtain ⟨xs, hx⟩ := exists_tokens_eq (Piece.tokens (e.pieces d))
  have hw := hr.whole hx fun _ _ => .nil _ _
  rw [he, List.append_nil] at hw
  obtain ⟨ys, hy, hd⟩ := derives_of_chain .disjunction hw
  rwa [← hx, hy, List.append_nil]

/-- The text that a server is written for an expression has tokens, and these mean the value of the
expression, whatever it is made of. -/
def Expr.KeepsMeaning (d : Dialect) (e : Expr) : Prop :=
  ∃ ls, tokenize (String.ofList (Piece.text (e.pieces d))) = .ok ls ∧
    ∀ (V : Type) (I : Interpretation V) (v : Option V),
      Means I .disjunction (tokens ls) v ↔ v = e.value (I.on d)

/-- An expression that can be read from a source keeps its meaning when it is written. -/
def Expr.Faithful (d : Dialect) (e : Expr) : Prop :=
  (∃ ts, Derives .disjunction ts e ∧ ∀ t ∈ ts, t.IsLexical) → e.KeepsMeaning d

theorem keepsMeaning_iff {ts : List Token} {e : Expr} (h : Derives .disjunction ts e)
    (ht : ∀ t ∈ ts, t.IsLexical) : e.KeepsMeaning d ↔
      ∀ (V : Type) (I : Interpretation V) (v : Option V),
        Means I .disjunction (Piece.tokens (e.pieces d)) v ↔ v = e.value (I.on d) := by
  obtain ⟨ls, hls, hp⟩ :=
    tokenize_text ((worded_pieces d ((isLexical_of_derives h ht).mono fun _ => .of_root)).separate
      (Or.inl rfl))
  rw [← hp]
  constructor
  · rintro ⟨ls', hls', hm⟩
    rw [hls] at hls'
    rwa [Except.ok.inj hls']
  · exact fun hm => ⟨ls, hls, hm⟩

/-- An expression whose tests for null test sums keeps its meaning. -/
theorem faithful_of_testsSum {e : Expr} (hs : e.Everywhere Expr.TestsSum) : e.Faithful d := by
  rintro ⟨ts, h, ht⟩
  refine (keepsMeaning_iff h ht).2 fun V I v => ?_
  rw [means_iff ((derives_pieces_iff h ht).2 (reread_of_testsSum hs)), value_normal]

/-! ## Tests of what is not a sum -/

/-- Every operator gives null. -/
def Interpretation.nullary : Interpretation Bool where
  column _ := none
  number _ := none
  text _ := none
  date _ := none
  truth := id
  isTrue v := v = some true
  isTrue_truth b := by cases b <;> rfl
  unary _ _ := none
  binary _ _ _ := none
  between _ _ _ _ := none
  inList _ _ _ := none
  like _ _ _ := none
  function _ _ := none

/-- A test for null that is written behind what is not a sum is none of it. -/
theorem value_nullary_of_test? {negated : Bool} {e e' : Expr} (h : e.test? negated = some e')
    (hs : e.isSum = false) : e'.value .nullary = none := by
  unfold Expr.test? at h
  split at h
  · obtain ⟨r, -, rfl⟩ := Option.map_eq_some_iff.1 h
    rw [Expr.value]; rfl
  · obtain ⟨r, -, rfl⟩ := Option.map_eq_some_iff.1 h
    rw [Expr.value]; rfl
  · obtain ⟨r, -, rfl⟩ := Option.map_eq_some_iff.1 h
    rw [Expr.value]; rfl
  · rw [hs] at h
    contradiction

/-- The text of a test for null does not mean the test if its operand is not a sum. -/
theorem isSum_of_keepsMeaning {ts : List Token} {e : Expr}
    (h : Derives .disjunction ts (.nested (.isNull false e))) (ht : ∀ t ∈ ts, t.IsLexical)
    (hk : (Expr.nested (.isNull false e)).KeepsMeaning d) : e.isSum = true := by
  by_contra hs
  have hm := ((keepsMeaning_iff h ht).1 hk Bool .nullary _).2 rfl
  obtain ⟨t, hd, hv⟩ := exists_derives_of_means hm
  have hr := (derives_pieces_iff h ht).1 hd
  rw [Expr.reread, Expr.reread] at hr
  obtain ⟨t', ht', rfl⟩ := Option.map_eq_some_iff.1 hr
  obtain ⟨e', he, htest⟩ := Option.bind_eq_some_iff.1 ht'
  have hs' : e'.isSum = false := (Expr.isSum_reread he).trans (by simpa using hs)
  rw [Expr.value, value_nullary_of_test? htest hs', Expr.value, Expr.value] at hv
  contradiction

theorem testsSum_of_coalesced {P : Expr → Prop} {args : List Expr} {e : Expr}
    (hc : Coalesced args e) (h : e.Everywhere P)
    (ha : ∀ a ∈ args, a.Everywhere P → a.Everywhere Expr.TestsSum) :
    e.Everywhere Expr.TestsSum := by
  induction hc with
  | pair a b => simp_all [Expr.TestsSum]
  | more a _ ih =>
    obtain ⟨ha, hrest⟩ := List.forall_mem_cons.1 ha
    exact ⟨trivial, ha h.2.1, ih h.2.2.1 hrest, trivial⟩

/-- The tree of a call tests sums if its arguments do, where they are part of it, and if it is not
itself a test of another operand. -/
theorem testsSum_of_calls {P : Expr → Prop} {w : String} {args : List Expr} {e : Expr}
    (hc : Calls w args e) (h : e.Everywhere P)
    (ha : ∀ a ∈ args, a.Everywhere P → a.Everywhere Expr.TestsSum)
    (hn : ∀ x, e = .nested (.isNull false x) → x.isSum = true) : e.Everywhere Expr.TestsSum := by
  cases hc with
  | coalesce _ hc => exact testsSum_of_coalesced hc h ha
  | nullTest x _ => exact ⟨trivial, hn x rfl, ha x (List.mem_singleton_self x) h.2.2⟩
  | _ => simp_all [Expr.TestsSum]

/-- If all of an expression keeps its meaning then its tests for null test sums. -/
theorem testsSum_of_faithful {p : Tier} {ts : List Token} {e : Expr} (h : Derives p ts e)
    (ht : ∀ t ∈ ts, t.IsLexical) (hf : e.Everywhere (Expr.Faithful d)) :
    e.Everywhere Expr.TestsSum := by
  induction h with
  | tighter _ _ ih => exact ih ht hf
  | join _ _ _ _ ihl ihr =>
    exact ⟨trivial, ihl (fun t h => ht t (by simp [h])) hf.2.1,
      ihr (fun t h => ht t (by simp [h])) hf.2.2⟩
  | not _ _ ih => exact ⟨trivial, ih (fun t h => ht t (by simp [h])) hf.2⟩
  | compare _ _ _ ihl ihr =>
    exact ⟨trivial, ihl (fun t h => ht t (by simp [h])) hf.2.1,
      ihr (fun t h => ht t (by simp [h])) hf.2.2⟩
  | isNull _ _ _ hd ih =>
    exact ⟨isSum_of_derives hd rfl, ih (fun t h => ht t (by simp [h])) hf.2⟩
  | between _ _ _ _ _ _ ih ihl ihh =>
    exact ⟨trivial, ih (fun t h => ht t (by simp [h])) hf.2.1,
      ihl (fun t h => ht t (by simp [h])) hf.2.2.1, ihh (fun t h => ht t (by simp [h])) hf.2.2.2⟩
  | inList _ _ _ _ _ ih ihs =>
    refine ⟨trivial, ih (fun t h => ht t (by simp [h])) hf.2.1, Expr.everywhereIn_iff.2 ?_⟩
    intro e he
    obtain ⟨x, hx, rfl⟩ := List.mem_map.1 he
    exact ihs x hx (fun t h => ht t (by simp [mem_commaJoined (List.mem_map_of_mem hx) h]))
      (Expr.everywhereIn_iff.1 hf.2.2 _ he)
  | like _ _ _ _ ih ihp =>
    exact ⟨trivial, ih (fun t h => ht t (by simp [h])) hf.2.1,
      ihp (fun t h => ht t (by simp [h])) hf.2.2⟩
  | neg _ ih => exact ⟨trivial, ih (fun t h => ht t (by simp [h])) hf.2⟩
  | plus _ ih => exact ih (fun t h => ht t (by simp [h])) hf
  | nested _ ih => exact ⟨trivial, ih (fun t h => ht t (by simp [h])) hf.2⟩
  | @call w items e hd hc ihs =>
    refine testsSum_of_calls hc hf (fun a ha hfa => ?_) fun x hx => ?_
    · obtain ⟨x, hx, rfl⟩ := List.mem_map.1 ha
      exact ihs x hx (fun t h => ht t (by simp [mem_commaJoined (List.mem_map_of_mem hx) h])) hfa
    · subst hx
      have hcall := (Derives.call hd hc).disjunction
      exact isSum_of_keepsMeaning hcall ht (hf.1 ⟨_, hcall, ht⟩)
  | _ => trivial

/-- All of an expression keeps its meaning if and only if its tests for null test sums. -/
theorem everywhere_faithful_iff {p : Tier} {ts : List Token} {e : Expr} (h : Derives p ts e)
    (ht : ∀ t ∈ ts, t.IsLexical) :
    e.Everywhere (Expr.Faithful d) ↔ e.Everywhere Expr.TestsSum :=
  ⟨testsSum_of_faithful h ht, fun hs => hs.deep.mono fun _ => faithful_of_testsSum⟩

/-! ## Queries -/

/-- The tokens of an expression of a query are some of the query's, one behind the other. -/
theorem exists_infix_of_argument {ts : List Token} {q : Query} {e : Expr} (h : DerivesQuery ts q)
    (he : q.aggregate.argument = .expr e) : ∃ us, us <:+: ts ∧ Derives .disjunction us e := by
  cases h with
  | @mk f ss as ls ts hs ws a table filter _ has _ _ _ _ _ =>
    cases has with
    | star _ => contradiction
    | @expr w _ us e' _ hd =>
      obtain rfl := Argument.expr.inj he
      exact ⟨us, ⟨ss ++ [.word w, .lparen], .rparen :: (ls ++ f :: (ts ++ (hs ++ ws))), by simp⟩,
        hd⟩
    | @distinct w _ t us e' _ _ hd =>
      obtain rfl := Argument.expr.inj he
      exact ⟨us, ⟨ss ++ [.word w, .lparen, t], .rparen :: (ls ++ f :: (ts ++ (hs ++ ws))),
        by simp⟩, hd⟩

theorem exists_infix_of_filter {ts : List Token} {q : Query} {e : Expr} (h : DerivesQuery ts q)
    (he : q.filter = some e) : ∃ us, us <:+: ts ∧ Derives .disjunction us e := by
  cases h with
  | @mk f ss as ls ts hs ws a table filter _ _ _ _ _ _ hws =>
    cases hws with
    | none => contradiction
    | @where_ t us e' _ hd =>
      obtain rfl := Option.some.inj he
      exact ⟨us, ⟨ss ++ as ++ ls ++ f :: ts ++ hs ++ [t], [], by simp⟩, hd⟩

/-- **Rewriting keeps the meaning**: whatever columns, operators and functions stand for, the tree
that is read of an expression of a source has the value that the expression means call by call. The
text that a server is written for each part of it means that value too, and means nothing else, if
and only if each test for null in it tests a sum. -/
theorem calls_keep_their_meaning {source : String} {q : Query} (h : parse source = .ok q) :
    ∃ ls, tokenize source = .ok ls ∧
      ∀ e, q.aggregate.argument = .expr e ∨ q.filter = some e →
        (∃ ts, ts <:+: tokens ls ∧ Derives .disjunction ts e ∧
          ∀ (V : Type) (I : Interpretation V) (v : Option V),
            Means I .disjunction ts v ↔ v = e.value I) ∧
        ∀ d : Dialect, e.Everywhere (Expr.Faithful d) ↔ e.Everywhere Expr.TestsSum := by
  obtain ⟨ls, hls, hq⟩ := exists_tokenize_of_parse h
  refine ⟨ls, hls, fun e he => ?_⟩
  obtain ⟨ts, hts, hd⟩ : ∃ ts, ts <:+: tokens ls ∧ Derives .disjunction ts e :=
    he.elim (exists_infix_of_argument hq) (exists_infix_of_filter hq)
  have ht : ∀ t ∈ ts, t.IsLexical := fun t h => isLexical_of_tokenize hls t (hts.subset h)
  exact ⟨⟨ts, hts, hd, fun V I v => means_iff hd⟩, fun d => everywhere_faithful_iff hd ht⟩

/-- Rounding means rounding to no places, and it is written so that it still does. -/
theorem calls_keep_their_meaning_round :
    parse "SUM(ROUND(a)) FROM t WHERE b > #2024-01-01#" =
      .ok ⟨⟨.sum, false, .expr (.call .round [.column ["a"]])⟩, ⟨none, "t"⟩,
        some (.binary .gt (.column ["b"]) (.date "2024-01-01"))⟩ ∧
    ∃ ls ts, tokenize "SUM(ROUND(a)) FROM t WHERE b > #2024-01-01#" = .ok ls ∧ ts <:+: tokens ls ∧
      (∀ (V : Type) (I : Interpretation V) (v : Option V),
        Means I .disjunction ts v ↔ v = I.function .round [I.column ["a"], I.number "0"]) ∧
      ∀ d : Dialect, (Expr.call .round [.column ["a"]]).Everywhere (Expr.Faithful d) := by
  obtain ⟨ls, hls, h⟩ := calls_keep_their_meaning parse_sum_round
  obtain ⟨⟨ts, hts, -, hm⟩, hf⟩ := h _ (.inl rfl)
  refine ⟨parse_sum_round, ls, ts, hls, hts, fun V I v => ?_, fun d =>
    (hf d).2 ⟨trivial, trivial, trivial⟩⟩
  rw [hm, Expr.value, Expr.values_eq_map]
  rfl

theorem parse_isNull_and : parse "COUNT(*) FROM t WHERE ISNULL(a AND b)" =
    .ok ⟨⟨.count, false, .star⟩, ⟨none, "t"⟩,
      some (.nested (.isNull false (.binary .and (.column ["a"]) (.column ["b"]))))⟩ := by
  have ht : tokenize "COUNT(*) FROM t WHERE ISNULL(a AND b)" = .ok [⟨.word "COUNT", 0⟩,
      ⟨.lparen, 5⟩, ⟨.star, 6⟩, ⟨.rparen, 7⟩, ⟨.word "FROM", 9⟩, ⟨.word "t", 14⟩,
      ⟨.word "WHERE", 16⟩, ⟨.word "ISNULL", 22⟩, ⟨.lparen, 28⟩, ⟨.word "a", 29⟩, ⟨.word "AND", 31⟩,
      ⟨.word "b", 35⟩, ⟨.rparen, 36⟩] := by
    rw [tokenize_eq_lexemesWithin]
    rfl
  have a := Derives.column (Token.name?_word (w := "a") (by decide))
  have b := Derives.column (Token.name?_word (w := "b") (by decide))
  have and := Derives.join (.and keyword_and) rfl (a.of_primary .conjunction)
    (b.of_primary .negation)
  have call := @Derives.call "ISNULL" [([.word "a", .word "AND", .word "b"], _)] _
    (by simpa using and.disjunction) (.nullTest _ (Text.upper_eq rfl))
  rw [parse_eq_ok_iff_query ht, toOption_query_eq_some_iff]
  exact .mk .none (.star (ofWord?_aggregateName (.tsql "") .count)) .none keyword_from
    (.bare (Token.name?_word (by decide))) .none
    (.where_ keyword_where (call.of_primary .disjunction))

/-- A conjunction is written before IS NULL as it stands, and its last operand is tested. -/
theorem isNull_and_changes_its_meaning :
    ∃ q e, parse "COUNT(*) FROM t WHERE ISNULL(a AND b)" = .ok q ∧ q.filter = some e ∧
      q.sql .access = .ok "SELECT Count(*) AS value FROM [t] WHERE (a AND b IS NULL)" ∧
      ¬ e.KeepsMeaning .access := by
  have hs : Query.sql .access ⟨⟨.count, false, .star⟩, ⟨none, "t"⟩,
      some (.nested (.isNull false (.binary .and (.column ["a"]) (.column ["b"]))))⟩ =
        .ok "SELECT Count(*) AS value FROM [t] WHERE (a AND b IS NULL)" := by
    have ha : nameToken "a" = .word "a" := nameToken_of_isWord rfl rfl rfl (by decide)
    have hb : nameToken "b" = .word "b" := nameToken_of_isWord rfl rfl rfl (by decide)
    simp only [Query.sql, Query.pieces, Aggregate.pieces, Argument.pieces, Expr.pieces,
      columnPieces, ha, hb]
    rfl
  refine ⟨_, _, parse_isNull_and, rfl, hs, fun hk => ?_⟩
  obtain ⟨ls, hls, hq⟩ := exists_tokenize_of_parse parse_isNull_and
  obtain ⟨ts, hts, hd⟩ := exists_infix_of_filter hq rfl
  have h := isSum_of_keepsMeaning hd (fun t h => isLexical_of_tokenize hls t (hts.subset h)) hk
  contradiction

end MetricBoard.Expression
