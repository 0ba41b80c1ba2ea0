import MetricBoard.Proofs.Expression.Productions

/-!
# The readers of the parts of a query

What the readers of an aggregate, an alias, a table, its hints and a filter do with the tokens of
such a part, whatever stands behind. `query_of_parts` puts the parts together.
-/

namespace MetricBoard.Expression

variable {ts : List Token} {o : Option Expr}

/-! ## Aggregates -/

theorem ofWord?_of_aggregate {w : String} {f : AggregateFunction}
    (h : AggregateFunction.ofWord? w = some f) : Keyword.ofWord? w = none := by
  revert h
  unfold Keyword.ofWord? AggregateFunction.ofWord?
  split
  case h_6 => rintro ⟨⟩
  all_goals
    rename_i hw
    rw [hw]
    exact fun _ => rfl

/-- Tokens that are read as an aggregate whatever stands behind them, or never. -/
def ReadsAggregate (ts : List Token) (o : Option Aggregate) : Prop :=
  ∀ xs rest : List Lexeme, tokens xs = ts →
    headKeyword? (xs ++ rest) = none ∧ (aggregate (xs ++ rest)).toOption = o.map fun a => (a, rest)

theorem readsAggregate_star {w : String} (hw : AggregateFunction.ofWord? w = some .count) :
    ReadsAggregate [.word w, .lparen, .star, .rparen] (some ⟨.count, false, .star⟩) := by
  intro xs rest hx
  obtain ⟨i, ys, rfl, hy⟩ := tokens_eq_cons_iff.1 hx
  obtain ⟨j, zs, rfl, hz⟩ := tokens_eq_cons_iff.1 hy
  obtain ⟨k, us, rfl, hu⟩ := tokens_eq_cons_iff.1 hz
  obtain ⟨m, vs, rfl, hv⟩ := tokens_eq_cons_iff.1 hu
  obtain rfl := tokens_eq_nil_iff.1 hv
  obtain ⟨h₁, h₂⟩ := eatKeyword_of_ne (k := .distinct)
    (show headKeyword? (⟨.star, k⟩ :: ⟨.rparen, m⟩ :: rest) ≠ _ by
      simp [headKeyword?, Token.keyword?])
  refine ⟨ofWord?_of_aggregate hw, ?_⟩
  simp only [List.cons_append, List.nil_append]
  rw [toOption_aggregate hw, after?_cons_self, Option.bind_some, h₁, h₂,
    toOption_argument_star, if_pos ⟨rfl, rfl⟩, Option.bind_some, after?_cons_self]
  rfl

theorem argument_of_reads (f : AggregateFunction) (distinct : Bool) (h : Reads .disjunction ts o)
    {xs : List Lexeme} (hx : tokens xs = ts) (i : Nat) (rest : List Lexeme) :
    (aggregate.argument f distinct (xs ++ ⟨.rparen, i⟩ :: rest)).toOption =
      o.map fun e => (.expr e, ⟨.rparen, i⟩ :: rest) := by
  have hs : ∀ j us, xs ++ ⟨.rparen, i⟩ :: rest ≠ ⟨.star, j⟩ :: us := by
    obtain ⟨t, us, rfl, ht⟩ := h.begins
    obtain ⟨j, ys, rfl, -⟩ := tokens_eq_cons_iff.1 hx
    have := ht.ne_mark.2
    simp [this]
  have hr : reading (chain .disjunction (xs ++ ⟨.rparen, i⟩ :: rest)) =
      o.map fun e => (e, ⟨.rparen, i⟩ :: rest) :=
    h.whole hx fun _ _ => follows_mark (.inl rfl) _ _ _ _
  rw [toOption_argument_of_ne f distinct hs, hr]
  cases o <;> rfl

theorem readsAggregate_expr {w : String} {f : AggregateFunction}
    (hw : AggregateFunction.ofWord? w = some f) (h : Reads .disjunction ts o) :
    ReadsAggregate (.word w :: .lparen :: (ts ++ [.rparen]))
      (o.map fun e => ⟨f, false, .expr e⟩) := by
  intro xs rest hx
  obtain ⟨i, ys, rfl, hy⟩ := tokens_eq_cons_iff.1 hx
  obtain ⟨j, zs, rfl, hz⟩ := tokens_eq_cons_iff.1 hy
  obtain ⟨us, vs, rfl, hu, hv⟩ := tokens_eq_append_iff.1 hz
  obtain ⟨k, ws, rfl, hws⟩ := tokens_eq_cons_iff.1 hv
  obtain rfl := tokens_eq_nil_iff.1 hws
  obtain ⟨h₁, h₂⟩ := eatKeyword_of_ne
    (show headKeyword? (us ++ ⟨.rparen, k⟩ :: rest) ≠ some .distinct from
      headKeyword?_append_ne (hu ▸ h.begins)
        fun t ht => ht.keyword?_ne (by simp) (by simp) (by simp))
  refine ⟨ofWord?_of_aggregate hw, ?_⟩
  simp only [List.cons_append, List.append_assoc, List.nil_append]
  rw [toOption_aggregate hw, after?_cons_self, Option.bind_some, h₁, h₂,
    argument_of_reads f false h hu]
  cases o with
  | none => rfl
  | some e =>
    rw [Option.map_some, Option.bind_some, after?_cons_self]
    rfl

theorem readsAggregate_distinct {w : String} {f : AggregateFunction} {d : Token}
    (hw : AggregateFunction.ofWord? w = some f) (hd : d.keyword? = some .distinct)
    (h : Reads .disjunction ts o) :
    ReadsAggregate (.word w :: .lparen :: d :: (ts ++ [.rparen]))
      (o.map fun e => ⟨f, true, .expr e⟩) := by
  intro xs rest hx
  obtain ⟨i, ys, rfl, hy⟩ := tokens_eq_cons_iff.1 hx
  obtain ⟨j, zs, rfl, hz⟩ := tokens_eq_cons_iff.1 hy
  obtain ⟨k, us, rfl, hu⟩ := tokens_eq_cons_iff.1 hz
  obtain ⟨as, vs, rfl, ha, hv⟩ := tokens_eq_append_iff.1 hu
  obtain ⟨m, ws, rfl, hws⟩ := tokens_eq_cons_iff.1 hv
  obtain rfl := tokens_eq_nil_iff.1 hws
  obtain ⟨h₁, h₂⟩ := eatKeyword_of_eq (t := ⟨d, k⟩) hd (as ++ ⟨.rparen, m⟩ :: rest)
  refine ⟨ofWord?_of_aggregate hw, ?_⟩
  simp only [List.cons_append, List.append_assoc, List.nil_append]
  rw [toOption_aggregate hw, after?_cons_self, Option.bind_some, h₁, h₂,
    argument_of_reads f true h ha]
  cases o with
  | none => rfl
  | some e =>
    rw [Option.map_some, Option.bind_some, after?_cons_self]
    rfl

/-! ## Aliases, tables and hints -/

theorem keyword?_of_name? {t : Token} (h : t.name?.isSome = true) : t.keyword? = none := by
  cases t with
  | word w =>
    cases hw : Keyword.ofWord? w with
    | none => exact hw
    | some k => simp [Token.name?, hw] at h
  | _ => rfl

theorem name?_of_keyword? {t : Token} {k : Keyword} (h : t.keyword? = some k) : t.name? = none := by
  obtain ⟨w, rfl⟩ := word_of_keyword? h
  have hw : Keyword.ofWord? w = some k := h
  simp [Token.name?, hw]

theorem dropAlias_of_isAlias {as : List Token} (h : IsAlias as) {xs : List Lexeme}
    (hx : tokens xs = as) {f : Lexeme} (hf : f.token.keyword? = some .from_) (rest : List Lexeme) :
    dropAlias (xs ++ f :: rest) = .ok (f :: rest) := by
  cases h with
  | none =>
    obtain rfl := tokens_eq_nil_iff.1 hx
    simp [dropAlias, headKeyword?, hf, name?_of_keyword? hf]
  | @bare t ht =>
    obtain ⟨o, ys, rfl, hy⟩ := tokens_eq_cons_iff.1 hx
    obtain rfl := tokens_eq_nil_iff.1 hy
    simp [dropAlias, headKeyword?, keyword?_of_name? ht, ht]
  | @named a t ha ht =>
    obtain ⟨o, ys, rfl, hy⟩ := tokens_eq_cons_iff.1 hx
    obtain ⟨o₁, zs, rfl, hz⟩ := tokens_eq_cons_iff.1 hy
    obtain rfl := tokens_eq_nil_iff.1 hz
    cases t with
    | text s => contradiction
    | _ => simp_all [dropAlias, headKeyword?]
  | @text a content ha =>
    obtain ⟨o, ys, rfl, hy⟩ := tokens_eq_cons_iff.1 hx
    obtain ⟨o₁, zs, rfl, hz⟩ := tokens_eq_cons_iff.1 hy
    obtain rfl := tokens_eq_nil_iff.1 hz
    simp [dropAlias, headKeyword?, ha]

theorem dropHints_of_hints {hs : List Token} (hne : hs ≠ [])
    (hall : ∀ h ∈ hs, h.isLockHint = true) {xs : List Lexeme}
    (hx : tokens xs = commaJoined (hs.map fun h => [h]) ++ [.rparen]) (rest : List Lexeme) :
    dropHints (xs ++ rest) = .ok rest := by
  induction hs generalizing xs with
  | nil => contradiction
  | cons h hs ih =>
    obtain ⟨hh, hall⟩ := List.forall_mem_cons.1 hall
    cases hs with
    | nil =>
      obtain ⟨o, ys, rfl, hy⟩ := tokens_eq_cons_iff.1 hx
      obtain ⟨o₁, zs, rfl, hz⟩ := tokens_eq_cons_iff.1 hy
      obtain rfl := tokens_eq_nil_iff.1 hz
      simp only [List.cons_append, List.nil_append, dropHints, hh, if_true]
      exact expect_eq_ok_iff.2 (after?_cons_self _ _ _)
    | cons h' hs =>
      obtain ⟨o, ys, rfl, hy⟩ := tokens_eq_cons_iff.1 hx
      obtain ⟨o₁, zs, rfl, hz⟩ := tokens_eq_cons_iff.1 hy
      simp only [List.cons_append, dropHints, hh, if_true]
      exact ih (by simp) hall hz

theorem dropTableHints_of_isHints {hs : List Token} (h : IsHints hs) {xs rest : List Lexeme}
    (hx : tokens xs = hs) (hw : headKeyword? rest ≠ some .with_)
    (hp : ∀ o us, rest ≠ ⟨.lparen, o⟩ :: us) : dropTableHints (xs ++ rest) = .ok rest := by
  cases h with
  | none =>
    obtain rfl := tokens_eq_nil_iff.1 hx
    unfold dropTableHints
    rw [List.nil_append, if_neg hw]
    split
    · exact absurd rfl (hp _ _)
    · rfl
  | legacy h =>
    cases h with
    | mk hne hall =>
      obtain ⟨o, ys, rfl, hy⟩ := tokens_eq_cons_iff.1 hx
      exact dropHints_of_hints hne hall hy rest
  | with_ ht h =>
    cases h with
    | mk hne hall =>
      obtain ⟨o, ys, rfl, hy⟩ := tokens_eq_cons_iff.1 hx
      obtain ⟨o₁, zs, rfl, hz⟩ := tokens_eq_cons_iff.1 hy
      rw [← toOption_eq_some_iff, List.cons_append, List.cons_append,
        toOption_dropTableHints_with (t := ⟨_, o⟩) ht, after?_cons_self, Option.bind_some,
        dropHints_of_hints hne hall hz]
      rfl

theorem table_of_derives {ts : List Token} {n : TableName} (h : DerivesTable ts n)
    {xs rest : List Lexeme} (hx : tokens xs = ts) (hd : ∀ o us, rest ≠ ⟨.dot, o⟩ :: us)
    (hc : table.opensCall rest = false) : (table (xs ++ rest)).toOption = some (n, rest) := by
  rw [toOption_table]
  cases h with
  | bare ht =>
    obtain ⟨o, ys, rfl, hy⟩ := tokens_eq_cons_iff.1 hx
    obtain rfl := tokens_eq_nil_iff.1 hy
    rw [List.cons_append, reading_dottedName (t := ⟨_, o⟩) ht, List.nil_append,
      reading_nameParts_of_ne _ _ hd]
    simp [hc, tableOf?]
  | qualified ht hu =>
    obtain ⟨o, ys, rfl, hy⟩ := tokens_eq_cons_iff.1 hx
    obtain ⟨o₁, zs, rfl, hz⟩ := tokens_eq_cons_iff.1 hy
    obtain ⟨o₂, us, rfl, hus⟩ := tokens_eq_cons_iff.1 hz
    obtain rfl := tokens_eq_nil_iff.1 hus
    rw [List.cons_append, reading_dottedName (t := ⟨_, o⟩) ht, List.cons_append, List.cons_append,
      List.nil_append, reading_nameParts_dot (t := ⟨_, o₂⟩) _ _ _ hu,
      reading_nameParts_of_ne _ _ hd]
    simp [hc, tableOf?]

/-! ## Filters -/

/-- Tokens that are read as a filter up to their end, or never. -/
def ReadsFilter (ts : List Token) (o : Option (Option Expr)) : Prop :=
  ∀ xs : List Lexeme, tokens xs = ts →
    (xs = [] ∨ headKeyword? xs = some .where_) ∧
      (filter xs).toOption = o.map fun w => (w, [])

theorem readsFilter_none : ReadsFilter [] (some none) := by
  intro xs hx
  obtain rfl := tokens_eq_nil_iff.1 hx
  exact ⟨.inl rfl, rfl⟩

theorem readsFilter_where {t : Token} (ht : t.keyword? = some .where_)
    (h : Reads .disjunction ts o) : ReadsFilter (t :: ts) (o.map some) := by
  intro xs hx
  obtain ⟨i, ys, rfl, hy⟩ := tokens_eq_cons_iff.1 hx
  have hr : reading (chain .disjunction (ys ++ [])) = o.map fun e => (e, []) :=
    h.whole hy fun _ _ => .nil _ _
  rw [List.append_nil] at hr
  refine ⟨.inr ht, ?_⟩
  rw [toOption_filter_where (t := ⟨t, i⟩) ht, hr]
  cases o <;> rfl

/-- Behind a table no further part of its name begins, nor a call. -/
theorem table_follow {hs : List Token} (hh : IsHints hs) {xs ys : List Lexeme}
    (hx : tokens xs = hs) (hy : ys = [] ∨ headKeyword? ys = some .where_) :
    (∀ o us, xs ++ ys ≠ ⟨.dot, o⟩ :: us) ∧ table.opensCall (xs ++ ys) = false := by
  cases hh with
  | none =>
    obtain rfl := tokens_eq_nil_iff.1 hx
    rcases hy with rfl | hk
    · simp [table.opensCall]
    · match ys with
      | [] => contradiction
      | ⟨t, o⟩ :: ys =>
        obtain ⟨v, rfl⟩ := word_of_keyword? (show t.keyword? = some .where_ from hk)
        simp [table.opensCall]
  | legacy h =>
    cases h with
    | @mk hs hne hall =>
      obtain ⟨h, hs, rfl⟩ := List.exists_cons_of_ne_nil hne
      obtain ⟨o, as, rfl, ha⟩ := tokens_eq_cons_iff.1 hx
      have ha' : ∃ vs, tokens as = h :: vs := by
        rw [ha]
        cases hs <;> exact ⟨_, rfl⟩
      obtain ⟨vs, hv⟩ := ha'
      obtain ⟨o₁, bs, rfl, -⟩ := tokens_eq_cons_iff.1 hv
      simp [table.opensCall, hall h List.mem_cons_self]
  | with_ ht h =>
    obtain ⟨o, as, rfl, -⟩ := tokens_eq_cons_iff.1 hx
    obtain ⟨v, rfl⟩ := word_of_keyword? ht
    simp [table.opensCall]

/-! ## Queries -/

theorem eatKeyword_of_isSelect {ss : List Token} (h : IsSelect ss) {xs rest : List Lexeme}
    (hx : tokens xs = ss) (hr : headKeyword? rest = none) :
    (eatKeyword .select (xs ++ rest)).2.1 = rest := by
  cases h with
  | none =>
    obtain rfl := tokens_eq_nil_iff.1 hx
    exact (eatKeyword_of_ne (by simp [hr])).2
  | select hk =>
    obtain ⟨o, ys, rfl, hy⟩ := tokens_eq_cons_iff.1 hx
    obtain rfl := tokens_eq_nil_iff.1 hy
    exact (eatKeyword_of_eq (t := ⟨_, o⟩) hk rest).2

/-- The parts of a query, one behind the other, are read as the query of what they are read as. -/
theorem query_of_parts {f : Token} {ss as ls ns hs ws : List Token} {oa : Option Aggregate}
    {n : TableName} {ow : Option (Option Expr)} (hss : IsSelect ss) (has : ReadsAggregate as oa)
    (hls : IsAlias ls) (hf : f.keyword? = some .from_) (hns : DerivesTable ns n) (hhs : IsHints hs)
    (hws : ReadsFilter ws ow) {xs : List Lexeme}
    (hx : tokens xs = ss ++ (as ++ (ls ++ f :: (ns ++ (hs ++ ws))))) :
    (query xs).toOption = oa.bind fun a => ow.map fun w => ⟨a, n, w⟩ := by
  obtain ⟨ss', r₁, rfl, hs', hr₁⟩ := tokens_eq_append_iff.1 hx
  obtain ⟨as', r₂, rfl, ha', hr₂⟩ := tokens_eq_append_iff.1 hr₁
  obtain ⟨ls', r₃, rfl, hl', hr₃⟩ := tokens_eq_append_iff.1 hr₂
  obtain ⟨i, r₄, rfl, hr₄⟩ := tokens_eq_cons_iff.1 hr₃
  obtain ⟨ns', r₅, rfl, hn', hr₅⟩ := tokens_eq_append_iff.1 hr₄
  obtain ⟨hs'', ws', rfl, hh', hw'⟩ := tokens_eq_append_iff.1 hr₅
  obtain ⟨hwhere, hfilter⟩ := hws ws' hw'
  obtain ⟨hdot, hcall⟩ := table_follow hhs hh' hwhere
  have hhints : dropTableHints (hs'' ++ ws') = .ok ws' := by
    refine dropTableHints_of_isHints hhs hh' ?_ ?_ <;> rcases hwhere with rfl | hk
    · simp [headKeyword?]
    · simp [hk]
    · simp
    · rintro j us rfl
      contradiction
  obtain ⟨hhead, hagg⟩ := has as' (ls' ++ ⟨f, i⟩ :: (ns' ++ (hs'' ++ ws'))) ha'
  rw [toOption_query, eatKeyword_of_isSelect hss hs' hhead, hagg]
  cases oa with
  | none => rfl
  | some a =>
    rw [Option.map_some, Option.bind_some, dropAlias_of_isAlias hls hl' (f := ⟨f, i⟩) hf,
      toOption_eq_some_iff.2 rfl, Option.bind_some, afterKeyword?_cons (t := ⟨f, i⟩) hf,
      Option.bind_some, table_of_derives hns hn' hdot hcall, Option.bind_some, hhints,
      toOption_eq_some_iff.2 rfl, Option.bind_some, hfilter]
    cases ow <;> rfl

end MetricBoard.Expression
