import MetricBoard.Proofs.Expression.Follow

/-!
# The readers, one production at a time

`Reads p ts o` says that tokens `ts` decide what the reader of a tier does, whatever stands behind
them: it gives the tree in `o` and leaves what stands behind, if it may stop there (`Follows`), and
it fails if `o` is none. On a level with operators more is said, because a joined expression is the
left operand of a longer one: the reader goes on from its tree as it goes on from any left operand.

There is one lemma for each production of the grammar, with the results for its parts and the
result for the whole. A part that cannot be read makes the whole unreadable, so the lemmas serve
for tokens that are in the grammar as well as for tokens that are not.
-/

namespace MetricBoard.Expression

/-! ## The reader of a tier -/

/-- What the reader of a tier gives. -/
def Tier.read : Tier → List Lexeme → Option (Expr × List Lexeme)
  | disjunction, ts => reading (chain .disjunction ts)
  | conjunction, ts => reading (chain .conjunction ts)
  | negation, ts => reading (Expression.negation ts)
  | predicate, ts => reading (Expression.predicate ts)
  | sum, ts => reading (chain .sum ts)
  | product, ts => reading (chain .product ts)
  | signed, ts => reading (Expression.signed ts)
  | primary, ts => reading (Expression.primary ts)

theorem Level.read_tier (l : Level) (ts : List Lexeme) : l.tier.read ts = reading (chain l ts) := by
  cases l <;> rfl

theorem Level.read_operandTier (l : Level) (ts : List Lexeme) :
    l.operandTier.read ts = reading (operand l ts) := by
  cases l <;> simp [Tier.read, Level.operandTier]

/-- The reader of a tier takes some tokens as a tree and stops behind them where it may, or it
fails on them. -/
structure Reads (p : Tier) (ts : List Token) (o : Option Expr) : Prop where
  begins : BeginsAs p ts
  whole {xs rest : List Lexeme} : tokens xs = ts → (∀ e, o = some e → Follows p e rest) →
    p.read (xs ++ rest) = o.map fun e => (e, rest)
  left (l : Level) : p = l.tier → ∀ {xs rest : List Lexeme}, tokens xs = ts →
    (∀ e, o = some e → Follows l.operandTier e rest) →
      reading (chain l (xs ++ rest)) = o.bind fun e => reading (chainTail l e rest)

theorem chainTail_of_follows {l : Level} {e : Expr} {rest : List Lexeme}
    (h : Follows l.tier e rest) (left : Expr) :
    reading (chainTail l left rest) = some (left, rest) := by
  match rest with
  | [] => exact reading_chainTail_nil l left
  | t :: us => exact reading_chainTail_of_none (h.operator l (Nat.le_refl _) t rfl) left us

theorem Reads.of_left {l : Level} {ts : List Token} {o : Option Expr} (hb : BeginsAs l.tier ts)
    (h : ∀ {xs rest : List Lexeme}, tokens xs = ts →
      (∀ e, o = some e → Follows l.operandTier e rest) →
        reading (chain l (xs ++ rest)) = o.bind fun e => reading (chainTail l e rest)) :
    Reads l.tier ts o := by
  refine ⟨hb, fun {xs rest} hx hf => ?_, fun l' hl => ?_⟩
  · rw [l.read_tier, h hx fun e he => (hf e he).of_next? l.next?_tier]
    cases o with
    | none => rfl
    | some e => exact chainTail_of_follows (hf e rfl) e
  · obtain rfl : l = l' := by cases l <;> cases l' <;> first | rfl | contradiction
    exact h

theorem Reads.of_whole {p : Tier} {ts : List Token} {o : Option Expr} (hp : ∀ l : Level, p ≠ l.tier)
    (hb : BeginsAs p ts)
    (h : ∀ {xs rest : List Lexeme}, tokens xs = ts → (∀ e, o = some e → Follows p e rest) →
      p.read (xs ++ rest) = o.map fun e => (e, rest)) : Reads p ts o :=
  ⟨hb, h, fun l hl => absurd hl (hp l)⟩

/-- What is read of some tokens does not depend on how it is shown. -/
theorem Reads.unique {p : Tier} {ts : List Token} {o o' : Option Expr} (h : Reads p ts o)
    (h' : Reads p ts o') : o = o' := by
  obtain ⟨xs, hx⟩ := exists_tokens_eq ts
  have hr := (h.whole hx fun _ _ => .nil _ _).symm.trans (h'.whole hx fun _ _ => .nil _ _)
  cases o <;> cases o' <;> simp_all

theorem tokens_eq_append_iff {xs : List Lexeme} {ts us : List Token} :
    tokens xs = ts ++ us ↔ ∃ ys zs, xs = ys ++ zs ∧ tokens ys = ts ∧ tokens zs = us :=
  List.map_eq_append_iff

theorem tokens_eq_cons_iff {xs : List Lexeme} {t : Token} {ts : List Token} :
    tokens xs = t :: ts ↔ ∃ o ys, xs = ⟨t, o⟩ :: ys ∧ tokens ys = ts := by
  rw [tokens, List.map_eq_cons_iff]
  constructor
  · rintro ⟨⟨t', o⟩, ys, rfl, rfl, h⟩
    exact ⟨o, ys, rfl, h⟩
  · rintro ⟨o, ys, rfl, h⟩
    exact ⟨⟨t, o⟩, ys, rfl, rfl, h⟩

theorem tokens_eq_nil_iff {xs : List Lexeme} : tokens xs = [] ↔ xs = [] := List.map_eq_nil_iff

theorem headKeyword?_append_ne {p : Tier} {xs rest : List Lexeme} (h : BeginsAs p (tokens xs))
    {k : Keyword} (hk : ∀ t, Opens p t → t.keyword? ≠ some k) :
    headKeyword? (xs ++ rest) ≠ some k := by
  obtain ⟨t, us, hx, ht⟩ := h
  obtain ⟨o, ys, rfl, -⟩ := tokens_eq_cons_iff.1 hx
  exact hk t ht

/-! ## Levels -/

variable {ts us : List Token} {o o₁ o₂ : Option Expr}

theorem endsInPredicate_of_joins {level : Level} {t : Token} {op : BinaryOp}
    (hj : Joins level.tier t op) (hl : level.operandTier.isArithmetic = false) (l r : Expr) :
    (Expr.binary op l r).endsInPredicate = r.endsInPredicate := by
  cases level with
  | disjunction => cases hj; rfl
  | conjunction => cases hj; rfl
  | sum => contradiction
  | product => contradiction

theorem Follows.right_of_joins {level : Level} {t : Token} {op : BinaryOp}
    (hj : Joins level.tier t op) {l r : Expr} {rest : List Lexeme}
    (hf : Follows level.operandTier (.binary op l r) rest) : Follows level.operandTier r rest := by
  cases ha : level.operandTier.isArithmetic with
  | true => exact hf.of_isArithmetic ha
  | false => exact hf.of_endsInPredicate (endsInPredicate_of_joins hj ha l r).symm

theorem reads_join (level : Level) {t : Token} {op : BinaryOp} (hj : Joins level.tier t op)
    (hl : Reads level.tier ts o₁) (hr : Reads level.operandTier us o₂) :
    Reads level.tier (ts ++ t :: us) (o₁.bind fun l => o₂.map fun r => .binary op l r) := by
  refine .of_left (hl.begins.append _) fun {xs rest} hx hf => ?_
  obtain ⟨ys, vs, rfl, hy, hv⟩ := tokens_eq_append_iff.1 hx
  obtain ⟨o, zs, rfl, hz⟩ := tokens_eq_cons_iff.1 hv
  rw [List.append_assoc, List.cons_append, hl.left level rfl hy fun l _ => follows_operator hj l _]
  cases o₁ with
  | none => rfl
  | some l =>
    have hr' : reading (operand level (zs ++ rest)) = o₂.map fun r => (r, rest) := by
      rw [← level.read_operandTier]
      exact hr.whole hz fun r h => (hf (.binary op l r) (by rw [h]; rfl)).right_of_joins hj
    rw [Option.bind_some, reading_chainTail_of_some (level.operator?_of_joins hj), hr']
    cases o₂ <;> rfl

theorem reads_level (level : Level) (h : Reads level.operandTier ts o) : Reads level.tier ts o := by
  refine .of_left (h.begins.of_next? level.next?_tier) fun {xs rest} hx hf => ?_
  rw [reading_chain, ← level.read_operandTier, h.whole hx hf]
  cases o <;> rfl

/-! ## Negations -/

theorem negation_of_headKeyword?_ne {xs : List Lexeme} (h : headKeyword? xs ≠ some .not) :
    negation xs = predicate xs := by
  match xs with
  | [] => exact negation_nil
  | t :: us => exact negation_of_ne h us

theorem reads_not {t : Token} (hk : t.keyword? = some .not) (h : Reads .negation ts o) :
    Reads .negation (t :: ts) (o.map (.unary .not)) := by
  refine .of_whole (by rintro ⟨⟩ <;> simp [Level.tier]) ⟨t, ts, rfl, Or.inr (.inr ⟨rfl, hk⟩)⟩
    fun {xs rest} hx hf => ?_
  obtain ⟨i, ys, rfl, hy⟩ := tokens_eq_cons_iff.1 hx
  have hr : reading (negation (ys ++ rest)) = o.map fun e => (e, rest) :=
    h.whole hy fun e he => (hf (.unary .not e) (by rw [he]; rfl)).of_endsInPredicate rfl
  show reading (negation (⟨t, i⟩ :: (ys ++ rest))) = _
  rw [reading_negation_of_not (t := ⟨t, i⟩) hk, hr]
  cases o <;> rfl

theorem reads_negation (h : Reads .predicate ts o) : Reads .negation ts o := by
  refine .of_whole (by rintro ⟨⟩ <;> simp [Level.tier]) (h.begins.of_next? rfl)
    fun {xs rest} hx hf => ?_
  have hn : headKeyword? (xs ++ rest) ≠ some .not :=
    headKeyword?_append_ne (hx ▸ h.begins) fun t ht => ht.keyword?_ne_not rfl
  show reading (negation (xs ++ rest)) = _
  rw [negation_of_headKeyword?_ne hn]
  exact h.whole hx fun e he => (hf e he).of_next? rfl

/-! ## Predicates -/

theorem predicateTail_of_goesOnPredicate {rest : List Lexeme} (h : goesOnPredicate rest = false)
    (left : Expr) : reading (predicateTail left rest) = some (left, rest) := by
  match rest with
  | [] => exact reading_predicateTail_nil left
  | t :: us =>
    simp only [goesOnPredicate, Bool.or_eq_false_iff, Option.isSome_eq_false_iff,
      Option.isNone_iff_eq_none, beq_eq_false_iff_ne, Bool.and_eq_false_imp, beq_iff_eq] at h
    obtain ⟨⟨⟨hc, hi⟩, hr⟩, hn⟩ := h
    by_cases hk : t.token.keyword? = some .not
    · exact reading_predicateTail_not_of_not hc hk (hn hk) left
    · rw [predicateTail_of_ne hc hi hk, reading_rangeTail_of_ne hr]

theorem reads_predicate (he : ∀ e, o = some e → e.endsInPredicate = false) (h : Reads .sum ts o) :
    Reads .predicate ts o := by
  refine .of_whole (by rintro ⟨⟩ <;> simp [Level.tier]) (h.begins.of_next? rfl)
    fun {xs rest} hx hf => ?_
  have hl : reading (chain .sum (xs ++ rest)) = o.map fun e => (e, rest) :=
    h.whole hx fun e he => (hf e he).of_next? rfl
  show reading (predicate (xs ++ rest)) = _
  rw [reading_predicate, hl]
  cases o with
  | none => rfl
  | some e => exact predicateTail_of_goesOnPredicate ((hf e rfl).predicate (by decide) (he e rfl)) e

/-- A predicate is read by what stands behind its first sum. -/
theorem reads_predicate_append {vs : List Token} (h : Reads .sum ts o₁)
    (hv : ∀ zs rest l, o₁ = some l → tokens zs = vs →
      (∀ e, o = some e → Follows .predicate e rest) → Follows .sum l (zs ++ rest) ∧
        reading (predicateTail l (zs ++ rest)) = o.map fun e => (e, rest))
    (ho : o₁ = none → o = none) : Reads .predicate (ts ++ vs) o := by
  refine .of_whole (by rintro ⟨⟩ <;> simp [Level.tier]) ((h.begins.append _).of_next? rfl)
    fun {xs rest} hx hf => ?_
  obtain ⟨ys, zs, rfl, hy, hz⟩ := tokens_eq_append_iff.1 hx
  have hl : reading (chain .sum (ys ++ (zs ++ rest))) = o₁.map fun l => (l, zs ++ rest) :=
    h.whole hy fun l hl => (hv zs rest l hl hz hf).1
  show reading (predicate (ys ++ zs ++ rest)) = _
  rw [reading_predicate, List.append_assoc, hl]
  cases o₁ with
  | none => rw [ho rfl]; rfl
  | some l => exact (hv zs rest l rfl hz hf).2

theorem reads_compare {t : Token} {op : BinaryOp} (hc : Compares t op) (hl : Reads .sum ts o₁)
    (hr : Reads .sum us o₂) :
    Reads .predicate (ts ++ t :: us) (o₁.bind fun l => o₂.map fun r => .binary op l r) := by
  refine reads_predicate_append hl (fun zs rest l ho₁ hz hf => ?_) (fun h => by rw [h]; rfl)
  obtain ⟨i, ys, rfl, hy⟩ := tokens_eq_cons_iff.1 hz
  refine ⟨follows_comparison (t := ⟨t, i⟩) hc l _, ?_⟩
  have hr : reading (chain .sum (ys ++ rest)) = o₂.map fun r => (r, rest) :=
    hr.whole hy fun r h => (hf (.binary op l r) (by rw [ho₁, h]; rfl)).sum_of_predicate
  rw [List.cons_append, reading_predicateTail_of_comparison (comparison?_of_compares hc), hr, ho₁]
  cases o₂ <;> rfl

theorem eatKeyword_of_negates {negated : Bool} {ns : List Token} (h : Negates negated ns)
    {xs rest : List Lexeme} (hx : tokens xs = ns) (hr : headKeyword? rest ≠ some .not) :
    (eatKeyword .not (xs ++ rest)).1 = negated ∧ (eatKeyword .not (xs ++ rest)).2.1 = rest := by
  cases h with
  | plain =>
    obtain rfl := tokens_eq_nil_iff.1 hx
    exact eatKeyword_of_ne hr
  | not hk =>
    obtain ⟨i, ys, rfl, hy⟩ := tokens_eq_cons_iff.1 hx
    obtain rfl := tokens_eq_nil_iff.1 hy
    exact eatKeyword_of_eq (t := ⟨_, i⟩) hk rest

theorem reads_isNull {is null : Token} {negated : Bool} {ns : List Token}
    (hi : is.keyword? = some .is) (hneg : Negates negated ns) (hnull : null.keyword? = some .null)
    (h : Reads .sum ts o) :
    Reads .predicate (ts ++ is :: (ns ++ [null])) (o.map (.isNull negated)) := by
  refine reads_predicate_append h (fun zs rest l ho hz hf => ?_) (fun h => by rw [h]; rfl)
  obtain ⟨i, ys, rfl, hy⟩ := tokens_eq_cons_iff.1 hz
  obtain ⟨as, bs, rfl, ha, hb⟩ := tokens_eq_append_iff.1 hy
  obtain ⟨j, cs, rfl, hc⟩ := tokens_eq_cons_iff.1 hb
  obtain rfl := tokens_eq_nil_iff.1 hc
  refine ⟨follows_of_keyword (t := ⟨is, i⟩) hi (by simp) (by simp) (by simp)
    fun hp => absurd hp (by decide), ?_⟩
  have hn : headKeyword? (⟨null, j⟩ :: rest) ≠ some .not := by simp [headKeyword?, hnull]
  obtain ⟨h₁, h₂⟩ := eatKeyword_of_negates hneg ha hn
  rw [List.cons_append, List.append_assoc, List.singleton_append,
    reading_predicateTail_is (comparison?_of_keyword? hi) hi, h₁, h₂,
    afterKeyword?_cons (t := ⟨null, j⟩) hnull, ho]
  rfl

/-- BETWEEN, IN and LIKE, behind NOT or not. -/
theorem reads_range {t : Token} {k : Keyword} {negated : Bool} {ns vs : List Token}
    (hneg : Negates negated ns) (hk : t.keyword? = some k) (hr : k ∈ [.between, .in_, .like])
    (h : Reads .sum ts o₁) (ho : o₁ = none → o = none)
    (hv : ∀ i {ys rest : List Lexeme} l, o₁ = some l → tokens ys = vs →
      (∀ e, o = some e → Follows .predicate e rest) →
        reading (rangeTail negated l (⟨t, i⟩ :: (ys ++ rest))) = o.map fun e => (e, rest)) :
    Reads .predicate (ts ++ (ns ++ t :: vs)) o := by
  refine reads_predicate_append h (fun zs rest l ho₁ hz hf => ?_) ho
  obtain ⟨as, bs, rfl, ha, hb⟩ := tokens_eq_append_iff.1 hz
  obtain ⟨i, ys, rfl, hy⟩ := tokens_eq_cons_iff.1 hb
  simp only [List.mem_cons, List.not_mem_nil, or_false] at hr
  have hs : startsRange (⟨t, i⟩ :: (ys ++ rest)) = true := by
    rcases hr with rfl | rfl | rfl <;> simp [startsRange, headKeyword?, hk]
  cases hneg with
  | plain =>
    obtain rfl := tokens_eq_nil_iff.1 ha
    have hi : t.keyword? ≠ some .is := by rcases hr with rfl | rfl | rfl <;> simp [hk]
    have hn : t.keyword? ≠ some .not := by rcases hr with rfl | rfl | rfl <;> simp [hk]
    refine ⟨follows_of_keyword (t := ⟨t, i⟩) hk ?_ ?_ ?_ fun hp => absurd hp (by decide), ?_⟩
    · rcases hr with rfl | rfl | rfl <;> simp
    · rcases hr with rfl | rfl | rfl <;> simp
    · rcases hr with rfl | rfl | rfl <;> simp
    · rw [List.nil_append, List.cons_append,
        predicateTail_of_ne (comparison?_of_keyword? hk) hi hn]
      exact hv i l ho₁ hy hf
  | not hnot =>
    obtain ⟨j, cs, rfl, hc⟩ := tokens_eq_cons_iff.1 ha
    obtain rfl := tokens_eq_nil_iff.1 hc
    refine ⟨follows_of_keyword (t := ⟨_, j⟩) hnot (by simp) (by simp) (by simp)
      fun hp => absurd hp (by decide), ?_⟩
    rw [List.append_assoc, List.singleton_append, List.cons_append,
      reading_predicateTail_not (comparison?_of_keyword? hnot) hnot hs]
    exact hv i l ho₁ hy hf

theorem reads_between {b a : Token} {negated : Bool} {ns ls hs : List Token} {ol oh : Option Expr}
    (hneg : Negates negated ns) (hb : b.keyword? = some .between) (ha : a.keyword? = some .and)
    (h : Reads .sum ts o) (hlow : Reads .sum ls ol) (hhigh : Reads .sum hs oh) :
    Reads .predicate (ts ++ (ns ++ b :: (ls ++ a :: hs)))
      (o.bind fun e => ol.bind fun low => oh.map fun high => .between negated e low high) := by
  refine reads_range hneg hb (by simp) h (fun h => by rw [h]; rfl) fun i ys rest e ho hy hf => ?_
  obtain ⟨as, bs, rfl, hal, hbs⟩ := tokens_eq_append_iff.1 hy
  obtain ⟨j, cs, rfl, hc⟩ := tokens_eq_cons_iff.1 hbs
  have hl : reading (chain .sum (as ++ ⟨a, j⟩ :: (cs ++ rest))) =
      ol.map fun low => (low, ⟨a, j⟩ :: (cs ++ rest)) :=
    hlow.whole hal fun _ _ => follows_of_keyword (t := ⟨a, j⟩) ha (by simp) (fun _ => by decide)
      (by simp) fun hp => absurd hp (by decide)
  rw [List.append_assoc, List.cons_append, reading_rangeTail_between hb, hl, ho]
  cases ol with
  | none => rfl
  | some low =>
    have hr : reading (chain .sum (cs ++ rest)) = oh.map fun high => (high, rest) :=
      hhigh.whole hc fun high hh =>
        (hf (.between negated e low high) (by rw [ho, hh]; rfl)).sum_of_predicate
    rw [Option.map_some, Option.bind_some, afterKeyword?_cons (t := ⟨a, j⟩) ha, Option.bind_some,
      hr]
    cases oh <;> rfl

theorem reads_like {k : Token} {negated : Bool} {ns : List Token}
    (hneg : Negates negated ns) (hk : k.keyword? = some .like) (h : Reads .sum ts o₁)
    (hp : Reads .sum us o₂) :
    Reads .predicate (ts ++ (ns ++ k :: us))
      (o₁.bind fun e => o₂.map fun pattern => .like negated e pattern) := by
  refine reads_range hneg hk (by simp) h (fun h => by rw [h]; rfl) fun i ys rest e ho hy hf => ?_
  have hr : reading (chain .sum (ys ++ rest)) = o₂.map fun pattern => (pattern, rest) :=
    hp.whole hy fun pattern hp =>
      (hf (.like negated e pattern) (by rw [ho, hp]; rfl)).sum_of_predicate
  rw [reading_rangeTail_like hk, hr, ho]
  cases o₂ <;> rfl

/-! ## Lists -/

/-- Rows of tokens that are read as expressions, unless one of them cannot be read. -/
inductive ReadsAll : List (List Token) → Option (List Expr) → Prop
  | nil : ReadsAll [] (some [])
  | cons {ts : List Token} {tss : List (List Token)} {o : Option Expr} {os : Option (List Expr)} :
    Reads .disjunction ts o → ReadsAll tss os →
      ReadsAll (ts :: tss) (o.bind fun e => os.map fun es => e :: es)

/-- Expressions with commas between them, up to a closing parenthesis. -/
theorem ReadsAll.reading_expressions {tss : List (List Token)} {os : Option (List Expr)}
    (h : ReadsAll tss os) (hne : tss ≠ []) {xs rest : List Lexeme} (i : Nat)
    (hx : tokens xs = commaJoined tss) :
    reading (expressions (xs ++ ⟨.rparen, i⟩ :: rest)) =
      os.map fun es => (es, ⟨.rparen, i⟩ :: rest) := by
  induction h generalizing xs with
  | nil => contradiction
  | @cons ts tss o os hhead htail ih =>
    cases tss with
    | nil =>
      cases htail
      have hr : reading (chain .disjunction (xs ++ ⟨.rparen, i⟩ :: rest)) =
          o.map fun e => (e, ⟨.rparen, i⟩ :: rest) :=
        hhead.whole hx fun _ _ => follows_mark (.inl rfl) _ _ _ _
      rw [Expression.reading_expressions, hr]
      cases o with
      | none => rfl
      | some e =>
        rw [Option.map_some, Option.bind_some, reading_moreExpressions_of_ne (by simp)]
        rfl
    | cons ts' tss =>
      obtain ⟨as, bs, rfl, ha, hb⟩ := tokens_eq_append_iff.1 hx
      obtain ⟨j, cs, rfl, hc⟩ := tokens_eq_cons_iff.1 hb
      have hr : reading (chain .disjunction (as ++ ⟨.comma, j⟩ :: (cs ++ ⟨.rparen, i⟩ :: rest))) =
          o.map fun e => (e, ⟨.comma, j⟩ :: (cs ++ ⟨.rparen, i⟩ :: rest)) :=
        hhead.whole ha fun _ _ => follows_mark (.inr rfl) _ _ _ _
      rw [List.append_assoc, List.cons_append, Expression.reading_expressions, hr]
      cases o with
      | none => rfl
      | some e =>
        rw [Option.map_some, Option.bind_some, reading_moreExpressions_comma, ih (by simp) hc]
        cases os <;> rfl

theorem ReadsAll.beginsAs {tss : List (List Token)} {os : Option (List Expr)}
    (h : ReadsAll tss os) (hne : tss ≠ []) : BeginsAs .disjunction (commaJoined tss) := by
  cases h with
  | nil => contradiction
  | @cons ts tss o os hhead htail =>
    cases tss with
    | nil => exact hhead.begins
    | cons ts' tss => exact hhead.begins.append _

theorem reads_inList {t : Token} {negated : Bool} {ns : List Token} {tss : List (List Token)}
    {os : Option (List Expr)} (hneg : Negates negated ns) (ht : t.keyword? = some .in_)
    (h : Reads .sum ts o) (hne : tss ≠ []) (hitems : ReadsAll tss os) :
    Reads .predicate (ts ++ (ns ++ t :: .lparen :: (commaJoined tss ++ [.rparen])))
      (o.bind fun e => os.map fun es => .inList negated e es) := by
  refine reads_range hneg ht (by simp) h (fun h => by rw [h]; rfl) fun i ys rest e ho hy hf => ?_
  obtain ⟨j, as, rfl, ha⟩ := tokens_eq_cons_iff.1 hy
  obtain ⟨bs, cs, rfl, hbs, hc⟩ := tokens_eq_append_iff.1 ha
  obtain ⟨k, ds, rfl, hd⟩ := tokens_eq_cons_iff.1 hc
  obtain rfl := tokens_eq_nil_iff.1 hd
  have hs : headKeyword? (bs ++ ⟨.rparen, k⟩ :: rest) ≠ some .select :=
    headKeyword?_append_ne (hbs ▸ hitems.beginsAs hne) fun t ht =>
      ht.keyword?_ne (by simp) (by simp) (by simp)
  rw [List.cons_append, List.append_assoc, List.singleton_append, reading_rangeTail_in ht,
    after?_cons_self, Option.bind_some, if_neg hs, hitems.reading_expressions hne k hbs, ho]
  cases os with
  | none => rfl
  | some es =>
    rw [Option.map_some, Option.bind_some, after?_cons_self]
    rfl

/-! ## Signs -/

theorem reads_neg (h : Reads .signed ts o) :
    Reads .signed (.minus :: ts) (o.map (.unary .neg)) := by
  refine .of_whole (by rintro ⟨⟩ <;> simp [Level.tier]) ⟨_, ts, rfl, Or.inr (.inl ⟨rfl, .inr rfl⟩)⟩
    fun {xs rest} hx hf => ?_
  obtain ⟨i, ys, rfl, hy⟩ := tokens_eq_cons_iff.1 hx
  have hr : reading (signed (ys ++ rest)) = o.map fun e => (e, rest) :=
    h.whole hy fun e he => (hf (.unary .neg e) (by rw [he]; rfl)).of_isArithmetic rfl
  show reading (signed (⟨.minus, i⟩ :: (ys ++ rest))) = _
  rw [reading_signed_minus, hr]
  cases o <;> rfl

theorem reads_plus (h : Reads .signed ts o) : Reads .signed (.plus :: ts) o := by
  refine .of_whole (by rintro ⟨⟩ <;> simp [Level.tier]) ⟨_, ts, rfl, Or.inr (.inl ⟨rfl, .inl rfl⟩)⟩
    fun {xs rest} hx hf => ?_
  obtain ⟨i, ys, rfl, hy⟩ := tokens_eq_cons_iff.1 hx
  show reading (signed (⟨.plus, i⟩ :: (ys ++ rest))) = _
  rw [reading_signed_plus]
  exact h.whole hy hf

theorem reads_signed (h : Reads .primary ts o) : Reads .signed ts o := by
  refine .of_whole (by rintro ⟨⟩ <;> simp [Level.tier]) (h.begins.of_next? rfl)
    fun {xs rest} hx hf => ?_
  obtain ⟨t, us, rfl, ht⟩ := h.begins
  obtain ⟨i, ys, rfl, hy⟩ := tokens_eq_cons_iff.1 hx
  obtain ⟨hm, hp⟩ := ht.ne_sign
  show reading (signed (⟨t, i⟩ :: (ys ++ rest))) = _
  rw [signed_of_ne (by simp [hm]) (by simp [hp])]
  exact h.whole hx fun e he => (hf e he).of_next? rfl

/-! ## Primaries -/

/-- What is read from one token. -/
theorem reads_single {t : Token} {e : Expr} (hb : t.opensPrimary = true)
    (h : ∀ i {rest : List Lexeme}, Follows .primary e rest →
      reading (primary (⟨t, i⟩ :: rest)) = some (e, rest)) : Reads .primary [t] (some e) := by
  refine .of_whole (by rintro ⟨⟩ <;> simp [Level.tier]) ⟨t, [], rfl, Or.inl hb⟩
    fun {xs rest} hx hf => ?_
  obtain ⟨i, ys, rfl, hy⟩ := tokens_eq_cons_iff.1 hx
  obtain rfl := tokens_eq_nil_iff.1 hy
  exact h i (hf e rfl)

theorem reads_number (n : String) : Reads .primary [.number n] (some (.number n)) :=
  reads_single rfl fun i _ _ => reading_primary_number n i _

theorem reads_text (s : String) : Reads .primary [.text s] (some (.text s)) :=
  reads_single rfl fun i _ _ => reading_primary_text s i _

theorem reads_date (d : String) : Reads .primary [.date d] (some (.date d)) :=
  reads_single rfl fun i _ _ => reading_primary_date d i _

theorem reads_null {t : Token} (hk : t.keyword? = some .null) :
    Reads .primary [t] (some .null) := by
  obtain ⟨w, rfl⟩ := word_of_keyword? hk
  exact reads_single (opensPrimary_of_keyword? hk (.inl rfl)) fun i _ _ =>
    reading_primary_null hk i _

theorem reads_currentTimestamp {t : Token} (hk : t.keyword? = some .currentTimestamp) :
    Reads .primary [t] (some (.call .now [])) := by
  obtain ⟨w, rfl⟩ := word_of_keyword? hk
  exact reads_single (opensPrimary_of_keyword? hk (.inr rfl)) fun i _ _ =>
    reading_primary_currentTimestamp hk i _

namespace Follows

variable {p : Tier} {e : Expr} {rest : List Lexeme}

theorem ne_dot (h : Follows p e rest) (i : Nat) (vs : List Lexeme) : rest ≠ ⟨.dot, i⟩ :: vs := by
  rintro rfl
  exact (h.mark _ rfl).1 rfl

theorem ne_lparen (h : Follows p e rest) (i : Nat) (vs : List Lexeme) :
    rest ≠ ⟨.lparen, i⟩ :: vs := by
  rintro rfl
  exact (h.mark _ rfl).2 rfl

end Follows

/-- A name in operand position is a column, with the further parts that it has. -/
theorem reading_primary_name {t : Token} {name : String} (hn : t.name? = some name) (i : Nat)
    {us : List Lexeme} (hp : ∀ j vs, us ≠ ⟨.lparen, j⟩ :: vs) :
    reading (primary (⟨t, i⟩ :: us)) =
      (reading (nameParts [name] (.byte i) us)).bind fun x =>
        (column? x.1).map fun e => (e, x.2) := by
  cases t with
  | word w =>
    cases hw : Keyword.ofWord? w with
    | none =>
      obtain rfl : w = name := by simpa [Token.name?, hw] using hn
      exact reading_primary_word hw i hp
    | some k => simp [Token.name?, hw] at hn
  | quoted q =>
    obtain rfl : q = name := Option.some.inj hn
    exact reading_primary_quoted q i us
  | _ => contradiction

theorem reads_column {t : Token} {name : String} (hn : t.name? = some name) :
    Reads .primary [t] (some (.column [name])) := by
  refine reads_single (opensPrimary_of_name? hn) fun i rest hf => ?_
  rw [reading_primary_name hn i hf.ne_lparen, reading_nameParts_of_ne _ _ hf.ne_dot]
  rfl

theorem reads_qualifiedColumn {t u : Token} {table name : String} (ht : t.name? = some table)
    (hu : u.name? = some name) : Reads .primary [t, .dot, u] (some (.column [table, name])) := by
  refine .of_whole (by rintro ⟨⟩ <;> simp [Level.tier])
    ⟨t, _, rfl, Or.inl (opensPrimary_of_name? ht)⟩ fun {xs rest} hx hf => ?_
  have hf := hf _ rfl
  obtain ⟨i, ys, rfl, hy⟩ := tokens_eq_cons_iff.1 hx
  obtain ⟨j, zs, rfl, hz⟩ := tokens_eq_cons_iff.1 hy
  obtain ⟨k, ws, rfl, hw⟩ := tokens_eq_cons_iff.1 hz
  obtain rfl := tokens_eq_nil_iff.1 hw
  show reading (primary (⟨t, i⟩ :: ⟨.dot, j⟩ :: ⟨u, k⟩ :: rest)) = _
  rw [reading_primary_name ht i (by simp), reading_nameParts_dot (t := ⟨u, k⟩) _ _ _ hu,
    reading_nameParts_of_ne _ _ hf.ne_dot]
  rfl

/-- An expression in parentheses. Tokens behind it that it does not take in make the whole
unreadable. -/
theorem reads_nested_append {vs : List Token} {o' : Option Expr} (h : Reads .disjunction ts o)
    (hv : ∀ zs i rest e, o = some e → tokens zs = vs →
      Follows .disjunction e (zs ++ ⟨.rparen, i⟩ :: rest) ∧
        ((after? .rparen (zs ++ ⟨.rparen, i⟩ :: rest)).map fun us => (Expr.nested e, us)) =
          o'.map fun e' => (e', rest))
    (ho : o = none → o' = none) : Reads .primary (.lparen :: (ts ++ (vs ++ [.rparen]))) o' := by
  refine .of_whole (by rintro ⟨⟩ <;> simp [Level.tier]) ⟨_, _, rfl, Or.inl rfl⟩
    fun {xs rest} hx hf => ?_
  obtain ⟨i, ys, rfl, hy⟩ := tokens_eq_cons_iff.1 hx
  obtain ⟨as, bs, rfl, ha, hbs⟩ := tokens_eq_append_iff.1 hy
  obtain ⟨zs, ws, rfl, hz, hw⟩ := tokens_eq_append_iff.1 hbs
  obtain ⟨j, cs, rfl, hc⟩ := tokens_eq_cons_iff.1 hw
  obtain rfl := tokens_eq_nil_iff.1 hc
  have hs : headKeyword? (as ++ (zs ++ ⟨.rparen, j⟩ :: rest)) ≠ some .select :=
    headKeyword?_append_ne (ha ▸ h.begins) fun t ht => ht.keyword?_ne (by simp) (by simp) (by simp)
  have hr : reading (chain .disjunction (as ++ (zs ++ ⟨.rparen, j⟩ :: rest))) =
      o.map fun e => (e, zs ++ ⟨.rparen, j⟩ :: rest) :=
    h.whole ha fun e he => (hv zs j rest e he hz).1
  show reading (primary (⟨.lparen, i⟩ :: (as ++ (zs ++ [⟨.rparen, j⟩]) ++ rest))) = _
  rw [List.append_assoc, List.append_assoc, List.singleton_append, reading_primary_paren,
    if_neg hs, hr]
  cases o with
  | none => rw [ho rfl]; rfl
  | some e => exact (hv zs j rest e rfl hz).2

theorem reads_nested (h : Reads .disjunction ts o) :
    Reads .primary (.lparen :: (ts ++ [.rparen])) (o.map .nested) := by
  have hn : Reads .primary (.lparen :: (ts ++ ([] ++ [.rparen]))) (o.map .nested) := by
    refine reads_nested_append h (fun zs i rest e he hz => ?_) (fun h => by rw [h]; rfl)
    obtain rfl := tokens_eq_nil_iff.1 hz
    refine ⟨follows_mark (.inl rfl) _ _ _ _, ?_⟩
    rw [List.nil_append, after?_cons_self, he]
    rfl
  exact hn

theorem ReadsAll.reading_arguments {tss : List (List Token)} {os : Option (List Expr)}
    (h : ReadsAll tss os) {xs rest : List Lexeme} (i : Nat) (hx : tokens xs = commaJoined tss) :
    reading (arguments (xs ++ ⟨.rparen, i⟩ :: rest)) = os.map fun es => (es, rest) := by
  by_cases hn : tss = []
  · subst hn
    cases h
    obtain rfl := tokens_eq_nil_iff.1 hx
    exact reading_arguments_rparen i rest
  · have hne : ∀ j vs, xs ++ ⟨.rparen, i⟩ :: rest ≠ ⟨.rparen, j⟩ :: vs := by
      obtain ⟨t, us, hu, ht⟩ := h.beginsAs hn
      rw [hu] at hx
      obtain ⟨j, ys, rfl, -⟩ := tokens_eq_cons_iff.1 hx
      have := ht.ne_mark.1
      simp [this]
    rw [reading_arguments_of_ne hne, h.reading_expressions hn i hx]
    cases os with
    | none => rfl
    | some es =>
      rw [Option.map_some, Option.bind_some, after?_cons_self]
      rfl

theorem reads_call {w : String} {tss : List (List Token)} {os : Option (List Expr)}
    (hk : Keyword.ofWord? w = none) (h : ReadsAll tss os) :
    Reads .primary (.word w :: .lparen :: (commaJoined tss ++ [.rparen]))
      (os.bind (callTree? w)) := by
  refine .of_whole (by rintro ⟨⟩ <;> simp [Level.tier])
    ⟨_, _, rfl, Or.inl (Token.opensPrimary_word.2 (.inl hk))⟩ fun {xs rest} hx hf => ?_
  obtain ⟨i, ys, rfl, hy⟩ := tokens_eq_cons_iff.1 hx
  obtain ⟨j, zs, rfl, hz⟩ := tokens_eq_cons_iff.1 hy
  obtain ⟨as, bs, rfl, ha, hbs⟩ := tokens_eq_append_iff.1 hz
  obtain ⟨k, cs, rfl, hcs⟩ := tokens_eq_cons_iff.1 hbs
  obtain rfl := tokens_eq_nil_iff.1 hcs
  show reading (primary (⟨.word w, i⟩ :: ⟨.lparen, j⟩ :: (as ++ [⟨.rparen, k⟩] ++ rest))) = _
  rw [List.append_assoc, List.singleton_append, reading_primary_call (by simp [hk]) (by simp [hk]),
    h.reading_arguments k ha]
  cases os <;> rfl

end MetricBoard.Expression
