import MetricBoard.Proofs.Expression.Callee

/-!
# What is read is in the grammar

Each reader takes the tokens of an expression of its tier, with the tree that it gives
(`derives_of_chain` for the joined tiers), and the reader of queries takes the tokens of a query
(`derives_of_query`). The proofs about scalar readers are one induction, along the recursion of
the readers themselves: to fewer tokens, or to the same tokens on a tighter tier.

A reader that goes on from an operand read before it extends the derivation of that operand: the
statement about it has the tokens `zs` of what stands to the left.
-/

namespace MetricBoard.Expression

/-! ## Levels and tiers -/

/-- The tier of a level. -/
def Level.tier : Level → Tier
  | disjunction => .disjunction
  | conjunction => .conjunction
  | sum => .sum
  | product => .product

/-- The tier of a level's operands. -/
def Level.operandTier : Level → Tier
  | disjunction => .conjunction
  | conjunction => .negation
  | sum => .product
  | product => .signed

theorem Level.next?_tier (l : Level) : l.tier.next? = some l.operandTier := by
  cases l <;> rfl

theorem Level.joins_of_operator? {l : Level} {t : Token} {op : BinaryOp}
    (h : l.operator? t = some op) : Joins l.tier t op := by
  revert h
  fun_cases Level.operator? l t with
  | case1 _ hk => rintro ⟨⟩; exact .or hk
  | case2 => rintro ⟨⟩
  | case3 _ hk => rintro ⟨⟩; exact .and hk
  | case4 => rintro ⟨⟩
  | case5 => rintro ⟨⟩; exact .add
  | case6 => rintro ⟨⟩; exact .sub
  | case7 => rintro ⟨⟩
  | case8 => rintro ⟨⟩; exact .mul
  | case9 => rintro ⟨⟩; exact .div
  | case10 => rintro ⟨⟩; exact .percent
  | case11 _ _ _ _ hk => rintro ⟨⟩; exact .mod hk
  | case12 => rintro ⟨⟩

theorem compares_of_comparison? {t : Token} {op : BinaryOp} (h : comparison? t = some op) :
    Compares t op := by
  revert h
  fun_cases comparison? t <;> rintro ⟨⟩ <;> constructor

/-! ## Names -/

/-- The further parts of a name, each behind a dot. -/
inductive NameTail : List Token → List String → Prop
  | nil : NameTail [] []
  | cons {t : Token} {name : String} {ts : List Token} {names : List String} :
    t.name? = some name → NameTail ts names → NameTail (.dot :: t :: ts) (name :: names)

theorem nameTail_of_nameParts {parts : List String} {last : Place} {ts us : List Lexeme}
    {d : DottedName} (h : reading (nameParts parts last ts) = some (d, us)) :
    ∃ xs names, ts = xs ++ us ∧ d.parts = parts ++ names ∧ NameTail (tokens xs) names := by
  have stop (hd : ∀ o vs, ts ≠ ⟨.dot, o⟩ :: vs) :
      ∃ xs names, ts = xs ++ us ∧ d.parts = parts ++ names ∧ NameTail (tokens xs) names := by
    rw [reading_nameParts_of_ne parts last hd] at h
    obtain ⟨rfl, rfl⟩ := Prod.mk.inj (Option.some.inj h)
    exact ⟨[], [], rfl, by simp, .nil⟩
  match ts with
  | [] => exact stop (by simp)
  | [⟨t, o⟩] =>
    by_cases hd : t = .dot
    · rw [hd, reading_nameParts_dot_of_none parts last o rfl] at h
      contradiction
    · exact stop (by simp [hd])
  | ⟨t, o⟩ :: u :: ts =>
    by_cases hd : t = .dot
    · cases hn : u.token.name? with
      | none =>
        rw [hd, reading_nameParts_dot_of_none parts last o (by simpa using hn)] at h
        contradiction
      | some name =>
        rw [hd, reading_nameParts_dot parts last o hn] at h
        obtain ⟨xs, names, hts, hp, hx⟩ := nameTail_of_nameParts h
        refine ⟨⟨t, o⟩ :: u :: xs, name :: names, by rw [hts]; rfl, by simpa using hp, ?_⟩
        rw [hd]
        exact .cons hn hx
    · exact stop (by simp [hd])
termination_by ts.length

theorem derives_of_column {t : Token} {name : String} (hn : t.name? = some name) {last : Place}
    {ts us : List Lexeme} {e : Expr}
    (h : ((reading (nameParts [name] last ts)).bind fun x =>
      (column? x.1).map fun e => (e, x.2)) = some (e, us)) :
    ∃ xs, ts = xs ++ us ∧ Derives .primary (t :: tokens xs) e := by
  obtain ⟨⟨d, vs⟩, hd, hc⟩ := Option.bind_eq_some_iff.1 h
  obtain ⟨xs, names, rfl, hp, hx⟩ := nameTail_of_nameParts hd
  obtain ⟨e', he, heq⟩ := Option.map_eq_some_iff.1 hc
  obtain ⟨rfl, rfl⟩ := Prod.mk.inj heq
  refine ⟨xs, rfl, ?_⟩
  unfold column? at he
  rw [hp] at he
  generalize tokens xs = zs at hx ⊢
  cases hx with
  | nil =>
    cases he
    exact .column hn
  | cons hu hx =>
    cases hx with
    | nil =>
      cases he
      exact .qualifiedColumn hn hu
    | cons _ _ => simp at he

/-! ## Scalar expressions -/

theorem negates_of_eatKeyword (ts : List Lexeme) :
    ∃ ns, ts = ns ++ (eatKeyword .not ts).2.1 ∧ Negates (eatKeyword .not ts).1 (tokens ns) := by
  by_cases h : headKeyword? ts = some .not
  · match ts with
    | [] => contradiction
    | t :: ts =>
      obtain ⟨h₁, h₂⟩ := eatKeyword_of_eq (t := t) h ts
      rw [h₁, h₂]
      exact ⟨[t], rfl, .not h⟩
  · obtain ⟨h₁, h₂⟩ := eatKeyword_of_ne h
    rw [h₁, h₂]
    exact ⟨[], rfl, .plain⟩

mutual

theorem derives_of_chain (l : Level) {ts us : List Lexeme} {e : Expr}
    (h : reading (chain l ts) = some (e, us)) :
    ∃ xs, ts = xs ++ us ∧ Derives l.tier (tokens xs) e := by
  rw [reading_chain] at h
  obtain ⟨⟨left, vs⟩, hl, ht⟩ := Option.bind_eq_some_iff.1 h
  dsimp only at ht
  have hlt := length_of_reading hl
  obtain ⟨xs, hxs, hx⟩ := derives_of_operand l hl
  obtain ⟨ys, hys, hy⟩ := derives_of_chainTail l ht (.tighter l.next?_tier hx)
  exact ⟨xs ++ ys, by rw [hxs, hys, List.append_assoc], by simpa using hy⟩
termination_by (ts.length, l.height + 1)
decreasing_by
  · exact Prod.Lex.right _ (Nat.lt_succ_self _)
  · exact Prod.Lex.left _ _ hlt

theorem derives_of_chainTail (l : Level) {left : Expr} {ts us : List Lexeme} {e : Expr}
    (h : reading (chainTail l left ts) = some (e, us)) {zs : List Token}
    (hz : Derives l.tier zs left) :
    ∃ xs, ts = xs ++ us ∧ Derives l.tier (zs ++ tokens xs) e := by
  match ts with
  | [] =>
    rw [reading_chainTail_nil] at h
    cases h
    exact ⟨[], rfl, by simpa using hz⟩
  | t :: ts =>
    cases ho : l.operator? t.token with
    | none =>
      rw [reading_chainTail_of_none ho] at h
      cases h
      exact ⟨[], rfl, by simpa using hz⟩
    | some op =>
      rw [reading_chainTail_of_some ho] at h
      obtain ⟨⟨right, vs⟩, hr, ht⟩ := Option.bind_eq_some_iff.1 h
      dsimp only at ht
      have hlt := length_of_reading hr
      obtain ⟨xs, hxs, hx⟩ := derives_of_operand l hr
      have hj : Derives l.tier (zs ++ t.token :: tokens xs) (.binary op left right) :=
        .join (l.joins_of_operator? ho) l.next?_tier hz hx
      obtain ⟨ys, hys, hy⟩ := derives_of_chainTail l ht hj
      exact ⟨t :: (xs ++ ys), by rw [hxs, hys]; simp, by simpa using hy⟩
termination_by (ts.length, l.height + 1)
decreasing_by
  · exact Prod.Lex.left _ _ (Nat.lt_succ_self _)
  · exact Prod.Lex.left _ _ (by simp only [List.length_cons]; omega)

theorem derives_of_operand (l : Level) {ts us : List Lexeme} {e : Expr}
    (h : reading (operand l ts) = some (e, us)) :
    ∃ xs, ts = xs ++ us ∧ Derives l.operandTier (tokens xs) e := by
  match l with
  | .disjunction => exact derives_of_chain .conjunction (by simpa using h)
  | .conjunction => exact derives_of_negation (by simpa using h)
  | .sum => exact derives_of_chain .product (by simpa using h)
  | .product => exact derives_of_signed (by simpa using h)
termination_by (ts.length, l.height)
decreasing_by all_goals exact Prod.Lex.right _ (by decide)

theorem derives_of_negation {ts us : List Lexeme} {e : Expr}
    (h : reading (negation ts) = some (e, us)) :
    ∃ xs, ts = xs ++ us ∧ Derives .negation (tokens xs) e := by
  match ts with
  | [] =>
    rw [negation_nil] at h
    obtain ⟨xs, hxs, hx⟩ := derives_of_predicate h
    exact ⟨xs, hxs, .tighter rfl hx⟩
  | t :: ts =>
    by_cases hn : t.token.keyword? = some .not
    · rw [reading_negation_of_not hn] at h
      obtain ⟨⟨e', vs⟩, he, heq⟩ := Option.map_eq_some_iff.1 h
      obtain ⟨rfl, rfl⟩ := Prod.mk.inj heq
      obtain ⟨xs, hxs, hx⟩ := derives_of_negation he
      exact ⟨t :: xs, by rw [hxs]; rfl, .not hn hx⟩
    · rw [negation_of_ne hn] at h
      obtain ⟨xs, hxs, hx⟩ := derives_of_predicate h
      exact ⟨xs, hxs, .tighter rfl hx⟩
termination_by (ts.length, 8)
decreasing_by
  · exact Prod.Lex.right _ (by omega)
  · exact Prod.Lex.left _ _ (Nat.lt_succ_self _)
  · exact Prod.Lex.right _ (by omega)

theorem derives_of_predicate {ts us : List Lexeme} {e : Expr}
    (h : reading (predicate ts) = some (e, us)) :
    ∃ xs, ts = xs ++ us ∧ Derives .predicate (tokens xs) e := by
  rw [reading_predicate] at h
  obtain ⟨⟨left, vs⟩, hl, ht⟩ := Option.bind_eq_some_iff.1 h
  dsimp only at ht
  have hlt := length_of_reading hl
  obtain ⟨xs, hxs, hx⟩ := derives_of_chain .sum hl
  obtain ⟨ys, hys, hy⟩ := derives_of_predicateTail ht hx
  exact ⟨xs ++ ys, by rw [hxs, hys, List.append_assoc], by simpa using hy⟩
termination_by (ts.length, 7)
decreasing_by
  · exact Prod.Lex.right _ (by decide)
  · exact Prod.Lex.left _ _ hlt

theorem derives_of_predicateTail {left : Expr} {ts us : List Lexeme} {e : Expr}
    (h : reading (predicateTail left ts) = some (e, us)) {zs : List Token}
    (hz : Derives .sum zs left) :
    ∃ xs, ts = xs ++ us ∧ Derives .predicate (zs ++ tokens xs) e := by
  match ts with
  | [] =>
    rw [reading_predicateTail_nil] at h
    cases h
    exact ⟨[], rfl, by simpa using .tighter rfl hz⟩
  | t :: ts =>
    cases hc : comparison? t.token with
    | some op =>
      rw [reading_predicateTail_of_comparison hc] at h
      obtain ⟨⟨right, vs⟩, hr, heq⟩ := Option.map_eq_some_iff.1 h
      obtain ⟨rfl, rfl⟩ := Prod.mk.inj heq
      obtain ⟨xs, hxs, hx⟩ := derives_of_chain .sum hr
      exact ⟨t :: xs, by rw [hxs]; rfl, .compare (compares_of_comparison? hc) hz hx⟩
    | none =>
      by_cases hi : t.token.keyword? = some .is
      · rw [reading_predicateTail_is hc hi] at h
        obtain ⟨vs, hv, heq⟩ := Option.map_eq_some_iff.1 h
        obtain ⟨rfl, rfl⟩ := Prod.mk.inj heq
        obtain ⟨null, hnull, hv⟩ := afterKeyword?_eq_some_iff.1 hv
        obtain ⟨ns, hns, hneg⟩ := negates_of_eatKeyword ts
        refine ⟨t :: (ns ++ [null]), ?_, by simpa using .isNull hi hneg hnull hz⟩
        rw [hv] at hns
        rw [hns]
        simp
      by_cases hn : t.token.keyword? = some .not
      · by_cases hr : startsRange ts = true
        · rw [reading_predicateTail_not hc hn hr] at h
          obtain ⟨xs, hxs, hx⟩ := derives_of_rangeTail h (.not hn) (fun _ => hr) hz
          exact ⟨t :: xs, by rw [hxs]; rfl, by simpa using hx⟩
        · rw [reading_predicateTail_not_of_not hc hn (by simpa using hr)] at h
          cases h
          exact ⟨[], rfl, by simpa using .tighter rfl hz⟩
      · rw [predicateTail_of_ne hc hi hn] at h
        obtain ⟨xs, hxs, hx⟩ := derives_of_rangeTail h .plain (by simp) hz
        exact ⟨xs, hxs, by simpa using hx⟩
termination_by (ts.length, 1)
decreasing_by
  · exact Prod.Lex.left _ _ (Nat.lt_succ_self _)
  · exact Prod.Lex.right _ (by omega)
  · exact Prod.Lex.left _ _ (Nat.lt_succ_self _)

theorem derives_of_rangeTail {negated : Bool} {left : Expr} {ts us : List Lexeme} {e : Expr}
    (h : reading (rangeTail negated left ts) = some (e, us)) {ns : List Token}
    (hneg : Negates negated ns) (hr : negated = true → startsRange ts = true) {zs : List Token}
    (hz : Derives .sum zs left) :
    ∃ xs, ts = xs ++ us ∧ Derives .predicate (zs ++ (ns ++ tokens xs)) e := by
  match ts with
  | [] =>
    rw [reading_rangeTail_nil] at h
    cases h
    cases hneg with
    | plain => exact ⟨[], rfl, by simpa using .tighter rfl hz⟩
    | not _ => exact absurd (hr rfl) (by simp [startsRange, headKeyword?])
  | t :: ts =>
    by_cases hb : t.token.keyword? = some .between
    · rw [reading_rangeTail_between hb] at h
      obtain ⟨⟨low, vs⟩, hl, ht⟩ := Option.bind_eq_some_iff.1 h
      have hlt := length_of_reading hl
      obtain ⟨ws, ha, ht⟩ := Option.bind_eq_some_iff.1 ht
      obtain ⟨⟨high, xs⟩, hh, heq⟩ := Option.map_eq_some_iff.1 ht
      obtain ⟨rfl, rfl⟩ := Prod.mk.inj heq
      obtain ⟨a, hand, hvs⟩ := afterKeyword?_eq_some_iff.1 ha
      dsimp only at hvs
      have hws : ws.length < ts.length := by
        rw [hvs, List.length_cons] at hlt
        omega
      obtain ⟨ls, hls, hlow⟩ := derives_of_chain .sum hl
      obtain ⟨hs, hhs, hhigh⟩ := derives_of_chain .sum hh
      refine ⟨t :: (ls ++ a :: hs), by rw [hls, hvs, hhs]; simp, ?_⟩
      simpa using .between hneg hb hand hz hlow hhigh
    by_cases hi : t.token.keyword? = some .in_
    · rw [reading_rangeTail_in hi] at h
      obtain ⟨vs, hp, ht⟩ := Option.bind_eq_some_iff.1 h
      obtain ⟨o, hvs⟩ := after?_eq_some_iff.1 hp
      have hlt : vs.length < ts.length := by rw [hvs]; exact Nat.lt_succ_self _
      split at ht
      · contradiction
      obtain ⟨⟨items, ws⟩, hitems, ht⟩ := Option.bind_eq_some_iff.1 ht
      obtain ⟨xs, hc, heq⟩ := Option.map_eq_some_iff.1 ht
      obtain ⟨rfl, rfl⟩ := Prod.mk.inj heq
      obtain ⟨o', hws⟩ := after?_eq_some_iff.1 hc
      dsimp only at hws
      obtain ⟨ps, ys, hys, hj, rfl, hne, hall⟩ := derives_of_expressions hitems
      refine ⟨t :: ⟨.lparen, o⟩ :: (ys ++ [⟨.rparen, o'⟩]), by rw [hvs, hys, hws]; simp, ?_⟩
      simpa [hj] using .inList hneg hi hz hne hall
    by_cases hk : t.token.keyword? = some .like
    · rw [reading_rangeTail_like hk] at h
      obtain ⟨⟨pattern, vs⟩, hp, heq⟩ := Option.map_eq_some_iff.1 h
      obtain ⟨rfl, rfl⟩ := Prod.mk.inj heq
      obtain ⟨xs, hxs, hx⟩ := derives_of_chain .sum hp
      exact ⟨t :: xs, by rw [hxs]; rfl, by simpa using .like hneg hk hz hx⟩
    · have hs : startsRange (t :: ts) = false := by
        simp only [startsRange, headKeyword?]
      rw [reading_rangeTail_of_ne hs] at h
      cases h
      cases hneg with
      | plain => exact ⟨[], rfl, by simpa using .tighter rfl hz⟩
      | not _ => simp [hs] at hr
termination_by (ts.length, 0)
decreasing_by
  · exact Prod.Lex.left _ _ (Nat.lt_succ_self _)
  · exact Prod.Lex.left _ _ (Nat.lt_succ_of_lt hws)
  · exact Prod.Lex.left _ _ (Nat.lt_succ_of_lt hlt)
  · exact Prod.Lex.left _ _ (Nat.lt_succ_self _)

theorem derives_of_signed {ts us : List Lexeme} {e : Expr}
    (h : reading (signed ts) = some (e, us)) :
    ∃ xs, ts = xs ++ us ∧ Derives .signed (tokens xs) e := by
  match ts with
  | [] =>
    rw [signed_of_ne (by simp) (by simp)] at h
    obtain ⟨xs, hxs, hx⟩ := derives_of_primary h
    exact ⟨xs, hxs, .tighter rfl hx⟩
  | ⟨t, o⟩ :: ts =>
    by_cases hm : t = .minus
    · rw [hm, reading_signed_minus] at h
      obtain ⟨⟨e', vs⟩, he, heq⟩ := Option.map_eq_some_iff.1 h
      obtain ⟨rfl, rfl⟩ := Prod.mk.inj heq
      obtain ⟨xs, hxs, hx⟩ := derives_of_signed he
      exact ⟨⟨.minus, o⟩ :: xs, by rw [hm, hxs]; rfl, .neg hx⟩
    by_cases hp : t = .plus
    · rw [hp, reading_signed_plus] at h
      obtain ⟨xs, hxs, hx⟩ := derives_of_signed h
      exact ⟨⟨.plus, o⟩ :: xs, by rw [hp, hxs]; rfl, .plus hx⟩
    · rw [signed_of_ne (by simp [hm]) (by simp [hp])] at h
      obtain ⟨xs, hxs, hx⟩ := derives_of_primary h
      exact ⟨xs, hxs, .tighter rfl hx⟩
termination_by (ts.length, 1)
decreasing_by
  · exact Prod.Lex.right _ (by omega)
  · exact Prod.Lex.left _ _ (Nat.lt_succ_self _)
  · exact Prod.Lex.left _ _ (Nat.lt_succ_self _)
  · exact Prod.Lex.right _ (by omega)

theorem derives_of_primary {ts us : List Lexeme} {e : Expr}
    (h : reading (primary ts) = some (e, us)) :
    ∃ xs, ts = xs ++ us ∧ Derives .primary (tokens xs) e := by
  match ts with
  | [] => rw [reading_primary_nil] at h; contradiction
  | ⟨.number n, o⟩ :: ts =>
    rw [reading_primary_number] at h
    cases h
    exact ⟨[_], rfl, .number n⟩
  | ⟨.text s, o⟩ :: ts =>
    rw [reading_primary_text] at h
    cases h
    exact ⟨[_], rfl, .text s⟩
  | ⟨.date d, o⟩ :: ts =>
    rw [reading_primary_date] at h
    cases h
    exact ⟨[_], rfl, .date d⟩
  | ⟨.lparen, o⟩ :: ts =>
    rw [reading_primary_paren] at h
    split at h
    · contradiction
    obtain ⟨⟨e', vs⟩, he, ht⟩ := Option.bind_eq_some_iff.1 h
    obtain ⟨ws, hc, heq⟩ := Option.map_eq_some_iff.1 ht
    obtain ⟨rfl, rfl⟩ := Prod.mk.inj heq
    obtain ⟨o', hvs⟩ := after?_eq_some_iff.1 hc
    obtain ⟨xs, hxs, hx⟩ := derives_of_chain .disjunction he
    dsimp only at hvs
    refine ⟨⟨.lparen, o⟩ :: (xs ++ [⟨.rparen, o'⟩]), by rw [hxs, hvs]; simp, ?_⟩
    simpa using .nested hx
  | ⟨.quoted name, o⟩ :: ts =>
    rw [reading_primary_quoted] at h
    obtain ⟨xs, hxs, hx⟩ := derives_of_column (t := .quoted name) rfl h
    exact ⟨⟨.quoted name, o⟩ :: xs, by rw [hxs]; rfl, hx⟩
  | ⟨.word w, o⟩ :: ts => exact derives_of_word h
  | ⟨.rparen, o⟩ :: ts | ⟨.comma, o⟩ :: ts | ⟨.dot, o⟩ :: ts | ⟨.star, o⟩ :: ts
  | ⟨.plus, o⟩ :: ts | ⟨.minus, o⟩ :: ts | ⟨.slash, o⟩ :: ts | ⟨.percent, o⟩ :: ts
  | ⟨.eq, o⟩ :: ts | ⟨.ne, o⟩ :: ts | ⟨.lt, o⟩ :: ts | ⟨.le, o⟩ :: ts | ⟨.gt, o⟩ :: ts
  | ⟨.ge, o⟩ :: ts =>
    rw [reading_primary_of_ne (by simp) (by simp) (by simp) (by simp) (by simp) (by simp)] at h
    contradiction
termination_by (ts.length, 0)
decreasing_by
  · exact Prod.Lex.left _ _ (Nat.lt_succ_self _)
  · exact Prod.Lex.left _ _ (Nat.lt_succ_self _)

theorem derives_of_word {w : String} {o : Nat} {ts us : List Lexeme} {e : Expr}
    (h : reading (primary (⟨.word w, o⟩ :: ts)) = some (e, us)) :
    ∃ xs, ⟨.word w, o⟩ :: ts = xs ++ us ∧ Derives .primary (tokens xs) e := by
  by_cases hn : Keyword.ofWord? w = some .null
  · rw [reading_primary_null hn] at h
    cases h
    exact ⟨[_], rfl, .null hn⟩
  by_cases hc : Keyword.ofWord? w = some .currentTimestamp
  · rw [reading_primary_currentTimestamp hc] at h
    cases h
    exact ⟨[_], rfl, .currentTimestamp hc⟩
  by_cases hp : ∃ o' vs, ts = ⟨.lparen, o'⟩ :: vs
  · obtain ⟨o', vs, hvs⟩ := hp
    rw [hvs, reading_primary_call hn hc] at h
    obtain ⟨⟨args, ws⟩, ha, ht⟩ := Option.bind_eq_some_iff.1 h
    obtain ⟨e', he, heq⟩ := Option.map_eq_some_iff.1 ht
    obtain ⟨rfl, rfl⟩ := Prod.mk.inj heq
    obtain ⟨items, xs, hxs, hj, rfl, hall⟩ := derives_of_arguments ha
    refine ⟨⟨.word w, o⟩ :: ⟨.lparen, o'⟩ :: xs, by rw [hvs, hxs]; rfl, ?_⟩
    simpa [hj] using .call hall (callTree?_eq_some_iff.1 he)
  · have hp : ∀ o' vs, ts ≠ ⟨.lparen, o'⟩ :: vs := fun o' vs e => hp ⟨o', vs, e⟩
    cases hw : Keyword.ofWord? w with
    | none =>
      rw [reading_primary_word hw o hp] at h
      obtain ⟨xs, hxs, hx⟩ := derives_of_column (t := .word w) (by simp [Token.name?, hw]) h
      exact ⟨⟨.word w, o⟩ :: xs, by rw [hxs]; rfl, hx⟩
    | some k =>
      rw [reading_primary_keyword hw (by simp_all) (by simp_all) o hp] at h
      contradiction
termination_by (ts.length, 0)
decreasing_by exact Prod.Lex.left _ _ (by rw [hvs]; exact Nat.lt_succ_self _)

theorem derives_of_arguments {ts us : List Lexeme} {es : List Expr}
    (h : reading (arguments ts) = some (es, us)) :
    ∃ (items : List (List Token × Expr)) (xs : List Lexeme), ts = xs ++ us ∧
      tokens xs = commaJoined (items.map Prod.fst) ++ [.rparen] ∧ es = items.map Prod.snd ∧
      ∀ x ∈ items, Derives .disjunction x.1 x.2 := by
  by_cases hc : ∃ o vs, ts = ⟨.rparen, o⟩ :: vs
  · obtain ⟨o, vs, hvs⟩ := hc
    rw [hvs, reading_arguments_rparen] at h
    cases h
    exact ⟨[], [⟨.rparen, o⟩], hvs, rfl, rfl, by simp⟩
  · rw [reading_arguments_of_ne fun o vs e => hc ⟨o, vs, e⟩] at h
    obtain ⟨⟨args, vs⟩, ha, ht⟩ := Option.bind_eq_some_iff.1 h
    obtain ⟨ws, hws, heq⟩ := Option.map_eq_some_iff.1 ht
    obtain ⟨rfl, rfl⟩ := Prod.mk.inj heq
    obtain ⟨o, hvs⟩ := after?_eq_some_iff.1 hws
    dsimp only at hvs
    obtain ⟨items, xs, hxs, hj, rfl, -, hall⟩ := derives_of_expressions ha
    exact ⟨items, xs ++ [⟨.rparen, o⟩], by rw [hxs, hvs]; simp, by simp [hj], rfl, hall⟩
termination_by (ts.length, 14)
decreasing_by exact Prod.Lex.right _ (by omega)

theorem derives_of_expressions {ts us : List Lexeme} {es : List Expr}
    (h : reading (expressions ts) = some (es, us)) :
    ∃ (items : List (List Token × Expr)) (xs : List Lexeme), ts = xs ++ us ∧
      tokens xs = commaJoined (items.map Prod.fst) ∧ es = items.map Prod.snd ∧ items ≠ [] ∧
      ∀ x ∈ items, Derives .disjunction x.1 x.2 := by
  rw [reading_expressions] at h
  obtain ⟨⟨e, vs⟩, he, ht⟩ := Option.bind_eq_some_iff.1 h
  dsimp only at ht
  obtain ⟨⟨es', ws⟩, hes, heq⟩ := Option.map_eq_some_iff.1 ht
  obtain ⟨rfl, rfl⟩ := Prod.mk.inj heq
  have hlt := length_of_reading he
  obtain ⟨xs, hxs, hx⟩ := derives_of_chain .disjunction he
  obtain ⟨items, ys, hys, hj, rfl, hall⟩ := derives_of_moreExpressions hes
  refine ⟨(tokens xs, e) :: items, xs ++ ys, by rw [hxs, hys]; simp, ?_, rfl, by simp, ?_⟩
  · rw [tokens_append, hj]
    cases items with
    | nil => simp [commaJoined]
    | cons x items => rfl
  · rw [List.forall_mem_cons]
    exact ⟨hx, hall⟩
termination_by (ts.length, 13)
decreasing_by
  · exact Prod.Lex.right _ (by decide)
  · exact Prod.Lex.left _ _ hlt

theorem derives_of_moreExpressions {ts us : List Lexeme} {es : List Expr}
    (h : reading (moreExpressions ts) = some (es, us)) :
    ∃ (items : List (List Token × Expr)) (xs : List Lexeme), ts = xs ++ us ∧
      tokens xs = (if items = [] then [] else .comma :: commaJoined (items.map Prod.fst)) ∧
      es = items.map Prod.snd ∧ ∀ x ∈ items, Derives .disjunction x.1 x.2 := by
  by_cases hc : ∃ o vs, ts = ⟨.comma, o⟩ :: vs
  · obtain ⟨o, vs, hvs⟩ := hc
    rw [hvs, reading_moreExpressions_comma] at h
    obtain ⟨items, xs, hxs, hj, rfl, hne, hall⟩ := derives_of_expressions h
    exact ⟨items, ⟨.comma, o⟩ :: xs, by rw [hvs, hxs]; rfl, by simp [hj, hne], rfl, hall⟩
  · rw [reading_moreExpressions_of_ne fun o vs e => hc ⟨o, vs, e⟩] at h
    cases h
    exact ⟨[], [], rfl, rfl, rfl, by simp⟩
termination_by (ts.length, 0)
decreasing_by exact Prod.Lex.left _ _ (by rw [hvs]; exact Nat.lt_succ_self _)

end

/-! ## Queries -/

theorem derives_of_argument {f : AggregateFunction} {distinct : Bool} {ts us : List Lexeme}
    {a : Argument} (h : (aggregate.argument f distinct ts).toOption = some (a, us)) :
    ∃ xs, ts = xs ++ us ∧
      (f = .count ∧ distinct = false ∧ tokens xs = [.star] ∧ a = .star ∨
        ∃ e, Derives .disjunction (tokens xs) e ∧ a = .expr e) := by
  by_cases hs : ∃ o vs, ts = ⟨.star, o⟩ :: vs
  · obtain ⟨o, vs, rfl⟩ := hs
    rw [toOption_argument_star] at h
    split at h
    · rename_i hc
      cases h
      exact ⟨[⟨.star, o⟩], rfl, .inl ⟨hc.1, hc.2, rfl, rfl⟩⟩
    · contradiction
  · rw [toOption_argument_of_ne f distinct fun o vs e => hs ⟨o, vs, e⟩] at h
    obtain ⟨⟨e, vs⟩, he, heq⟩ := Option.map_eq_some_iff.1 h
    obtain ⟨rfl, rfl⟩ := Prod.mk.inj heq
    obtain ⟨xs, rfl, hx⟩ := derives_of_chain .disjunction he
    exact ⟨xs, rfl, .inr ⟨e, hx, rfl⟩⟩

theorem derives_of_aggregate {ts us : List Lexeme} {a : Aggregate}
    (h : (aggregate ts).toOption = some (a, us)) :
    ∃ xs, ts = xs ++ us ∧ DerivesAggregate (tokens xs) a := by
  by_cases hw : ∃ w o vs f, ts = ⟨.word w, o⟩ :: vs ∧ AggregateFunction.ofWord? w = some f
  · obtain ⟨w, o, vs, f, rfl, hf⟩ := hw
    rw [toOption_aggregate hf] at h
    obtain ⟨ws, ho, harg⟩ := Option.bind_eq_some_iff.1 h
    obtain ⟨o₁, rfl⟩ := after?_eq_some_iff.1 ho
    obtain ⟨⟨arg, xs⟩, ha, hend⟩ := Option.bind_eq_some_iff.1 harg
    obtain ⟨ys, hc, heq⟩ := Option.map_eq_some_iff.1 hend
    obtain ⟨rfl, rfl⟩ := Prod.mk.inj heq
    obtain ⟨o₂, hxs⟩ := after?_eq_some_iff.1 hc
    dsimp only at hxs
    obtain ⟨zs, hzs, hz⟩ := derives_of_argument ha
    by_cases hd : headKeyword? ws = some .distinct
    · match ws with
      | [] => contradiction
      | d :: ws =>
        obtain ⟨h₁, h₂⟩ := eatKeyword_of_eq (t := d) hd ws
        rw [h₂] at hzs
        rw [h₁] at hz ⊢
        rcases hz with ⟨-, h, -, -⟩ | ⟨e, he, rfl⟩
        · contradiction
        · refine ⟨⟨.word w, o⟩ :: ⟨.lparen, o₁⟩ :: d :: (zs ++ [⟨.rparen, o₂⟩]), ?_, ?_⟩
          · rw [hzs, hxs]; simp
          · simpa using .distinct hf hd he
    · obtain ⟨h₁, h₂⟩ := eatKeyword_of_ne hd
      rw [h₂] at hzs
      rw [h₁] at hz ⊢
      refine ⟨⟨.word w, o⟩ :: ⟨.lparen, o₁⟩ :: (zs ++ [⟨.rparen, o₂⟩]), ?_, ?_⟩
      · rw [hzs, hxs]; simp
      · rcases hz with ⟨rfl, -, hz, rfl⟩ | ⟨e, he, rfl⟩
        · simpa [hz] using .star hf
        · simpa using .expr hf he
  · rw [toOption_aggregate_of_none] at h
    · contradiction
    · intro w o vs e
      cases hf : AggregateFunction.ofWord? w with
      | none => rfl
      | some f => exact absurd ⟨w, o, vs, f, e, hf⟩ hw

theorem isAlias_of_dropAlias {ts us : List Lexeme} (h : dropAlias ts = .ok us) :
    ∃ xs, ts = xs ++ us ∧ IsAlias (tokens xs) := by
  unfold dropAlias at h
  split at h
  · rename_i ha
    match ts with
    | [] => contradiction
    | a :: ts =>
      dsimp only [List.tail_cons] at h
      split at h
      · cases h
        exact ⟨[a, _], rfl, .text _ ha⟩
      · split at h
        · rename_i hn
          cases h
          exact ⟨[a, _], rfl, .named ha hn⟩
        · contradiction
      · contradiction
  · split at h
    · rename_i t vs _
      cases h
      by_cases hn : t.token.name?.isSome = true
      · rw [if_pos hn]
        exact ⟨[t], rfl, .bare hn⟩
      · rw [if_neg hn]
        exact ⟨[], rfl, .none⟩
    · cases h
      exact ⟨[], rfl, .none⟩

theorem derives_of_table {ts us : List Lexeme} {n : TableName}
    (h : (table ts).toOption = some (n, us)) :
    ∃ xs, ts = xs ++ us ∧ DerivesTable (tokens xs) n := by
  rw [toOption_table] at h
  obtain ⟨⟨d, vs⟩, hd, h⟩ := Option.bind_eq_some_iff.1 h
  split at h
  · contradiction
  obtain ⟨n', hn, heq⟩ := Option.map_eq_some_iff.1 h
  obtain ⟨rfl, rfl⟩ := Prod.mk.inj heq
  cases hh : ts.head?.bind fun t => t.token.name? with
  | none =>
    rw [reading_dottedName_of_none hh] at hd
    contradiction
  | some name =>
    match ts with
    | [] => contradiction
    | t :: ts =>
      have ht : t.token.name? = some name := hh
      rw [reading_dottedName ht] at hd
      obtain ⟨xs, names, rfl, hp, hx⟩ := nameTail_of_nameParts hd
      refine ⟨t :: xs, rfl, ?_⟩
      unfold tableOf? at hn
      rw [hp] at hn
      rw [tokens_cons]
      generalize tokens xs = zs at hx ⊢
      cases hx with
      | nil =>
        cases hn
        exact .bare ht
      | cons hu hx =>
        cases hx with
        | nil =>
          cases hn
          exact .qualified ht hu
        | cons _ _ => simp at hn

theorem isHintList_of_dropHints {ts us : List Lexeme} (h : dropHints ts = .ok us) :
    ∃ hs xs, ts = xs ++ us ∧ tokens xs = commaJoined (hs.map fun h => [h]) ++ [.rparen] ∧ hs ≠ [] ∧
      ∀ h ∈ hs, Token.isLockHint h = true := by
  match ts with
  | [] => simp [dropHints] at h
  | t :: ts =>
    unfold dropHints at h
    split at h
    · rename_i ht
      split at h
      · rename_i o vs
        obtain ⟨hs, xs, hxs, hj, hne, hall⟩ := isHintList_of_dropHints h
        refine ⟨t.token :: hs, t :: ⟨.comma, o⟩ :: xs, by rw [hxs]; rfl, ?_, by simp, ?_⟩
        · obtain ⟨h, hs, rfl⟩ := List.exists_cons_of_ne_nil hne
          simp [hj, commaJoined]
        · rw [List.forall_mem_cons]
          exact ⟨ht, hall⟩
      · obtain ⟨o, hvs⟩ := after?_eq_some_iff.1 (expect_eq_ok_iff.1 h)
        refine ⟨[t.token], [t, ⟨.rparen, o⟩], by rw [hvs]; rfl, rfl, by simp, ?_⟩
        simpa using ht
    · contradiction
termination_by ts.length

theorem isHints_of_dropTableHints {ts us : List Lexeme} (h : dropTableHints ts = .ok us) :
    ∃ xs, ts = xs ++ us ∧ IsHints (tokens xs) := by
  by_cases hw : headKeyword? ts = some .with_
  · match ts with
    | [] => contradiction
    | t :: ts =>
      rw [← toOption_eq_some_iff, toOption_dropTableHints_with hw] at h
      obtain ⟨vs, hvs, hd⟩ := Option.bind_eq_some_iff.1 h
      obtain ⟨o, rfl⟩ := after?_eq_some_iff.1 hvs
      obtain ⟨hs, xs, rfl, hj, hne, hall⟩ := isHintList_of_dropHints (toOption_eq_some_iff.1 hd)
      refine ⟨t :: ⟨.lparen, o⟩ :: xs, rfl, ?_⟩
      rw [tokens_cons, tokens_cons, hj]
      exact .with_ hw (.mk hne hall)
  · unfold dropTableHints at h
    rw [if_neg hw] at h
    split at h
    · rename_i o vs
      obtain ⟨hs, xs, rfl, hj, hne, hall⟩ := isHintList_of_dropHints h
      refine ⟨⟨.lparen, o⟩ :: xs, rfl, ?_⟩
      rw [tokens_cons, hj]
      exact .legacy (.mk hne hall)
    · cases h
      exact ⟨[], rfl, .none⟩

theorem derives_of_filter {ts us : List Lexeme} {w : Option Expr}
    (h : (filter ts).toOption = some (w, us)) :
    ∃ xs, ts = xs ++ us ∧ DerivesFilter (tokens xs) w := by
  by_cases hw : headKeyword? ts = some .where_
  · match ts with
    | [] => contradiction
    | t :: ts =>
      rw [toOption_filter_where hw] at h
      obtain ⟨⟨e, vs⟩, he, heq⟩ := Option.map_eq_some_iff.1 h
      obtain ⟨rfl, rfl⟩ := Prod.mk.inj heq
      obtain ⟨xs, rfl, hx⟩ := derives_of_chain .disjunction he
      exact ⟨t :: xs, rfl, .where_ hw hx⟩
  · rw [filter_of_ne hw] at h
    cases h
    exact ⟨[], rfl, .none⟩

theorem isSelect_of_eatKeyword (ts : List Lexeme) :
    ∃ xs, ts = xs ++ (eatKeyword .select ts).2.1 ∧ IsSelect (tokens xs) := by
  by_cases h : headKeyword? ts = some .select
  · match ts with
    | [] => contradiction
    | t :: ts =>
      rw [(eatKeyword_of_eq (t := t) h ts).2]
      exact ⟨[t], rfl, .select h⟩
  · rw [(eatKeyword_of_ne h).2]
    exact ⟨[], rfl, .none⟩

/-- What the reader of queries takes is a query of the grammar. -/
theorem derives_of_query {ts : List Lexeme} {q : Query} (h : (query ts).toOption = some q) :
    DerivesQuery (tokens ts) q := by
  rw [toOption_query] at h
  obtain ⟨⟨a, us⟩, ha, h₁⟩ := Option.bind_eq_some_iff.1 h
  obtain ⟨vs, hl, h₂⟩ := Option.bind_eq_some_iff.1 h₁
  obtain ⟨ws, hf, h₃⟩ := Option.bind_eq_some_iff.1 h₂
  obtain ⟨⟨n, xs⟩, hn, h₄⟩ := Option.bind_eq_some_iff.1 h₃
  obtain ⟨ys, hh, h₅⟩ := Option.bind_eq_some_iff.1 h₄
  obtain ⟨⟨w, zs⟩, hw, h₆⟩ := Option.bind_eq_some_iff.1 h₅
  dsimp only at hl hh h₆
  split at h₆
  · rename_i hz
    obtain rfl := Option.some.inj h₆
    obtain ⟨ss, hss, dss⟩ := isSelect_of_eatKeyword ts
    obtain ⟨as, has, das⟩ := derives_of_aggregate ha
    obtain ⟨ls, hls, dls⟩ := isAlias_of_dropAlias (toOption_eq_some_iff.1 hl)
    obtain ⟨f, hfrom, hfs⟩ := afterKeyword?_eq_some_iff.1 hf
    obtain ⟨ns, hns, dns⟩ := derives_of_table hn
    obtain ⟨hs, hhs, dhs⟩ := isHints_of_dropTableHints (toOption_eq_some_iff.1 hh)
    obtain ⟨fs, hfi, dfs⟩ := derives_of_filter hw
    rw [hss, has, hls, hfs, hns, hhs, hfi, hz]
    simpa using .mk dss das dls hfrom dns dhs dfs
  · contradiction

end MetricBoard.Expression
