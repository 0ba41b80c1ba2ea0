import MetricBoard.Expression.Parser.Query

/-!
# What the readers give

`reading` keeps of a reader's result the value with the tokens that follow it, and forgets why a
reader failed and that it took a token. Each reader then has one equation over the readers it
calls; the proofs about reading use these equations and never unfold a reader.
-/

namespace MetricBoard.Expression

/-- What was read and the tokens after it. -/
def reading {α : Type} {n : Nat} : Except Fault (Parsed α n) → Option (α × List Lexeme)
  | .ok p => some (p.value, p.rest)
  | .error _ => none

/-- The tokens of lexemes. -/
def tokens (ls : List Lexeme) : List Token := ls.map Lexeme.token

@[simp] theorem tokens_nil : tokens [] = [] := rfl

@[simp] theorem tokens_cons (t : Lexeme) (ts : List Lexeme) :
    tokens (t :: ts) = t.token :: tokens ts := rfl

@[simp] theorem tokens_append (ts us : List Lexeme) : tokens (ts ++ us) = tokens ts ++ tokens us :=
  List.map_append

theorem exists_tokens_eq (ts : List Token) : ∃ xs, tokens xs = ts :=
  ⟨ts.map fun t => ⟨t, 0⟩, (List.map_map ..).trans (List.map_id ts)⟩

variable {α β : Type} {n m : Nat}

/-- Fewer tokens are left than were there. -/
theorem length_of_reading {r : Except Fault (Parsed α n)} {a : α} {us : List Lexeme}
    (h : reading r = some (a, us)) : us.length < n := by
  cases r with
  | error f => simp [reading] at h
  | ok p =>
    simp only [reading, Option.some.injEq, Prod.mk.injEq] at h
    exact h.2 ▸ p.shorter

theorem reading_bind {r : Except Fault (Parsed α n)} {f : Parsed α n → Except Fault (Parsed β m)}
    {g : α × List Lexeme → Option (β × List Lexeme)}
    (h : ∀ p, reading (f p) = g (p.value, p.rest)) :
    reading (r >>= f) = (reading r).bind g := by
  cases r with
  | error e => rfl
  | ok p => exact h p

theorem reading_map {r : Except Fault (Parsed α n)} {f : Parsed α n → Except Fault (Parsed β m)}
    {g : α → β} (h : ∀ p, reading (f p) = some (g p.value, p.rest)) :
    reading (r >>= f) = (reading r).map fun x => (g x.1, x.2) := by
  cases r with
  | error e => rfl
  | ok p => exact h p

theorem reading_same {r : Except Fault (Parsed α n)} {f : Parsed α n → Except Fault (Parsed α m)}
    (h : ∀ p, reading (f p) = some (p.value, p.rest)) : reading (r >>= f) = reading r := by
  cases r with
  | error e => rfl
  | ok p => exact h p

/-! ## Fixed tokens -/

/-- The tokens after a given one. -/
def after? (t : Token) : List Lexeme → Option (List Lexeme)
  | [] => none
  | u :: us => if u.token = t then some us else none

/-- The tokens after a given keyword. -/
def afterKeyword? (k : Keyword) : List Lexeme → Option (List Lexeme)
  | [] => none
  | u :: us => if u.token.keyword? = some k then some us else none

@[simp] theorem after?_cons_self (t : Token) (o : Nat) (us : List Lexeme) :
    after? t (⟨t, o⟩ :: us) = some us := if_pos rfl

theorem after?_eq_some_iff {t : Token} {ts us : List Lexeme} :
    after? t ts = some us ↔ ∃ o, ts = ⟨t, o⟩ :: us := by
  cases ts with
  | nil => simp [after?]
  | cons u vs =>
    obtain ⟨v, o⟩ := u
    by_cases h : v = t <;> simp [after?, h]

theorem afterKeyword?_eq_some_iff {k : Keyword} {ts us : List Lexeme} :
    afterKeyword? k ts = some us ↔ ∃ t, t.token.keyword? = some k ∧ ts = t :: us := by
  cases ts with
  | nil => simp [afterKeyword?]
  | cons u vs =>
    by_cases h : u.token.keyword? = some k
    · rw [afterKeyword?, if_pos h, Option.some.injEq]
      constructor
      · rintro rfl
        exact ⟨u, h, rfl⟩
      · rintro ⟨t, -, e⟩
        exact (List.cons.inj e).2
    · rw [afterKeyword?, if_neg h]
      constructor
      · rintro ⟨⟩
      · rintro ⟨t, ht, e⟩
        obtain ⟨rfl, -⟩ := List.cons.inj e
        exact absurd ht h

theorem afterKeyword?_cons {k : Keyword} {t : Lexeme} (h : t.token.keyword? = some k)
    (us : List Lexeme) : afterKeyword? k (t :: us) = some us := if_pos h

/-- A token that is expected is there, or reading fails. -/
theorem expect_cases (t : Token) (reason : Reason) (ts : List Lexeme) :
    (∃ e, expect t reason ts = .error e) ∧ after? t ts = none ∨
      ∃ r, expect t reason ts = .ok r ∧ after? t ts = some r.1 := by
  cases ts with
  | nil => exact .inl ⟨⟨_, rfl⟩, rfl⟩
  | cons u us =>
    unfold expect after?
    by_cases hu : u.token = t
    · exact .inr ⟨_, if_pos hu, if_pos hu⟩
    · exact .inl ⟨⟨_, if_neg hu⟩, if_neg hu⟩

theorem expectKeyword_cases (k : Keyword) (reason : Reason) (ts : List Lexeme) :
    (∃ e, expectKeyword k reason ts = .error e) ∧ afterKeyword? k ts = none ∨
      ∃ r, expectKeyword k reason ts = .ok r ∧ afterKeyword? k ts = some r.1 := by
  cases ts with
  | nil => exact .inl ⟨⟨_, rfl⟩, rfl⟩
  | cons u us =>
    unfold expectKeyword afterKeyword?
    by_cases hu : u.token.keyword? = some k
    · exact .inr ⟨_, if_pos hu, if_pos hu⟩
    · exact .inl ⟨⟨_, if_neg hu⟩, if_neg hu⟩

theorem expect_bind {t : Token} {reason : Reason} {ts : List Lexeme}
    {f : { rest : List Lexeme // rest.length < ts.length } → Except Fault (Parsed β m)}
    {g : List Lexeme → Option (β × List Lexeme)} (h : ∀ r, reading (f r) = g r.1) :
    reading (expect t reason ts >>= f) = (after? t ts).bind g := by
  rcases expect_cases t reason ts with ⟨⟨e, he⟩, hnone⟩ | ⟨r, hr, hsome⟩
  · rw [he, hnone]
    rfl
  · rw [hr, hsome]
    exact h r

theorem expectKeyword_bind {k : Keyword} {reason : Reason} {ts : List Lexeme}
    {f : { rest : List Lexeme // rest.length < ts.length } → Except Fault (Parsed β m)}
    {g : List Lexeme → Option (β × List Lexeme)} (h : ∀ r, reading (f r) = g r.1) :
    reading (expectKeyword k reason ts >>= f) = (afterKeyword? k ts).bind g := by
  rcases expectKeyword_cases k reason ts with ⟨⟨e, he⟩, hnone⟩ | ⟨r, hr, hsome⟩
  · rw [he, hnone]
    rfl
  · rw [hr, hsome]
    exact h r

theorem expect_map {t : Token} {reason : Reason} {ts : List Lexeme} {b : β}
    {f : { rest : List Lexeme // rest.length < ts.length } → Except Fault (Parsed β m)}
    (h : ∀ r, reading (f r) = some (b, r.1)) :
    reading (expect t reason ts >>= f) = (after? t ts).map fun us => (b, us) := by
  rw [expect_bind (g := fun us => some (b, us)) h, Option.map_eq_bind]
  rfl

theorem expectKeyword_map {k : Keyword} {reason : Reason} {ts : List Lexeme} {b : β}
    {f : { rest : List Lexeme // rest.length < ts.length } → Except Fault (Parsed β m)}
    (h : ∀ r, reading (f r) = some (b, r.1)) :
    reading (expectKeyword k reason ts >>= f) = (afterKeyword? k ts).map fun us => (b, us) := by
  rw [expectKeyword_bind (g := fun us => some (b, us)) h, Option.map_eq_bind]
  rfl

theorem expect_eq_ok_iff {t : Token} {reason : Reason} {ts us : List Lexeme} :
    (expect t reason ts).map Subtype.val = .ok us ↔ after? t ts = some us := by
  rcases expect_cases t reason ts with ⟨⟨e, he⟩, hnone⟩ | ⟨r, hr, hsome⟩
  · simp [he, hnone, Except.map]
  · simp [hr, hsome, Except.map]

theorem eatKeyword_of_eq {k : Keyword} {t : Lexeme} (h : t.token.keyword? = some k)
    (us : List Lexeme) : (eatKeyword k (t :: us)).1 = true ∧ (eatKeyword k (t :: us)).2.1 = us := by
  simp [eatKeyword, h]

theorem eatKeyword_of_ne {k : Keyword} {ts : List Lexeme} (h : headKeyword? ts ≠ some k) :
    (eatKeyword k ts).1 = false ∧ (eatKeyword k ts).2.1 = ts := by
  cases ts with
  | nil => simp [eatKeyword]
  | cons t us =>
    have h' : t.token.keyword? ≠ some k := h
    simp [eatKeyword, h']

/-! ## Operators -/

theorem reading_chain (l : Level) (ts : List Lexeme) :
    reading (chain l ts) =
      (reading (operand l ts)).bind fun x => reading (chainTail l x.1 x.2) := by
  rw [chain]
  exact reading_bind fun p => reading_same fun q => rfl

@[simp] theorem reading_chainTail_nil (l : Level) (left : Expr) :
    reading (chainTail l left []) = some (left, []) := by
  rw [chainTail]; rfl

theorem reading_chainTail_of_some {l : Level} {t : Lexeme} {op : BinaryOp}
    (h : l.operator? t.token = some op) (left : Expr) (us : List Lexeme) :
    reading (chainTail l left (t :: us)) =
      (reading (operand l us)).bind fun x => reading (chainTail l (.binary op left x.1) x.2) := by
  rw [chainTail, h]
  exact reading_bind fun p => reading_same fun q => rfl

theorem reading_chainTail_of_none {l : Level} {t : Lexeme} (h : l.operator? t.token = none)
    (left : Expr) (us : List Lexeme) :
    reading (chainTail l left (t :: us)) = some (left, t :: us) := by
  rw [chainTail, h]; rfl

@[simp] theorem operand_disjunction (ts : List Lexeme) :
    operand .disjunction ts = chain .conjunction ts := by rw [operand]

@[simp] theorem operand_conjunction (ts : List Lexeme) :
    operand .conjunction ts = negation ts := by rw [operand]

@[simp] theorem operand_sum (ts : List Lexeme) : operand .sum ts = chain .product ts := by
  rw [operand]

@[simp] theorem operand_product (ts : List Lexeme) : operand .product ts = signed ts := by
  rw [operand]

theorem negation_nil : negation [] = predicate [] := by rw [negation]

theorem reading_negation_of_not {t : Lexeme} (h : t.token.keyword? = some .not)
    (us : List Lexeme) :
    reading (negation (t :: us)) = (reading (negation us)).map fun x => (.unary .not x.1, x.2) := by
  rw [negation, if_pos h]
  exact reading_map fun p => rfl

theorem negation_of_ne {t : Lexeme} (h : t.token.keyword? ≠ some .not) (us : List Lexeme) :
    negation (t :: us) = predicate (t :: us) := by
  rw [negation, if_neg h]

theorem reading_signed_minus (o : Nat) (us : List Lexeme) :
    reading (signed (⟨.minus, o⟩ :: us)) =
      (reading (signed us)).map fun x => (.unary .neg x.1, x.2) := by
  rw [signed]
  exact reading_map fun p => rfl

theorem reading_signed_plus (o : Nat) (us : List Lexeme) :
    reading (signed (⟨.plus, o⟩ :: us)) = reading (signed us) := by
  rw [signed]
  exact reading_same fun p => rfl

theorem signed_of_ne {ts : List Lexeme} (hm : ∀ o us, ts ≠ ⟨.minus, o⟩ :: us)
    (hp : ∀ o us, ts ≠ ⟨.plus, o⟩ :: us) : signed ts = primary ts := by
  rw [signed]
  · exact hm
  · exact hp

/-! ## Predicates -/

theorem reading_predicate (ts : List Lexeme) :
    reading (predicate ts) =
      (reading (chain .sum ts)).bind fun x => reading (predicateTail x.1 x.2) := by
  rw [predicate]
  exact reading_bind fun p => reading_same fun q => rfl

@[simp] theorem reading_predicateTail_nil (left : Expr) :
    reading (predicateTail left []) = some (left, []) := by
  rw [predicateTail]; rfl

theorem reading_predicateTail_of_comparison {t : Lexeme} {op : BinaryOp}
    (h : comparison? t.token = some op) (left : Expr) (us : List Lexeme) :
    reading (predicateTail left (t :: us)) =
      (reading (chain .sum us)).map fun x => (.binary op left x.1, x.2) := by
  rw [predicateTail, h]
  exact reading_map fun p => rfl

theorem reading_predicateTail_is {t : Lexeme} (hc : comparison? t.token = none)
    (h : t.token.keyword? = some .is) (left : Expr) (us : List Lexeme) :
    reading (predicateTail left (t :: us)) =
      (afterKeyword? .null (eatKeyword .not us).2.1).map fun vs =>
        (.isNull (eatKeyword .not us).1 left, vs) := by
  rw [predicateTail, hc, h]
  exact expectKeyword_map fun r => rfl

theorem reading_predicateTail_not {t : Lexeme} (hc : comparison? t.token = none)
    (h : t.token.keyword? = some .not) {us : List Lexeme} (hr : startsRange us = true)
    (left : Expr) : reading (predicateTail left (t :: us)) = reading (rangeTail true left us) := by
  rw [predicateTail, hc, h]
  simp only [hr, if_true]
  exact reading_same fun p => rfl

theorem reading_predicateTail_not_of_not {t : Lexeme} (hc : comparison? t.token = none)
    (h : t.token.keyword? = some .not) {us : List Lexeme} (hr : startsRange us = false)
    (left : Expr) : reading (predicateTail left (t :: us)) = some (left, t :: us) := by
  rw [predicateTail, hc, h]
  simp only [hr, Bool.false_eq_true, if_false]
  rfl

theorem predicateTail_of_ne {t : Lexeme} (hc : comparison? t.token = none)
    (hi : t.token.keyword? ≠ some .is) (hn : t.token.keyword? ≠ some .not) (left : Expr)
    (us : List Lexeme) : predicateTail left (t :: us) = rangeTail false left (t :: us) := by
  rw [predicateTail, hc]
  split
  · simp_all
  · simp_all
  · simp_all
  · rfl

@[simp] theorem reading_rangeTail_nil (negated : Bool) (left : Expr) :
    reading (rangeTail negated left []) = some (left, []) := by
  rw [rangeTail]; rfl

theorem reading_rangeTail_between {t : Lexeme} (h : t.token.keyword? = some .between)
    (negated : Bool) (left : Expr) (us : List Lexeme) :
    reading (rangeTail negated left (t :: us)) =
      (reading (chain .sum us)).bind fun x => (afterKeyword? .and x.2).bind fun vs =>
        (reading (chain .sum vs)).map fun y => (.between negated left x.1 y.1, y.2) := by
  rw [rangeTail, h]
  exact reading_bind fun p => expectKeyword_bind fun r => reading_map fun q => rfl

theorem reading_rangeTail_in {t : Lexeme} (h : t.token.keyword? = some .in_)
    (negated : Bool) (left : Expr) (us : List Lexeme) :
    reading (rangeTail negated left (t :: us)) =
      (after? .lparen us).bind fun vs =>
        if headKeyword? vs = some .select then none
        else (reading (expressions vs)).bind fun x =>
          (after? .rparen x.2).map fun ws => (.inList negated left x.1, ws) := by
  rw [rangeTail, h]
  refine expect_bind fun r => ?_
  dsimp only
  split
  · rfl
  · exact reading_bind fun p => expect_map fun r => rfl

theorem reading_rangeTail_like {t : Lexeme} (h : t.token.keyword? = some .like)
    (negated : Bool) (left : Expr) (us : List Lexeme) :
    reading (rangeTail negated left (t :: us)) =
      (reading (chain .sum us)).map fun x => (.like negated left x.1, x.2) := by
  rw [rangeTail, h]
  exact reading_map fun p => rfl

theorem reading_rangeTail_of_ne {t : Lexeme} {us : List Lexeme}
    (h : startsRange (t :: us) = false) (negated : Bool) (left : Expr) :
    reading (rangeTail negated left (t :: us)) = some (left, t :: us) := by
  have hk : t.token.keyword? ≠ some .between ∧ t.token.keyword? ≠ some .in_ ∧
      t.token.keyword? ≠ some .like := by
    refine ⟨fun e => ?_, fun e => ?_, fun e => ?_⟩ <;> simp [startsRange, headKeyword?, e] at h
  rw [rangeTail]
  split
  · simp_all
  · simp_all
  · simp_all
  · rfl

/-! ## Names -/

theorem reading_nameParts_dot (parts : List String) (last : Place) (o : Nat) {t : Lexeme}
    {name : String} (h : t.token.name? = some name) (us : List Lexeme) :
    reading (nameParts parts last (⟨.dot, o⟩ :: t :: us)) =
      reading (nameParts (parts ++ [name]) (.byte t.offset) us) := by
  rw [nameParts, h]
  exact reading_same fun p => rfl

theorem reading_nameParts_dot_of_none (parts : List String) (last : Place) (o : Nat)
    {us : List Lexeme} (h : (us.head?.bind fun t => t.token.name?) = none) :
    reading (nameParts parts last (⟨.dot, o⟩ :: us)) = none := by
  cases us with
  | nil => rw [nameParts]; rfl
  | cons t vs =>
    have h' : t.token.name? = none := h
    rw [nameParts, h']
    rfl

theorem reading_nameParts_of_ne (parts : List String) (last : Place) {ts : List Lexeme}
    (h : ∀ o us, ts ≠ ⟨.dot, o⟩ :: us) :
    reading (nameParts parts last ts) = some (⟨parts, last⟩, ts) := by
  rw [nameParts]
  · rfl
  · exact h

/-! ## Primaries -/

@[simp] theorem reading_primary_nil : reading (primary []) = none := by
  rw [primary_nil]; rfl

theorem reading_primary_number (n : String) (o : Nat) (us : List Lexeme) :
    reading (primary (⟨.number n, o⟩ :: us)) = some (.number n, us) := by
  rw [primary]; rfl

theorem reading_primary_text (s : String) (o : Nat) (us : List Lexeme) :
    reading (primary (⟨.text s, o⟩ :: us)) = some (.text s, us) := by
  rw [primary]; rfl

theorem reading_primary_date (d : String) (o : Nat) (us : List Lexeme) :
    reading (primary (⟨.date d, o⟩ :: us)) = some (.date d, us) := by
  rw [primary]; rfl

theorem reading_primary_paren (o : Nat) (us : List Lexeme) :
    reading (primary (⟨.lparen, o⟩ :: us)) =
      if headKeyword? us = some .select then none
      else (reading (chain .disjunction us)).bind fun x =>
        (after? .rparen x.2).map fun vs => (.nested x.1, vs) := by
  rw [primary]
  dsimp only
  split
  · rfl
  · exact reading_bind fun p => expect_map fun r => rfl

/-- The column of a name, if it is not too long. -/
def column? (name : DottedName) : Option Expr :=
  if name.parts.length > 2 then none else some (.column name.parts)

theorem columnOf_bind {name : DottedName} {f : Expr → Except Fault (Parsed β m)}
    {g : Expr → Option (β × List Lexeme)} (h : ∀ e, reading (f e) = g e) :
    reading (columnOf name >>= f) = (column? name).bind g := by
  unfold columnOf column?
  split
  · rfl
  · exact h _

theorem reading_primary_quoted (name : String) (o : Nat) (us : List Lexeme) :
    reading (primary (⟨.quoted name, o⟩ :: us)) =
      (reading (nameParts [name] (.byte o) us)).bind fun x =>
        (column? x.1).map fun e => (e, x.2) := by
  rw [primary]
  refine reading_bind fun p => ?_
  rw [Option.map_eq_bind]
  exact columnOf_bind fun e => rfl

theorem reading_primary_null {w : String} (h : Keyword.ofWord? w = some .null) (o : Nat)
    (us : List Lexeme) : reading (primary (⟨.word w, o⟩ :: us)) = some (.null, us) := by
  rw [primary]
  simp only [h]
  rfl

theorem reading_primary_currentTimestamp {w : String}
    (h : Keyword.ofWord? w = some .currentTimestamp) (o : Nat) (us : List Lexeme) :
    reading (primary (⟨.word w, o⟩ :: us)) = some (.call .now [], us) := by
  rw [primary]
  simp only [h]
  rfl

/-- The tree of a call, if it is one. -/
def callTree? (name : String) (args : List Expr) : Option Expr := (callTree name args).toOption

theorem reading_primary_call {w : String} (hn : Keyword.ofWord? w ≠ some .null)
    (hc : Keyword.ofWord? w ≠ some .currentTimestamp) (o o' : Nat) (us : List Lexeme) :
    reading (primary (⟨.word w, o⟩ :: ⟨.lparen, o'⟩ :: us)) =
      (reading (arguments us)).bind fun x => (callTree? w x.1).map fun e => (e, x.2) := by
  rw [primary]
  dsimp only
  split
  · simp_all
  · simp_all
  · refine reading_bind fun p => ?_
    dsimp only
    unfold callTree?
    split <;> rename_i hw <;> rw [hw] <;> rfl

theorem reading_primary_word {w : String} (h : Keyword.ofWord? w = none) (o : Nat)
    {us : List Lexeme} (hp : ∀ o vs, us ≠ ⟨.lparen, o⟩ :: vs) :
    reading (primary (⟨.word w, o⟩ :: us)) =
      (reading (nameParts [w] (.byte o) us)).bind fun x =>
        (column? x.1).map fun e => (e, x.2) := by
  rw [primary]
  dsimp only
  split
  · simp_all
  · simp_all
  · split
    · exact absurd rfl (hp _ _)
    · rw [h]
      refine reading_bind fun p => ?_
      rw [Option.map_eq_bind]
      exact columnOf_bind fun e => rfl

theorem reading_primary_keyword {w : String} {k : Keyword} (h : Keyword.ofWord? w = some k)
    (hn : k ≠ .null) (hc : k ≠ .currentTimestamp) (o : Nat) {us : List Lexeme}
    (hp : ∀ o vs, us ≠ ⟨.lparen, o⟩ :: vs) : reading (primary (⟨.word w, o⟩ :: us)) = none := by
  rw [primary]
  dsimp only
  split
  · simp_all
  · simp_all
  · split
    · exact absurd rfl (hp _ _)
    · rw [h]
      split <;> first | rfl | simp_all

theorem reading_primary_of_ne {t : Token} (hw : ∀ w, t ≠ .word w) (hq : ∀ n, t ≠ .quoted n)
    (hn : ∀ n, t ≠ .number n) (ht : ∀ s, t ≠ .text s) (hd : ∀ d, t ≠ .date d)
    (hl : t ≠ .lparen) (o : Nat) (us : List Lexeme) :
    reading (primary (⟨t, o⟩ :: us)) = none := by
  rw [primary]
  cases t with
  | word w => exact absurd rfl (hw w)
  | quoted n => exact absurd rfl (hq n)
  | number n => exact absurd rfl (hn n)
  | text s => exact absurd rfl (ht s)
  | date d => exact absurd rfl (hd d)
  | lparen => exact absurd rfl hl
  | _ => rfl

/-! ## Lists of expressions -/

@[simp] theorem reading_arguments_rparen (o : Nat) (us : List Lexeme) :
    reading (arguments (⟨.rparen, o⟩ :: us)) = some ([], us) := by
  rw [arguments]; rfl

theorem reading_arguments_of_ne {ts : List Lexeme} (h : ∀ o us, ts ≠ ⟨.rparen, o⟩ :: us) :
    reading (arguments ts) =
      (reading (expressions ts)).bind fun x => (after? .rparen x.2).map fun us => (x.1, us) := by
  rw [arguments]
  · exact reading_bind fun p => expect_map fun r => rfl
  · exact h

theorem reading_expressions (ts : List Lexeme) :
    reading (expressions ts) =
      (reading (chain .disjunction ts)).bind fun x =>
        (reading (moreExpressions x.2)).map fun y => (x.1 :: y.1, y.2) := by
  rw [expressions]
  exact reading_bind fun p => reading_map fun q => rfl

theorem reading_moreExpressions_comma (o : Nat) (us : List Lexeme) :
    reading (moreExpressions (⟨.comma, o⟩ :: us)) = reading (expressions us) := by
  rw [moreExpressions]
  exact reading_same fun p => rfl

theorem reading_moreExpressions_of_ne {ts : List Lexeme} (h : ∀ o us, ts ≠ ⟨.comma, o⟩ :: us) :
    reading (moreExpressions ts) = some ([], ts) := by
  rw [moreExpressions]
  · rfl
  · exact h

/-! ## Queries -/

theorem toOption_eq_some_iff {γ : Type} {r : Except Fault γ} {a : γ} :
    r.toOption = some a ↔ r = .ok a := by
  cases r <;> simp [Except.toOption]

theorem toOption_bind {γ δ : Type} {r : Except Fault γ} {f : γ → Except Fault δ}
    {g : γ → Option δ} (h : ∀ a, (f a).toOption = g a) :
    (r >>= f).toOption = r.toOption.bind g := by
  cases r with
  | error e => rfl
  | ok a => exact h a

theorem reading_toOption_bind {γ : Type} {r : Except Fault (Parsed α n)}
    {f : Parsed α n → Except Fault γ} {g : α × List Lexeme → Option γ}
    (h : ∀ p, (f p).toOption = g (p.value, p.rest)) :
    (r >>= f).toOption = (reading r).bind g := by
  cases r with
  | error e => rfl
  | ok p => exact h p

theorem expect_toOption_bind {γ : Type} {t : Token} {reason : Reason} {ts : List Lexeme}
    {f : { rest : List Lexeme // rest.length < ts.length } → Except Fault γ}
    {g : List Lexeme → Option γ} (h : ∀ r, (f r).toOption = g r.1) :
    (expect t reason ts >>= f).toOption = (after? t ts).bind g := by
  rcases expect_cases t reason ts with ⟨⟨e, he⟩, hnone⟩ | ⟨r, hr, hsome⟩
  · rw [he, hnone]
    rfl
  · rw [hr, hsome]
    exact h r

theorem expectKeyword_toOption_bind {γ : Type} {k : Keyword} {reason : Reason} {ts : List Lexeme}
    {f : { rest : List Lexeme // rest.length < ts.length } → Except Fault γ}
    {g : List Lexeme → Option γ} (h : ∀ r, (f r).toOption = g r.1) :
    (expectKeyword k reason ts >>= f).toOption = (afterKeyword? k ts).bind g := by
  rcases expectKeyword_cases k reason ts with ⟨⟨e, he⟩, hnone⟩ | ⟨r, hr, hsome⟩
  · rw [he, hnone]
    rfl
  · rw [hr, hsome]
    exact h r

theorem toOption_argument_star (f : AggregateFunction) (distinct : Bool) (o : Nat)
    (us : List Lexeme) :
    (aggregate.argument f distinct (⟨.star, o⟩ :: us)).toOption =
      if f = .count ∧ distinct = false then some (.star, us) else none := by
  unfold aggregate.argument
  dsimp only
  split <;> rfl

theorem toOption_argument_of_ne (f : AggregateFunction) (distinct : Bool) {ts : List Lexeme}
    (h : ∀ o us, ts ≠ ⟨.star, o⟩ :: us) :
    (aggregate.argument f distinct ts).toOption =
      (reading (chain .disjunction ts)).map fun x => (.expr x.1, x.2) := by
  unfold aggregate.argument
  split
  · exact absurd rfl (h _ _)
  · rw [Option.map_eq_bind]
    exact reading_toOption_bind fun p => rfl

theorem toOption_aggregate {w : String} {f : AggregateFunction}
    (h : AggregateFunction.ofWord? w = some f) (o : Nat) (us : List Lexeme) :
    (aggregate (⟨.word w, o⟩ :: us)).toOption =
      (after? .lparen us).bind fun vs =>
        ((aggregate.argument f (eatKeyword .distinct vs).1
          (eatKeyword .distinct vs).2.1).toOption).bind fun x =>
            (after? .rparen x.2).map fun ws => (⟨f, (eatKeyword .distinct vs).1, x.1⟩, ws) := by
  simp only [aggregate, h]
  refine expect_toOption_bind fun r => ?_
  refine toOption_bind fun x => ?_
  rw [Option.map_eq_bind]
  exact expect_toOption_bind fun r => rfl

theorem toOption_aggregate_of_none {ts : List Lexeme}
    (h : ∀ w o us, ts = ⟨.word w, o⟩ :: us → AggregateFunction.ofWord? w = none) :
    (aggregate ts).toOption = none := by
  unfold aggregate
  split
  · rw [h _ _ _ rfl]
    rfl
  · rfl

theorem toOption_dropTableHints_with {t : Lexeme} (h : t.token.keyword? = some .with_)
    (us : List Lexeme) :
    (dropTableHints (t :: us)).toOption =
      (after? .lparen us).bind fun vs => (dropHints vs).toOption := by
  unfold dropTableHints
  rw [if_pos (show headKeyword? (t :: us) = some .with_ from h)]
  exact expect_toOption_bind fun r => rfl

theorem toOption_filter_where {t : Lexeme} (h : t.token.keyword? = some .where_)
    (us : List Lexeme) :
    (filter (t :: us)).toOption =
      (reading (chain .disjunction us)).map fun x => (some x.1, x.2) := by
  unfold filter
  rw [if_pos (show headKeyword? (t :: us) = some .where_ from h), Option.map_eq_bind]
  exact reading_toOption_bind fun p => rfl

theorem filter_of_ne {ts : List Lexeme} (h : headKeyword? ts ≠ some .where_) :
    filter ts = .ok (none, ts) := if_neg h

theorem reading_dottedName {t : Lexeme} {name : String} (h : t.token.name? = some name)
    (reason : Reason) (us : List Lexeme) :
    reading (dottedName reason (t :: us)) = reading (nameParts [name] (.byte t.offset) us) := by
  simp only [dottedName, h]
  exact reading_same fun p => rfl

theorem reading_dottedName_of_none {ts : List Lexeme}
    (h : (ts.head?.bind fun t => t.token.name?) = none) (reason : Reason) :
    reading (dottedName reason ts) = none := by
  cases ts with
  | nil => rfl
  | cons t us =>
    have h' : t.token.name? = none := h
    simp only [dottedName, h']
    rfl

/-- The table of a name, if it is not too long. -/
def tableOf? (name : DottedName) : Option TableName :=
  match name.parts with
  | [table] => some ⟨none, table⟩
  | [schema, table] => some ⟨some schema, table⟩
  | _ => none

theorem toOption_table (ts : List Lexeme) :
    (table ts).toOption =
      (reading (dottedName .tableExpected ts)).bind fun x =>
        if table.opensCall x.2 then none else (tableOf? x.1).map fun n => (n, x.2) := by
  refine reading_toOption_bind fun p => ?_
  dsimp only
  split
  · rfl
  · unfold tableOf?
    rcases p.value.parts with _ | ⟨a, _ | ⟨b, _ | ⟨c, rest⟩⟩⟩ <;> rfl

theorem aggregate_top {w : String} (h : Keyword.ofWord? w = some .top) :
    AggregateFunction.ofWord? w = none := by
  have hw := List.find?_some h
  rw [beq_iff_eq] at hw
  rw [AggregateFunction.ofWord?, ← hw]
  rfl

/-- The remarks on TOP and on a second aggregate only say more about what fails anyway. -/
theorem toOption_query (ts : List Lexeme) :
    (query ts).toOption =
      (aggregate (eatKeyword .select ts).2.1).toOption.bind fun x =>
        (dropAlias x.2).toOption.bind fun ws =>
          (afterKeyword? .from_ ws).bind fun xs =>
            (table xs).toOption.bind fun y =>
              (dropTableHints y.2).toOption.bind fun zs =>
                (filter zs).toOption.bind fun z =>
                  if z.2 = [] then some ⟨x.1, y.1, z.1⟩ else none := by
  unfold query
  dsimp only
  split
  · rename_i ht
    rw [toOption_aggregate_of_none]
    · rfl
    · intro w o us e
      rw [e] at ht
      exact aggregate_top ht
  refine toOption_bind fun x => toOption_bind fun ws => ?_
  split
  · rename_i hc
    cases ws with
    | nil => rfl
    | cons t ws =>
      have ht : t.token = .comma := Option.some.inj hc
      simp [afterKeyword?, ht, Token.keyword?]
      rfl
  refine expectKeyword_toOption_bind fun r => toOption_bind fun y => toOption_bind fun zs =>
    toOption_bind fun z => ?_
  split <;> simp_all <;> rfl

end MetricBoard.Expression
