import MetricBoard.Proofs.Expression.Soundness

/-!
# What an expression begins and ends with

A reader looks at the first token of an expression to choose what to read, and at the token behind
it to decide that it is over. `beginsAs_of_derives` says which tokens an expression of a tier may
begin with. `Follows` says which tokens let the reader of a tier stop behind a tree: a comparison,
IS, BETWEEN, IN or LIKE goes on with a sum, but not with a tree that already ends in a predicate.
-/

namespace MetricBoard.Expression

/-! ## The first token -/

/-- The tokens that a literal, a name, a call or an expression in parentheses begins with. -/
def Token.opensPrimary : Token → Bool
  | .number _ | .text _ | .date _ | .quoted _ | .lparen => true
  | .word w =>
    match Keyword.ofWord? w with
    | none | some .null | some .currentTimestamp => true
    | _ => false
  | _ => false

theorem Token.opensPrimary_word {w : String} : (Token.word w).opensPrimary = true ↔
    Keyword.ofWord? w = none ∨ Keyword.ofWord? w = some .null ∨
      Keyword.ofWord? w = some .currentTimestamp := by
  simp only [Token.opensPrimary]
  split <;> simp_all

/-- Whether an expression of a tier may begin with a sign. -/
def Tier.admitsSign : Tier → Bool
  | primary => false
  | _ => true

/-- Whether an expression of a tier may begin with NOT. -/
def Tier.admitsNot : Tier → Bool
  | disjunction | conjunction | negation => true
  | _ => false

/-- A token that an expression of a tier may begin with. -/
def Opens (p : Tier) (t : Token) : Prop :=
  t.opensPrimary = true ∨ (p.admitsSign = true ∧ (t = .plus ∨ t = .minus)) ∨
    (p.admitsNot = true ∧ t.keyword? = some .not)

theorem Opens.of_next? {p q : Tier} (h : p.next? = some q) {t : Token} (ht : Opens q t) :
    Opens p t := by
  rcases ht with ht | ⟨hq, ht⟩ | ⟨hq, ht⟩
  · exact Or.inl ht
  · refine Or.inr (.inl ⟨?_, ht⟩)
    cases p <;> cases q <;> simp_all [Tier.next?, Tier.admitsSign]
  · refine Or.inr (.inr ⟨?_, ht⟩)
    cases p <;> cases q <;> simp_all [Tier.next?, Tier.admitsNot]

theorem Opens.keyword?_ne {p : Tier} {t : Token} (h : Opens p t) {k : Keyword}
    (hnull : k ≠ .null) (hnow : k ≠ .currentTimestamp) (hnot : k ≠ .not) :
    t.keyword? ≠ some k := by
  intro hk
  rcases h with h | ⟨-, rfl | rfl⟩ | ⟨-, h⟩
  · cases t with
    | word w =>
      have hw : Keyword.ofWord? w = some k := hk
      simp [Token.opensPrimary_word, hw, hnull, hnow] at h
    | _ => contradiction
  · contradiction
  · contradiction
  · rw [hk] at h
    exact hnot (Option.some.inj h)

theorem Opens.keyword?_ne_not {p : Tier} (hp : p.admitsNot = false) {t : Token} (h : Opens p t) :
    t.keyword? ≠ some .not := by
  intro hk
  rcases h with h | ⟨-, rfl | rfl⟩ | ⟨h, -⟩
  · cases t with
    | word w =>
      have hw : Keyword.ofWord? w = some .not := hk
      simp [Token.opensPrimary_word, hw] at h
    | _ => contradiction
  · contradiction
  · contradiction
  · simp [hp] at h

theorem Opens.ne_sign {t : Token} (h : Opens .primary t) : t ≠ .minus ∧ t ≠ .plus := by
  rcases h with h | ⟨h, -⟩ | ⟨h, -⟩
  · constructor <;> rintro rfl <;> contradiction
  · simp [Tier.admitsSign] at h
  · simp [Tier.admitsNot] at h

theorem Opens.ne_mark {p : Tier} {t : Token} (h : Opens p t) : t ≠ .rparen ∧ t ≠ .star := by
  rcases h with h | ⟨-, rfl | rfl⟩ | ⟨-, h⟩
  · constructor <;> rintro rfl <;> contradiction
  · simp
  · simp
  · constructor <;> rintro rfl <;> simp [Token.keyword?] at h

/-- The name of a recognised function is not reserved. -/
theorem Calls.ofWord?_eq_none {w : String} {args : List Expr} {e : Expr} (h : Calls w args e) :
    Keyword.ofWord? w = none := by
  obtain ⟨f, hw, -⟩ := tree_of_calls h
  rw [Keyword.ofWord?, hw]
  cases f <;> rfl

theorem opensPrimary_of_name? {t : Token} {name : String} (h : t.name? = some name) :
    t.opensPrimary = true := by
  cases t with
  | word w =>
    cases hw : Keyword.ofWord? w with
    | none => exact Token.opensPrimary_word.2 (.inl hw)
    | some k => simp [Token.name?, hw] at h
  | quoted _ => rfl
  | _ => contradiction

theorem opensPrimary_of_keyword? {t : Token} {k : Keyword} (h : t.keyword? = some k)
    (hk : k = .null ∨ k = .currentTimestamp) : t.opensPrimary = true := by
  cases t with
  | word w =>
    have hw : Keyword.ofWord? w = some k := h
    rcases hk with rfl | rfl <;> simp [Token.opensPrimary_word, hw]
  | _ => contradiction

/-- Tokens that are not empty and begin as an expression of a tier may. -/
def BeginsAs (p : Tier) (ts : List Token) : Prop := ∃ t us, ts = t :: us ∧ Opens p t

theorem BeginsAs.append {p : Tier} {ts : List Token} (h : BeginsAs p ts) (us : List Token) :
    BeginsAs p (ts ++ us) := by
  obtain ⟨t, vs, rfl, ht⟩ := h
  exact ⟨t, vs ++ us, rfl, ht⟩

theorem BeginsAs.of_next? {p q : Tier} (h : p.next? = some q) {ts : List Token}
    (hts : BeginsAs q ts) : BeginsAs p ts := by
  obtain ⟨t, us, rfl, ht⟩ := hts
  exact ⟨t, us, rfl, ht.of_next? h⟩

theorem beginsAs_of_derives {p : Tier} {ts : List Token} {e : Expr} (h : Derives p ts e) :
    BeginsAs p ts := by
  induction h with
  | tighter hn _ ih => exact ih.of_next? hn
  | join _ _ _ _ ih _ => exact ih.append _
  | not hk _ _ => exact ⟨_, _, rfl, Or.inr (.inr ⟨rfl, hk⟩)⟩
  | compare _ _ _ ih _ | isNull _ _ _ _ ih | between _ _ _ _ _ _ ih _ _
  | inList _ _ _ _ _ ih _ | like _ _ _ _ ih _ => exact (ih.append _).of_next? rfl
  | neg _ _ => exact ⟨_, _, rfl, Or.inr (.inl ⟨rfl, .inr rfl⟩)⟩
  | plus _ _ => exact ⟨_, _, rfl, Or.inr (.inl ⟨rfl, .inl rfl⟩)⟩
  | number _ | text _ | date _ => exact ⟨_, _, rfl, Or.inl rfl⟩
  | null hk => exact ⟨_, _, rfl, Or.inl (opensPrimary_of_keyword? hk (.inl rfl))⟩
  | currentTimestamp hk => exact ⟨_, _, rfl, Or.inl (opensPrimary_of_keyword? hk (.inr rfl))⟩
  | column hn | qualifiedColumn hn _ => exact ⟨_, _, rfl, Or.inl (opensPrimary_of_name? hn)⟩
  | nested _ _ => exact ⟨_, _, rfl, Or.inl rfl⟩
  | call _ hc _ => exact ⟨_, _, rfl, Or.inl (Token.opensPrimary_word.2 (.inl hc.ofWord?_eq_none))⟩

/-! ## The token behind -/

namespace Expr

/-- Whether a tree ends in a comparison, IS, BETWEEN, IN or LIKE that is not in parentheses. Such
a predicate takes no second one. -/
def endsInPredicate : Expr → Bool
  | .unary .not e => e.endsInPredicate
  | .binary .and _ r | .binary .or _ r => r.endsInPredicate
  | .binary .eq _ _ | .binary .ne _ _ | .binary .lt _ _ | .binary .le _ _ | .binary .gt _ _
  | .binary .ge _ _ | .isNull _ _ | .between _ _ _ _ | .inList _ _ _ | .like _ _ _ => true
  | _ => false

/-- Whether a tree is a sum: neither joined by AND or OR, nor negated by NOT, nor a predicate. -/
def isSum : Expr → Bool
  | .unary .not _ | .binary .and _ _ | .binary .or _ _ | .binary .eq _ _ | .binary .ne _ _
  | .binary .lt _ _ | .binary .le _ _ | .binary .gt _ _ | .binary .ge _ _ | .isNull _ _
  | .between _ _ _ _ | .inList _ _ _ | .like _ _ _ => false
  | _ => true

theorem endsInPredicate_of_isSum {e : Expr} (h : e.isSum = true) : e.endsInPredicate = false := by
  cases e with
  | unary op _ => cases op <;> first | rfl | contradiction
  | binary op _ _ => cases op <;> first | rfl | contradiction
  | isNull _ _ | between _ _ _ _ | inList _ _ _ | like _ _ _ => contradiction
  | _ => rfl

end Expr

theorem Compares.endsInPredicate {t : Token} {op : BinaryOp} (h : Compares t op) (l r : Expr) :
    (Expr.binary op l r).endsInPredicate = true := by
  cases h <;> rfl

theorem Calls.isSum {w : String} {args : List Expr} {e : Expr} (h : Calls w args e) :
    e.isSum = true := by
  cases h with
  | coalesce _ hc => cases hc <;> rfl
  | _ => rfl

/-- Whether a tier lies below the predicates. -/
def Tier.isArithmetic : Tier → Bool
  | sum | product | signed | primary => true
  | _ => false

theorem isSum_of_derives {p : Tier} {ts : List Token} {e : Expr} (h : Derives p ts e) :
    p.isArithmetic = true → e.isSum = true := by
  induction h with
  | @tighter p q _ _ hn _ ih =>
    intro hp
    apply ih
    cases p <;> cases q <;> simp_all [Tier.next?, Tier.isArithmetic]
  | join hj _ _ _ _ _ =>
    intro hp
    cases hj <;> first | rfl | contradiction
  | plus _ ih => exact ih
  | call _ hc _ => exact fun _ => hc.isSum
  | not _ _ _ | compare _ _ _ _ _ | isNull _ _ _ _ _ | between _ _ _ _ _ _ _ _ _
  | inList _ _ _ _ _ _ _ | like _ _ _ _ _ _ => exact fun hp => absurd hp (by decide)
  | _ => exact fun _ => rfl

/-- Whether a predicate goes on with some tokens: a comparison, IS, BETWEEN, IN or LIKE, the last
three also behind NOT. -/
def goesOnPredicate : List Lexeme → Bool
  | [] => false
  | t :: us =>
    (comparison? t.token).isSome || t.token.keyword? == some .is || startsRange (t :: us) ||
      (t.token.keyword? == some .not && startsRange us)

/-- How loose a tier is. -/
def Tier.rank : Tier → Nat
  | disjunction => 7
  | conjunction => 6
  | negation => 5
  | predicate => 4
  | sum => 3
  | product => 2
  | signed => 1
  | primary => 0

theorem Tier.rank_next? {p q : Tier} (h : p.next? = some q) : q.rank + 1 = p.rank := by
  cases p <;> cases h <;> rfl

/-- The tokens behind a tree at which the reader of a tier stops. -/
structure Follows (p : Tier) (e : Expr) (us : List Lexeme) : Prop where
  mark : ∀ t ∈ us.head?, t.token ≠ .dot ∧ t.token ≠ .lparen
  operator (l : Level) : l.tier.rank ≤ p.rank → ∀ t ∈ us.head?, l.operator? t.token = none
  predicate : Tier.rank .predicate ≤ p.rank → e.endsInPredicate = false →
    goesOnPredicate us = false

namespace Follows

variable {p q : Tier} {e e' : Expr} {us : List Lexeme}

theorem nil (p : Tier) (e : Expr) : Follows p e [] :=
  ⟨by simp, by simp, fun _ _ => rfl⟩

theorem of_next? (h : p.next? = some q) (hf : Follows p e us) : Follows q e us := by
  have hr := Tier.rank_next? h
  exact ⟨hf.mark, fun l hl => hf.operator l (by omega), fun hp => hf.predicate (by omega)⟩

/-- Only whether the tree ends in a predicate matters. -/
theorem of_endsInPredicate (hf : Follows p e us) (h : e'.endsInPredicate = e.endsInPredicate) :
    Follows p e' us :=
  ⟨hf.mark, hf.operator, fun hp he => hf.predicate hp (h ▸ he)⟩

/-- Below the predicates the tree does not matter. -/
theorem of_isArithmetic (hp : p.isArithmetic = true) (hf : Follows p e us) : Follows p e' us := by
  refine ⟨hf.mark, hf.operator, fun h => absurd h ?_⟩
  cases p <;> simp_all [Tier.isArithmetic, Tier.rank]

theorem sum_of_predicate (hf : Follows .predicate e us) : Follows .sum e' us :=
  of_isArithmetic rfl (hf.of_next? rfl)

end Follows

theorem word_of_keyword? {t : Token} {k : Keyword} (hk : t.keyword? = some k) :
    ∃ w, t = .word w := by
  cases t with
  | word w => exact ⟨w, rfl⟩
  | _ => contradiction

theorem Level.operator?_of_joins {l : Level} {t : Token} {op : BinaryOp} (h : Joins l.tier t op) :
    l.operator? t = some op := by
  cases l with
  | disjunction => cases h with | or hk => exact if_pos hk
  | conjunction => cases h with | and hk => exact if_pos hk
  | sum => cases h <;> rfl
  | product =>
    cases h with
    | mod hk =>
      obtain ⟨w, rfl⟩ := word_of_keyword? hk
      exact if_pos hk
    | _ => rfl

theorem comparison?_of_compares {t : Token} {op : BinaryOp} (h : Compares t op) :
    comparison? t = some op := by
  cases h <;> rfl

theorem comparison?_of_keyword? {t : Token} {k : Keyword} (hk : t.keyword? = some k) :
    comparison? t = none := by
  obtain ⟨w, rfl⟩ := word_of_keyword? hk
  rfl

theorem goesOnPredicate_of_keyword {t : Lexeme} {k : Keyword} (hk : t.token.keyword? = some k)
    (h : k ∉ [.is, .not, .between, .in_, .like]) (us : List Lexeme) :
    goesOnPredicate (t :: us) = false := by
  have hc := comparison?_of_keyword? hk
  have hr : startsRange (t :: us) = false := by
    simp only [startsRange, headKeyword?, hk]
    split <;> simp_all
  simp only [List.mem_cons, List.not_mem_nil, or_false, not_or] at h
  simp [goesOnPredicate, hc, hr, hk, h.1, h.2.1]

/-- A keyword other than MOD stops the arithmetic tiers, and the tiers above unless it is one of
theirs. -/
theorem follows_of_keyword {p : Tier} {e : Expr} {t : Lexeme} {k : Keyword} {us : List Lexeme}
    (hk : t.token.keyword? = some k) (hm : k ≠ .mod)
    (ha : k = .and → p.rank < Tier.rank .conjunction)
    (ho : k = .or → p.rank < Tier.rank .disjunction)
    (hp : Tier.rank .predicate ≤ p.rank → e.endsInPredicate = false →
      goesOnPredicate (t :: us) = false) : Follows p e (t :: us) := by
  obtain ⟨w, hw⟩ := word_of_keyword? hk
  refine ⟨by simp [hw], ?_, hp⟩
  intro l hl t' ht'
  obtain rfl : t = t' := by simpa using ht'
  rw [hw] at hk ⊢
  cases l with
  | disjunction =>
    rw [Level.operator?, if_neg]
    intro h
    have := ho (Option.some.inj (hk.symm.trans h))
    simp only [Level.tier] at hl
    omega
  | conjunction =>
    rw [Level.operator?, if_neg]
    intro h
    have := ha (Option.some.inj (hk.symm.trans h))
    simp only [Level.tier] at hl
    omega
  | sum => rfl
  | product =>
    rw [Level.operator?, if_neg]
    · exact fun h => hm (Option.some.inj (hk.symm.trans h))
    all_goals simp

/-- A token that is no operator, no word and no mark of a name stops every tier. -/
theorem follows_mark {t : Token} (h : t = .rparen ∨ t = .comma) (p : Tier) (e : Expr) (o : Nat)
    (us : List Lexeme) : Follows p e (⟨t, o⟩ :: us) := by
  refine ⟨?_, ?_, fun _ _ => ?_⟩
  · rcases h with rfl | rfl <;> simp
  · intro l _ t' ht'
    obtain rfl : (⟨t, o⟩ : Lexeme) = t' := by simpa using ht'
    rcases h with rfl | rfl <;> cases l <;> rfl
  · rcases h with rfl | rfl <;> rfl

theorem follows_comparison {t : Lexeme} {op : BinaryOp} (h : Compares t.token op) (e : Expr)
    (us : List Lexeme) : Follows .sum e (t :: us) := by
  obtain ⟨t, o⟩ := t
  refine ⟨?_, ?_, fun hp => absurd hp (by decide)⟩
  · cases h <;> simp
  · intro l _ t' ht'
    obtain rfl : (⟨t, o⟩ : Lexeme) = t' := by simpa using ht'
    cases h <;> cases l <;> rfl

/-- The operator of a level stops its operands. -/
theorem follows_operator {l : Level} {t : Lexeme} {op : BinaryOp} (h : Joins l.tier t.token op)
    (e : Expr) (us : List Lexeme) : Follows l.operandTier e (t :: us) := by
  obtain ⟨t, o⟩ := t
  cases l with
  | disjunction =>
    cases h with
    | or hk =>
      exact follows_of_keyword hk (by simp) (by simp) (fun _ => by decide) fun _ _ =>
        goesOnPredicate_of_keyword hk (by simp) us
  | conjunction =>
    cases h with
    | and hk =>
      exact follows_of_keyword hk (by simp) (fun _ => by decide) (by simp) fun _ _ =>
        goesOnPredicate_of_keyword hk (by simp) us
  | sum =>
    refine ⟨?_, ?_, fun hp => absurd hp (by decide)⟩
    · cases h <;> simp
    · intro l hl t' ht'
      obtain rfl : (⟨t, o⟩ : Lexeme) = t' := by simpa using ht'
      cases l with
      | product => cases h <;> rfl
      | _ => exact absurd hl (by decide)
  | product =>
    refine ⟨?_, fun l hl => absurd hl ?_, fun hp => absurd hp (by decide)⟩
    · cases h with
      | mod hk =>
        obtain ⟨w, rfl⟩ := word_of_keyword? hk
        simp
      | _ => simp
    · cases l <;> decide

end MetricBoard.Expression
