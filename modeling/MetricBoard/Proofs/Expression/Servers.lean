import MetricBoard.Proofs.Expression.Callee
import MetricBoard.Proofs.Expression.Wording

/-!
# The grammar of the servers

How a server reads scalar expressions. Both servers have the tiers of the grammar of expressions,
but for remainders: T-SQL has them on one tier with products and quotients, and the file database
on a tier of their own, looser than products and tighter than sums.

`Expr.regroup` says what becomes of a tree when its tokens are read by a server: a product over a
remainder is read as a remainder by a product. `serverDerives_iff`: the trees that a server reads
are the regrouped trees of the expressions.
-/

namespace MetricBoard.Expression

/-! ## The grammar -/

/-- The tiers of precedence of the servers, the loosest first. -/
inductive Rank where
  | disjunction
  | conjunction
  | negation
  | predicate
  | sum
  | remainder
  | product
  | signed
  | primary
  deriving DecidableEq, Repr

/-- The next tighter rank. -/
def Rank.next? : Rank → Option Rank
  | disjunction => some conjunction
  | conjunction => some negation
  | negation => some predicate
  | predicate => some sum
  | sum => some remainder
  | remainder => some product
  | product => some signed
  | signed => some primary
  | primary => none

/-- The operators that a server joins operands with on a rank, from left to right. -/
inductive Dialect.Binds (d : Dialect) : Rank → Token → BinaryOp → Prop
  | or {t : Token} : t.keyword? = some .or → Binds d .disjunction t .or
  | and {t : Token} : t.keyword? = some .and → Binds d .conjunction t .and
  | add : Binds d .sum .plus .add
  | sub : Binds d .sum .minus .sub
  | mul : Binds d .product .star .mul
  | div : Binds d .product .slash .div
  | percent {schema : String} : d = .tsql schema → Binds d .product .percent .mod
  | mod {t : Token} : d = .access → t.keyword? = some .mod → Binds d .remainder t .mod

/-- The tokens that a server reads as an expression of a rank, and its tree. Calls are told by the
functions that they stand for. -/
inductive ServerDerives (d : Dialect) : Rank → List Token → Expr → Prop
  | tighter {p q : Rank} {ts : List Token} {e : Expr} :
    p.next? = some q → ServerDerives d q ts e → ServerDerives d p ts e
  | join {p q : Rank} {t : Token} {op : BinaryOp} {ts us : List Token} {l r : Expr} :
    d.Binds p t op → p.next? = some q → ServerDerives d p ts l → ServerDerives d q us r →
      ServerDerives d p (ts ++ t :: us) (.binary op l r)
  | not {t : Token} {ts : List Token} {e : Expr} :
    t.keyword? = some .not → ServerDerives d .negation ts e →
      ServerDerives d .negation (t :: ts) (.unary .not e)
  | compare {t : Token} {op : BinaryOp} {ts us : List Token} {l r : Expr} :
    Compares t op → ServerDerives d .sum ts l → ServerDerives d .sum us r →
      ServerDerives d .predicate (ts ++ t :: us) (.binary op l r)
  | isNull {is null : Token} {negated : Bool} {ts ns : List Token} {e : Expr} :
    is.keyword? = some .is → Negates negated ns → null.keyword? = some .null →
      ServerDerives d .sum ts e →
      ServerDerives d .predicate (ts ++ is :: (ns ++ [null])) (.isNull negated e)
  | between {b a : Token} {negated : Bool} {ts ns ls hs : List Token} {e low high : Expr} :
    Negates negated ns → b.keyword? = some .between → a.keyword? = some .and →
      ServerDerives d .sum ts e → ServerDerives d .sum ls low → ServerDerives d .sum hs high →
      ServerDerives d .predicate (ts ++ (ns ++ b :: (ls ++ a :: hs))) (.between negated e low high)
  | inList {i : Token} {negated : Bool} {ts ns : List Token} {e : Expr}
      {items : List (List Token × Expr)} :
    Negates negated ns → i.keyword? = some .in_ → ServerDerives d .sum ts e → items ≠ [] →
      (∀ x ∈ items, ServerDerives d .disjunction x.1 x.2) →
      ServerDerives d .predicate
        (ts ++ (ns ++ i :: .lparen :: (commaJoined (items.map Prod.fst) ++ [.rparen])))
        (.inList negated e (items.map Prod.snd))
  | like {k : Token} {negated : Bool} {ts ns us : List Token} {e pattern : Expr} :
    Negates negated ns → k.keyword? = some .like → ServerDerives d .sum ts e →
      ServerDerives d .sum us pattern →
      ServerDerives d .predicate (ts ++ (ns ++ k :: us)) (.like negated e pattern)
  | neg {ts : List Token} {e : Expr} :
    ServerDerives d .signed ts e → ServerDerives d .signed (.minus :: ts) (.unary .neg e)
  | plus {ts : List Token} {e : Expr} :
    ServerDerives d .signed ts e → ServerDerives d .signed (.plus :: ts) e
  /-- A literal, a column or the current moment. -/
  | leaf {ts : List Token} {e : Expr} :
    Derives .primary ts e → .lparen ∉ ts → ServerDerives d .primary ts e
  | nested {ts : List Token} {e : Expr} :
    ServerDerives d .disjunction ts e →
      ServerDerives d .primary (.lparen :: (ts ++ [.rparen])) (.nested e)
  | call {w : String} {items : List (List Token × Expr)} {e : Expr} :
    (∀ x ∈ items, ServerDerives d .disjunction x.1 x.2) → Calls w (items.map Prod.snd) e →
      ServerDerives d .primary
        (.word w :: .lparen :: (commaJoined (items.map Prod.fst) ++ [.rparen])) e

/-! ## Regrouping -/

/-- The operator of a product, a quotient or a remainder. -/
def Expr.productOp? : Expr → Option BinaryOp
  | .binary .mul _ _ => some .mul
  | .binary .div _ _ => some .div
  | .binary .mod _ _ => some .mod
  | _ => none

/-- What a server reads for an operator behind a tree: the file database gives a product or a
quotient behind a remainder to the right operand of the remainder. -/
def Dialect.joined : Dialect → BinaryOp → Expr → Expr → Expr
  | access, .mul, .binary .mod a b, r => .binary .mod a (.binary .mul b r)
  | access, .div, .binary .mod a b, r => .binary .mod a (.binary .div b r)
  | _, op, l, r => .binary op l r

mutual

/-- What a server reads for the tokens of a tree. -/
def Expr.regroup (d : Dialect) : Expr → Expr
  | .column parts => .column parts
  | .number n => .number n
  | .text s => .text s
  | .date s => .date s
  | .null => .null
  | .call f args => .call f (Expr.regroupAll d args)
  | .unary op e => .unary op (e.regroup d)
  | .binary op l r => d.joined op (l.regroup d) (r.regroup d)
  | .isNull negated e => .isNull negated (e.regroup d)
  | .between negated e low high => .between negated (e.regroup d) (low.regroup d) (high.regroup d)
  | .inList negated e items => .inList negated (e.regroup d) (Expr.regroupAll d items)
  | .like negated e pattern => .like negated (e.regroup d) (pattern.regroup d)
  | .nested e => .nested (e.regroup d)

/-- What a server reads for the tokens of some trees. -/
def Expr.regroupAll (d : Dialect) : List Expr → List Expr
  | [] => []
  | e :: es => e.regroup d :: Expr.regroupAll d es

end

attribute [simp] Expr.regroup Expr.regroupAll

/-- The remainder of a tree by the tokens of another. -/
def Expr.graft : Expr → Expr → Expr
  | a, .binary .mul b c => .binary .mul (a.graft b) c
  | a, .binary .div b c => .binary .div (a.graft b) c
  | a, b => .binary .mod a b

mutual

/-- The tree whose tokens the file database reads as a tree. -/
def Expr.ungroup : Expr → Expr
  | .column parts => .column parts
  | .number n => .number n
  | .text s => .text s
  | .date s => .date s
  | .null => .null
  | .call f args => .call f (Expr.ungroupAll args)
  | .unary op e => .unary op e.ungroup
  | .binary .mod l r => l.ungroup.graft r.ungroup
  | .binary op l r => .binary op l.ungroup r.ungroup
  | .isNull negated e => .isNull negated e.ungroup
  | .between negated e low high => .between negated e.ungroup low.ungroup high.ungroup
  | .inList negated e items => .inList negated e.ungroup (Expr.ungroupAll items)
  | .like negated e pattern => .like negated e.ungroup pattern.ungroup
  | .nested e => .nested e.ungroup

/-- The trees whose tokens the file database reads as some trees. -/
def Expr.ungroupAll : List Expr → List Expr
  | [] => []
  | e :: es => e.ungroup :: Expr.ungroupAll es

end

attribute [simp] Expr.ungroup Expr.ungroupAll

/-- The right operand of a product, a quotient or a remainder is none of them. -/
def Expr.HasFactorRight : Expr → Prop
  | .binary .mul _ r | .binary .div _ r | .binary .mod _ r => r.productOp? = none
  | _ => True

theorem Expr.graft_of_productOp? {a b : Expr} (h : b.productOp? = none) :
    a.graft b = .binary .mod a b := by
  unfold graft
  split
  · contradiction
  · contradiction
  · rfl

theorem Dialect.joined_cases (d : Dialect) (op : BinaryOp) (l r : Expr) :
    d.joined op l r = .binary op l r ∨
      ∃ a b, d = .access ∧ (op = .mul ∨ op = .div) ∧ l = .binary .mod a b ∧
        d.joined op l r = .binary .mod a (.binary op b r) := by
  unfold joined
  split
  · exact .inr ⟨_, _, rfl, .inl rfl, rfl, rfl⟩
  · exact .inr ⟨_, _, rfl, .inr rfl, rfl, rfl⟩
  · exact .inl rfl

theorem Dialect.joined_of_ne {op : BinaryOp} (h : op ≠ .mul ∧ op ≠ .div) (d : Dialect)
    (l r : Expr) : d.joined op l r = .binary op l r := by
  rcases d.joined_cases op l r with hj | ⟨_, _, -, hop, -⟩
  · exact hj
  · exact absurd hop (not_or.2 h)

theorem Dialect.joined_of_productOp? {d : Dialect} {l : Expr}
    (h : d = .access → l.productOp? ≠ some .mod) (op : BinaryOp) (r : Expr) :
    d.joined op l r = .binary op l r := by
  rcases d.joined_cases op l r with hj | ⟨_, _, hd, -, rfl, -⟩
  · exact hj
  · exact absurd rfl (h hd)

theorem Dialect.joined_tsql (schema : String) (op : BinaryOp) (l r : Expr) :
    (tsql schema).joined op l r = .binary op l r := by
  rcases (tsql schema).joined_cases op l r with h | ⟨_, _, h, -⟩
  · exact h
  · contradiction

theorem Expr.regroupAll_eq_map (d : Dialect) (es : List Expr) :
    Expr.regroupAll d es = es.map (Expr.regroup d) := by
  induction es with
  | nil => rfl
  | cons e es ih => rw [regroupAll, ih, List.map_cons]

mutual

theorem Expr.regroup_tsql (schema : String) : ∀ e : Expr, e.regroup (.tsql schema) = e
  | .column _ | .number _ | .text _ | .date _ | .null => rfl
  | .call _ es => by rw [regroup, regroupAll_tsql schema es]
  | .unary _ e | .isNull _ e | .nested e => by rw [regroup, regroup_tsql schema e]
  | .binary op l r => by
    rw [regroup, regroup_tsql schema l, regroup_tsql schema r, Dialect.joined_tsql]
  | .like _ l r => by rw [regroup, regroup_tsql schema l, regroup_tsql schema r]
  | .between _ e l h => by
    rw [regroup, regroup_tsql schema e, regroup_tsql schema l, regroup_tsql schema h]
  | .inList _ e es => by rw [regroup, regroup_tsql schema e, regroupAll_tsql schema es]

theorem Expr.regroupAll_tsql (schema : String) : ∀ es : List Expr,
    Expr.regroupAll (.tsql schema) es = es
  | [] => rfl
  | e :: es => by rw [regroupAll, regroup_tsql schema e, regroupAll_tsql schema es]

end

mutual

/-- Regrouping can be undone. -/
theorem Expr.ungroup_regroup : ∀ {e : Expr}, e.Everywhere HasFactorRight →
    (e.regroup .access).ungroup = e
  | .column _, _ | .number _, _ | .text _, _ | .date _, _ | .null, _ => rfl
  | .call _ _, h => by rw [regroup, ungroup, ungroupAll_regroupAll h.2]
  | .unary _ _, h | .isNull _ _, h | .nested _, h => by rw [regroup, ungroup, ungroup_regroup h.2]
  | .like _ _ _, h => by
    rw [regroup, ungroup, ungroup_regroup h.2.1, ungroup_regroup h.2.2]
  | .between _ _ _ _, h => by
    rw [regroup, ungroup, ungroup_regroup h.2.1, ungroup_regroup h.2.2.1,
      ungroup_regroup h.2.2.2]
  | .inList _ _ _, h => by
    rw [regroup, ungroup, ungroup_regroup h.2.1, ungroupAll_regroupAll h.2.2]
  | .binary op l r, h => by
    have hl := ungroup_regroup h.2.1
    have hr := ungroup_regroup h.2.2
    rw [regroup]
    rcases Dialect.access.joined_cases op (l.regroup .access) (r.regroup .access) with
      hj | ⟨a, b, -, hop, hab, hj⟩
    · rw [hj]
      by_cases hm : op = .mod
      · subst hm
        rw [ungroup, hl, hr, graft_of_productOp? h.1]
      · rw [ungroup, hl, hr]
        exact hm
    · rw [hab, ungroup] at hl
      rw [hj, ungroup]
      rcases hop with rfl | rfl <;> simp [graft, hl, hr]

theorem Expr.ungroupAll_regroupAll : ∀ {es : List Expr}, EverywhereIn HasFactorRight es →
    ungroupAll (regroupAll .access es) = es
  | [], _ => rfl
  | _ :: _, h => by rw [regroupAll, ungroupAll, ungroup_regroup h.1, ungroupAll_regroupAll h.2]

end

theorem Expr.regroup_inj {d : Dialect} {e e' : Expr} (he : e.Everywhere HasFactorRight)
    (he' : e'.Everywhere HasFactorRight) (h : e.regroup d = e'.regroup d) : e = e' := by
  cases d with
  | tsql schema => rwa [regroup_tsql, regroup_tsql] at h
  | access => rw [← ungroup_regroup he, h, ungroup_regroup he']

/-! ## Calls -/

section Calls

variable {d : Dialect}

/-- A tree that is no product over a remainder keeps its constructor. -/
theorem Callee.unitOf?_regroup (e : Expr) : unitOf? (e.regroup d) = unitOf? e := by
  cases e with
  | binary op l r =>
    rw [Expr.regroup]
    rcases d.joined_cases op (l.regroup d) (r.regroup d) with h | ⟨_, _, -, -, -, h⟩ <;> rw [h] <;>
      rfl
  | _ => rfl

theorem Expr.regroup_eq_isNull {negated : Bool} {e v : Expr}
    (h : e.regroup d = .isNull negated v) : ∃ y, e = .isNull negated y ∧ y.regroup d = v := by
  cases e with
  | isNull n y =>
    obtain ⟨rfl, rfl⟩ := Expr.isNull.inj h
    exact ⟨y, rfl, rfl⟩
  | binary op l r =>
    rw [regroup] at h
    rcases d.joined_cases op (l.regroup d) (r.regroup d) with h' | ⟨_, _, -, -, -, h'⟩ <;>
      rw [h'] at h <;> contradiction
  | _ => cases h

theorem Expr.regroup_eq_nested {e v : Expr} (h : e.regroup d = .nested v) :
    ∃ y, e = .nested y ∧ y.regroup d = v := by
  cases e with
  | nested y => exact ⟨y, rfl, Expr.nested.inj h⟩
  | binary op l r =>
    rw [regroup] at h
    rcases d.joined_cases op (l.regroup d) (r.regroup d) with h' | ⟨_, _, -, -, -, h'⟩ <;>
      rw [h'] at h <;> contradiction
  | _ => cases h

theorem isNullTestOf_regroup {t v : Expr} (ht : t.Everywhere Expr.HasFactorRight)
    (hv : v.Everywhere Expr.HasFactorRight) :
    IsNullTestOf (t.regroup d) (v.regroup d) ↔ IsNullTestOf t v := by
  constructor
  · rintro (h | h)
    · obtain ⟨y, rfl, hy⟩ := Expr.regroup_eq_isNull h
      exact Or.inl (by rw [Expr.regroup_inj ht.2 hv hy])
    · obtain ⟨x, rfl, hx⟩ := Expr.regroup_eq_nested h
      obtain ⟨y, rfl, hy⟩ := Expr.regroup_eq_isNull hx
      exact Or.inr (by rw [Expr.regroup_inj ht.2.2 hv hy])
  · rintro (rfl | rfl)
    · exact Or.inl rfl
    · exact Or.inr rfl

theorem Expr.iifOf_regroup {t y v : Expr} (ht : t.Everywhere HasFactorRight)
    (hv : v.Everywhere HasFactorRight) :
    iifOf (t.regroup d) (y.regroup d) (v.regroup d) = (iifOf t y v).regroup d := by
  by_cases h : IsNullTestOf t v
  · rw [iifOf_of_isNullTestOf h, iifOf_of_isNullTestOf ((isNullTestOf_regroup ht hv).2 h)]
    rfl
  · rw [iifOf_of_not_isNullTestOf h,
      iifOf_of_not_isNullTestOf (mt (isNullTestOf_regroup ht hv).1 h)]
    rfl

theorem Expr.coalesceOf_regroup (e : Expr) (es : List Expr) :
    coalesceOf (e.regroup d) (es.map (regroup d)) = (coalesceOf e es).regroup d := by
  induction es generalizing e with
  | nil => rfl
  | cons e' es ih => simp [coalesceOf, ih]

theorem Callee.tree_regroup (f : Callee) {args : List Expr}
    (h : ∀ a ∈ args, a.Everywhere Expr.HasFactorRight) :
    f.tree (args.map (Expr.regroup d)) = (f.tree args).map (Expr.regroup d) := by
  rcases args with _ | ⟨a, _ | ⟨b, _ | ⟨c, _ | ⟨e, es⟩⟩⟩⟩ <;> cases f <;>
    simp only [Callee.tree, List.map_cons, List.map_nil, unitOf?_regroup] <;> try rfl
  case cons.cons.nil.datePart =>
    cases unitOf? a with
    | none => rfl
    | some u => cases u <;> rfl
  case cons.cons.cons.nil.dateAdd | cons.cons.cons.nil.dateDiff => cases unitOf? a <;> rfl
  case cons.cons.cons.nil.iif =>
    exact congrArg Except.ok (Expr.iifOf_regroup (h a (by simp)) (h c (by simp)))
  case cons.cons.cons.cons.coalesce =>
    exact congrArg Except.ok (Expr.coalesceOf_regroup a (b :: c :: e :: es))

/-- A call of regrouped trees has the regrouped tree of the call. -/
theorem calls_regroup_iff {w : String} {args : List Expr} {e : Expr}
    (h : ∀ a ∈ args, a.Everywhere Expr.HasFactorRight) :
    Calls w (args.map (Expr.regroup d)) e ↔ ∃ e', Calls w args e' ∧ e'.regroup d = e := by
  simp only [← callTree?_eq_some_iff, callTree?, callTree]
  cases Callee.ofWord? w with
  | none => simp [Except.toOption]
  | some f =>
    simp only [Callee.tree_regroup f h]
    cases f.tree args <;> simp [Except.map, Except.toOption]

end Calls

/-! ## Factors -/

theorem productOp?_of_coalesced {args : List Expr} {e : Expr} (h : Coalesced args e) :
    e.productOp? = none := by
  cases h <;> rfl

theorem productOp?_of_calls {w : String} {args : List Expr} {e : Expr} (h : Calls w args e) :
    e.productOp? = none := by
  cases h with
  | coalesce _ hc => exact productOp?_of_coalesced hc
  | _ => rfl

theorem productOp?_of_derives {p : Tier} {ts : List Token} {e : Expr} (h : Derives p ts e)
    (hp : p = .signed ∨ p = .primary) : e.productOp? = none := by
  induction h with
  | tighter hn _ ih =>
    rcases hp with rfl | rfl <;> cases hn
    exact ih (.inr rfl)
  | join hj => rcases hp with rfl | rfl <;> cases hj
  | call _ hc => exact productOp?_of_calls hc
  | plus _ ih => exact ih (.inl rfl)
  | _ => first | rfl | simp at hp

theorem hasFactorRight_of_coalesced {args : List Expr} {e : Expr} (h : Coalesced args e)
    (ha : ∀ a ∈ args, a.Everywhere Expr.HasFactorRight) : e.Everywhere Expr.HasFactorRight := by
  induction h with
  | pair a b => simp_all [Expr.HasFactorRight]
  | more a _ ih =>
    rw [List.forall_mem_cons] at ha
    have := ih ha.2
    simp_all [Expr.HasFactorRight]

theorem hasFactorRight_of_calls {w : String} {args : List Expr} {e : Expr} (h : Calls w args e)
    (ha : ∀ a ∈ args, a.Everywhere Expr.HasFactorRight) : e.Everywhere Expr.HasFactorRight := by
  cases h with
  | coalesce _ hc => exact hasFactorRight_of_coalesced hc ha
  | _ => simp_all [Expr.HasFactorRight]

/-- Products of a source are grouped to the left. -/
theorem hasFactorRight_of_derives {p : Tier} {ts : List Token} {e : Expr} (h : Derives p ts e) :
    e.Everywhere Expr.HasFactorRight := by
  induction h with
  | tighter _ _ ih | plus _ ih => exact ih
  | @join _ _ _ op _ _ _ r hj hn _ hr ihl ihr =>
    refine ⟨?_, ihl, ihr⟩
    cases hj <;> cases hn <;> first | trivial | exact productOp?_of_derives hr (.inl rfl)
  | not _ _ ih | neg _ ih | isNull _ _ _ _ ih | nested _ ih => exact ⟨trivial, ih⟩
  | compare hc _ _ ihl ihr => exact ⟨by cases hc <;> trivial, ihl, ihr⟩
  | like _ _ _ _ ihl ihr => exact ⟨trivial, ihl, ihr⟩
  | between _ _ _ _ _ _ ih ihl ihh => exact ⟨trivial, ih, ihl, ihh⟩
  | inList _ _ _ _ _ ih ihs =>
    refine ⟨trivial, ih, Expr.everywhereIn_iff.2 fun e h => ?_⟩
    obtain ⟨x, hx, rfl⟩ := List.mem_map.1 h
    exact ihs x hx
  | call _ hc ihs =>
    refine hasFactorRight_of_calls hc fun e h => ?_
    obtain ⟨x, hx, rfl⟩ := List.mem_map.1 h
    exact ihs x hx
  | _ => simp [Expr.HasFactorRight]

/-! ## What a server reads -/

/-- The tier of the grammar of expressions that a rank belongs to. -/
def Rank.tier : Rank → Tier
  | disjunction => .disjunction
  | conjunction => .conjunction
  | negation => .negation
  | predicate => .predicate
  | sum => .sum
  | remainder | product => .product
  | signed => .signed
  | primary => .primary

/-- The loosest rank of a tier. -/
def Tier.loosest : Tier → Rank
  | disjunction => .disjunction
  | conjunction => .conjunction
  | negation => .negation
  | predicate => .predicate
  | sum => .sum
  | product => .remainder
  | signed => .signed
  | primary => .primary

section Reading

variable {d : Dialect}

/-- A product of the file database is no remainder. -/
theorem productOp?_of_serverDerives {p : Rank} {ts : List Token} {e : Expr}
    (h : ServerDerives .access p ts e) (hp : p ∈ [.product, .signed, .primary]) :
    e.productOp? ≠ some .mod := by
  induction h with
  | @tighter p _ _ _ hn _ ih => exact ih (by cases p <;> cases hn <;> simp_all)
  | join hb =>
    cases hb with
    | mul | div => simp [Expr.productOp?]
    | percent h => contradiction
    | _ => simp at hp
  | plus _ ih => exact ih hp
  | leaf hd _ => simp [productOp?_of_derives hd (.inr rfl)]
  | call _ hc => simp [productOp?_of_calls hc]
  | compare hc => simp at hp
  | _ => simp [Expr.productOp?]

/-- What is known of a tree that a server reads: its tokens are those of an expression. -/
structure IsRegrouped (d : Dialect) (p : Rank) (ts : List Token) (e : Expr) : Prop where
  tree : ∃ e', Derives p.tier ts e' ∧ e'.regroup d = e
  /-- Behind a remainder the tokens of a product make the right operand. -/
  behind : d = .access → p = .product → ∀ {us : List Token} {a : Expr} {t : Token},
    Derives .product us a → t.keyword? = some .mod →
      ∃ e', Derives .product (us ++ t :: ts) e' ∧ e'.regroup d = .binary .mod (a.regroup d) e

theorem IsRegrouped.of_derives {p : Rank} {ts : List Token} {e e' : Expr} (hp : p ≠ .product)
    (h : Derives p.tier ts e') (he : e'.regroup d = e) : IsRegrouped d p ts e :=
  ⟨⟨e', h, he⟩, fun _ h => absurd h hp⟩

theorem regroup_of_leaf {ts : List Token} {e : Expr} (h : Derives .primary ts e)
    (hp : .lparen ∉ ts) : e.regroup d = e := by
  cases h with
  | tighter hn => cases hn
  | join hj => cases hj
  | nested _ | call _ _ => simp at hp
  | _ => rfl

/-- Items of a list that are regrouped one by one. -/
theorem exists_items {p : Rank} {items : List (List Token × Expr)}
    (h : ∀ x ∈ items, IsRegrouped d p x.1 x.2) :
    ∃ items' : List (List Token × Expr), items'.map Prod.fst = items.map Prod.fst ∧
      (items'.map Prod.snd).map (Expr.regroup d) = items.map Prod.snd ∧
      ∀ x ∈ items', Derives p.tier x.1 x.2 := by
  induction items with
  | nil => exact ⟨[], rfl, rfl, by simp⟩
  | cons x items ih =>
    obtain ⟨hx, hitems⟩ := List.forall_mem_cons.1 h
    obtain ⟨e', he, hr⟩ := hx.tree
    obtain ⟨items', hf, hs, hd⟩ := ih hitems
    exact ⟨(x.1, e') :: items', by simp [hf], by simp [hr, ← hs],
      List.forall_mem_cons.2 ⟨he, hd⟩⟩

/-- A product or a quotient, which the file database reads behind a remainder too. -/
theorem isRegrouped_factor {t : Token} {op : BinaryOp} {ts us : List Token} {l r : Expr}
    (hj : Joins .product t op) (hop : op = .mul ∨ op = .div) (hl : ServerDerives d .product ts l)
    (ihl : IsRegrouped d .product ts l) (ihr : IsRegrouped d .signed us r) :
    IsRegrouped d .product (ts ++ t :: us) (.binary op l r) := by
  obtain ⟨r, hr, rfl⟩ := ihr.tree
  constructor
  · obtain ⟨l, hdl, rfl⟩ := ihl.tree
    refine ⟨_, .join hj rfl hdl hr, ?_⟩
    rw [Expr.regroup, Dialect.joined_of_productOp?]
    rintro rfl
    exact productOp?_of_serverDerives hl (by decide)
  · rintro rfl - vs a m ha hm
    obtain ⟨e, he, hre⟩ := ihl.behind rfl rfl ha hm
    have hd := Derives.join hj rfl he hr
    rw [List.append_assoc, List.cons_append] at hd
    refine ⟨_, hd, ?_⟩
    rw [Expr.regroup, hre]
    rcases hop with rfl | rfl <;> rfl

theorem isRegrouped_join {p q : Rank} {t : Token} {op : BinaryOp} {ts us : List Token}
    {l r : Expr} (hb : d.Binds p t op) (hn : p.next? = some q) (hl : ServerDerives d p ts l)
    (ihl : IsRegrouped d p ts l) (ihr : IsRegrouped d q us r) :
    IsRegrouped d p (ts ++ t :: us) (.binary op l r) := by
  have plain (hj : Joins p.tier t op) (hq : p.tier.next? = some q.tier) (hp : p ≠ .product)
      (hop : op ≠ .mul ∧ op ≠ .div) : IsRegrouped d p (ts ++ t :: us) (.binary op l r) := by
    obtain ⟨l, hdl, rfl⟩ := ihl.tree
    obtain ⟨r, hdr, rfl⟩ := ihr.tree
    exact .of_derives hp (.join hj hq hdl hdr) (d.joined_of_ne hop _ _)
  cases hb with
  | or h | and h =>
    cases hn
    exact plain (by first | exact .or h | exact .and h) rfl (by decide) (by decide)
  | add | sub =>
    cases hn
    exact plain (by constructor) rfl (by decide) (by decide)
  | mul =>
    cases hn
    exact isRegrouped_factor .mul (.inl rfl) hl ihl ihr
  | div =>
    cases hn
    exact isRegrouped_factor .div (.inr rfl) hl ihl ihr
  | percent hd =>
    cases hn
    obtain ⟨l, hdl, rfl⟩ := ihl.tree
    obtain ⟨r, hdr, rfl⟩ := ihr.tree
    refine ⟨⟨_, .join .percent rfl hdl hdr, d.joined_of_ne (by decide) _ _⟩, fun h => ?_⟩
    rw [hd] at h
    contradiction
  | mod hd ht =>
    cases hn
    obtain ⟨l, hdl, rfl⟩ := ihl.tree
    obtain ⟨e, he, hr⟩ := ihr.behind hd rfl hdl ht
    exact .of_derives (by decide) he hr

/-- What a server reads is a regrouped expression. -/
theorem isRegrouped_of_serverDerives {p : Rank} {ts : List Token} {e : Expr}
    (h : ServerDerives d p ts e) : IsRegrouped d p ts e := by
  induction h with
  | @tighter p q ts e hn _ ih =>
    obtain ⟨e', he, rfl⟩ := ih.tree
    refine ⟨⟨e', ?_, rfl⟩, ?_⟩
    · cases p <;> cases hn <;> first | exact he | exact .tighter rfl he
    · rintro - rfl us a t ha ht
      cases hn
      refine ⟨.binary .mod a e', .join (.mod ht) rfl ha he, ?_⟩
      rw [Expr.regroup, Dialect.joined_of_ne (by decide)]
  | join hb hn hl _ ihl ihr => exact isRegrouped_join hb hn hl ihl ihr
  | not hk _ ih =>
    obtain ⟨e, he, rfl⟩ := ih.tree
    exact .of_derives (by decide) (.not hk he) rfl
  | compare hc _ _ ihl ihr =>
    obtain ⟨l, hl, rfl⟩ := ihl.tree
    obtain ⟨r, hr, rfl⟩ := ihr.tree
    exact .of_derives (by decide) (.compare hc hl hr)
      (by rw [Expr.regroup, Dialect.joined_of_ne (by cases hc <;> decide)])
  | isNull hi hns hnull _ ih =>
    obtain ⟨e, he, rfl⟩ := ih.tree
    exact .of_derives (by decide) (.isNull hi hns hnull he) rfl
  | between hns hb ha _ _ _ ih ihl ihh =>
    obtain ⟨e, he, rfl⟩ := ih.tree
    obtain ⟨low, hl, rfl⟩ := ihl.tree
    obtain ⟨high, hh, rfl⟩ := ihh.tree
    exact .of_derives (by decide) (.between hns hb ha he hl hh) rfl
  | inList hns hi _ hne _ ih ihs =>
    obtain ⟨e, he, rfl⟩ := ih.tree
    obtain ⟨items', hf, hs, hd⟩ := exists_items ihs
    have hne' : items' ≠ [] := by
      rintro rfl
      exact hne (List.map_eq_nil_iff.1 hf.symm)
    rw [← hf]
    exact .of_derives (by decide) (.inList hns hi he hne' hd)
      (by rw [Expr.regroup, Expr.regroupAll_eq_map, hs])
  | like hns hk _ _ ih ihp =>
    obtain ⟨e, he, rfl⟩ := ih.tree
    obtain ⟨pattern, hp, rfl⟩ := ihp.tree
    exact .of_derives (by decide) (.like hns hk he hp) rfl
  | neg _ ih =>
    obtain ⟨e, he, rfl⟩ := ih.tree
    exact .of_derives (by decide) (.neg he) rfl
  | plus _ ih =>
    obtain ⟨e, he, rfl⟩ := ih.tree
    exact .of_derives (by decide) (.plus he) rfl
  | leaf hd hp => exact .of_derives (by decide) hd (regroup_of_leaf hd hp)
  | nested _ ih =>
    obtain ⟨e, he, rfl⟩ := ih.tree
    exact .of_derives (by decide) (.nested he) rfl
  | call _ hc ihs =>
    obtain ⟨items', hf, hs, hd⟩ := exists_items ihs
    rw [← hs, calls_regroup_iff fun a ha => ?_] at hc
    · obtain ⟨e', hc, he⟩ := hc
      rw [← hf]
      exact .of_derives (by decide) (.call hd hc) he
    · obtain ⟨x, hx, rfl⟩ := List.mem_map.1 ha
      exact hasFactorRight_of_derives (hd x hx)

/-- A token that is no remainder in the spelling of the other server. -/
def Dialect.Knows : Dialect → Token → Prop
  | tsql _, t => t.keyword? ≠ some .mod
  | access, t => t ≠ .percent

/-- Above products the file database has remainders and T-SQL has nothing. -/
theorem product_or_remainder {ts : List Token} {e : Expr} (h : ServerDerives d .remainder ts e) :
    ServerDerives d .product ts e ∨ ∃ us t vs a b, d = .access ∧ t.keyword? = some .mod ∧
      ts = us ++ t :: vs ∧ e = .binary .mod a b ∧ ServerDerives d .remainder us a ∧
        ServerDerives d .product vs b := by
  cases h with
  | tighter hn h =>
    cases hn
    exact .inl h
  | join hb hn hl hr =>
    cases hb with
    | mod hd ht =>
      cases hn
      exact .inr ⟨_, _, _, _, _, hd, ht, rfl, rfl, hl, hr⟩

theorem serverDerives_factor {t : Token} {op : BinaryOp} {ts us : List Token} {l r : Expr}
    (hb : d.Binds .product t op) (hop : op = .mul ∨ op = .div)
    (hl : ServerDerives d .remainder ts l) (hr : ServerDerives d .signed us r) :
    ServerDerives d .remainder (ts ++ t :: us) (d.joined op l r) := by
  obtain hl | ⟨as, m, bs, a, b, rfl, hm, rfl, rfl, ha, hb'⟩ := product_or_remainder hl
  · rw [Dialect.joined_of_productOp?]
    · exact .tighter rfl (.join hb rfl hl hr)
    · rintro rfl
      exact productOp?_of_serverDerives hl (by decide)
  · have hright : ServerDerives .access .product (bs ++ t :: us) (.binary op b r) :=
      .join hb rfl hb' hr
    have hj := ServerDerives.join (.mod rfl hm) rfl ha hright
    rw [List.append_assoc, List.cons_append]
    rcases hop with rfl | rfl <;> exact hj

theorem serverDerives_join {p q : Tier} {t : Token} {op : BinaryOp} {ts us : List Token}
    {l r : Expr} (hj : Joins p t op) (hn : p.next? = some q) (ht : d.Knows t)
    (hl : ServerDerives d p.loosest ts l) (hr : ServerDerives d q.loosest us r) :
    ServerDerives d p.loosest (ts ++ t :: us) (d.joined op l r) := by
  cases hj with
  | or h | and h =>
    cases hn
    rw [Dialect.joined_of_ne (by decide)]
    exact .join (by first | exact .or h | exact .and h) rfl hl hr
  | add | sub =>
    cases hn
    rw [Dialect.joined_of_ne (by decide)]
    exact .join (by constructor) rfl hl hr
  | mul =>
    cases hn
    exact serverDerives_factor .mul (.inl rfl) hl hr
  | div =>
    cases hn
    exact serverDerives_factor .div (.inr rfl) hl hr
  | percent =>
    cases hn
    rw [Dialect.joined_of_ne (by decide)]
    cases d with
    | access => exact absurd rfl ht
    | tsql schema =>
      obtain hl | ⟨_, _, _, _, _, h, -⟩ := product_or_remainder hl
      · exact .tighter rfl (.join (.percent rfl) rfl hl hr)
      · contradiction
  | mod hm =>
    cases hn
    rw [Dialect.joined_of_ne (by decide)]
    cases d with
    | access => exact .join (.mod rfl hm) rfl hl (.tighter rfl hr)
    | tsql schema => exact absurd hm ht

/-- The items of a list as a server reads them. -/
theorem serverDerives_items {items : List (List Token × Expr)} {us : List Token}
    (hus : us = commaJoined (items.map Prod.fst)) (ht : ∀ t ∈ us, d.Knows t)
    (h : ∀ x ∈ items, (∀ t ∈ x.1, d.Knows t) → ServerDerives d .disjunction x.1 (x.2.regroup d)) :
    ∃ items' : List (List Token × Expr), items'.map Prod.fst = items.map Prod.fst ∧
      items'.map Prod.snd = (items.map Prod.snd).map (Expr.regroup d) ∧
      ∀ x ∈ items', ServerDerives d .disjunction x.1 x.2 := by
  refine ⟨items.map fun x => (x.1, x.2.regroup d), by simp, by simp, fun x hx => ?_⟩
  obtain ⟨y, hy, rfl⟩ := List.mem_map.1 hx
  exact h y hy fun t hm => ht t (hus ▸ mem_commaJoined (List.mem_map_of_mem hy) hm)

/-- A server reads the tokens of an expression as the regrouped expression. -/
theorem serverDerives_of_derives {p : Tier} {ts : List Token} {e : Expr} (h : Derives p ts e)
    (ht : ∀ t ∈ ts, d.Knows t) : ServerDerives d p.loosest ts (e.regroup d) := by
  induction h with
  | @tighter p _ _ _ hn _ ih =>
    have ih := ih ht
    cases p <;> cases hn <;> first | exact .tighter rfl ih | exact .tighter rfl (.tighter rfl ih)
  | join hj hn _ _ ihl ihr =>
    exact serverDerives_join hj hn (ht _ (by simp)) (ihl fun t h => ht t (by simp [h]))
      (ihr fun t h => ht t (by simp [h]))
  | not hk _ ih => exact .not hk (ih fun t h => ht t (by simp [h]))
  | compare hc _ _ ihl ihr =>
    rw [Expr.regroup, Dialect.joined_of_ne (by cases hc <;> decide)]
    exact .compare hc (ihl fun t h => ht t (by simp [h])) (ihr fun t h => ht t (by simp [h]))
  | isNull hi hns hnull _ ih => exact .isNull hi hns hnull (ih fun t h => ht t (by simp [h]))
  | between hns hb ha _ _ _ ih ihl ihh =>
    exact .between hns hb ha (ih fun t h => ht t (by simp [h])) (ihl fun t h => ht t (by simp [h]))
      (ihh fun t h => ht t (by simp [h]))
  | inList hns hi _ hne _ ih ihs =>
    obtain ⟨items', hf, hs, hd⟩ := serverDerives_items rfl (fun t h => ht t (by simp [h])) ihs
    have hne' : items' ≠ [] := by
      rintro rfl
      exact hne (List.map_eq_nil_iff.1 hf.symm)
    rw [Expr.regroup, Expr.regroupAll_eq_map, ← hf, ← hs]
    exact .inList hns hi (ih fun t h => ht t (by simp [h])) hne' hd
  | like hns hk _ _ ih ihp =>
    exact .like hns hk (ih fun t h => ht t (by simp [h])) (ihp fun t h => ht t (by simp [h]))
  | neg _ ih => exact .neg (ih fun t h => ht t (by simp [h]))
  | plus _ ih => exact .plus (ih fun t h => ht t (by simp [h]))
  | nested _ ih => exact .nested (ih fun t h => ht t (by simp [h]))
  | call hd hc ihs =>
    obtain ⟨items', hf, hs, hd'⟩ := serverDerives_items rfl (fun t h => ht t (by simp [h])) ihs
    rw [← hf]
    refine .call hd' (hs ▸ (calls_regroup_iff fun a ha => ?_).2 ⟨_, hc, rfl⟩)
    obtain ⟨x, hx, rfl⟩ := List.mem_map.1 ha
    exact hasFactorRight_of_derives (hd x hx)
  | number n => exact .leaf (.number n) (by simp)
  | text s => exact .leaf (.text s) (by simp)
  | date s => exact .leaf (.date s) (by simp)
  | null hk => exact .leaf (.null hk) (by rintro (⟨⟩ | ⟨_, ⟨⟩⟩); contradiction)
  | currentTimestamp hk =>
    exact .leaf (.currentTimestamp hk) (by rintro (⟨⟩ | ⟨_, ⟨⟩⟩); contradiction)
  | column hn => exact .leaf (.column hn) (by rintro (⟨⟩ | ⟨_, ⟨⟩⟩); contradiction)
  | qualifiedColumn hn hn' =>
    refine .leaf (.qualifiedColumn hn hn') ?_
    rintro (⟨⟩ | ⟨_, ⟨⟩ | ⟨_, ⟨⟩ | ⟨_, ⟨⟩⟩⟩⟩) <;> contradiction

/-- **Reading by a server**: the tokens that a server reads as an expression are those of the
expressions whose remainders it can spell, and it reads them as the regrouped expressions. -/
theorem serverDerives_iff {ts : List Token} (ht : ∀ t ∈ ts, d.Knows t) {e : Expr} :
    ServerDerives d .disjunction ts e ↔ ∃ e', Derives .disjunction ts e' ∧ e'.regroup d = e :=
  ⟨fun h => (isRegrouped_of_serverDerives h).tree,
    fun ⟨_, h, he⟩ => he ▸ serverDerives_of_derives h ht⟩

end Reading

end MetricBoard.Expression
