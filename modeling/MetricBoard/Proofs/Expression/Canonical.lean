import MetricBoard.Proofs.Expression.Faithful

/-!
# The form of the trees that are read

What the writers of both dialects rely on, as they put nothing into parentheses and count no
arguments: what stands at the root of each tree (`Expr.HasCanonicalRoot`), and that each operand
stands on a tier on which its operator takes it without parentheses (`Expr.HasOperandsOnTier`).

The first holds of every tree that is read. The second holds at each place of the tree except at a
test for null of what is no sum: `ISNULL(e)` is read as a test of `e`, whatever the tier of `e`
(`isCanonical_iff_testsSum`).
-/

namespace MetricBoard.Expression

/-! ## Roots -/

/-- What a tree may have at its root: a column has one or two parts, a number is digits with at most
one point inside, a date has no number sign, a function has the arguments that it takes, an IIF is
no coalesce, and a list is not empty. -/
def Expr.HasCanonicalRoot : Expr → Prop
  | .column parts => parts.length = 1 ∨ parts.length = 2
  | .number digits => Token.IsNumeral digits.toList
  | .date content => '#' ∉ content.toList
  | .call f args =>
    f.Takes args ∧ ∀ test no value, f = .iif → args = [test, no, value] → ¬IsNullTestOf test value
  | .inList _ _ items => items ≠ []
  | _ => True

/-- What of it the grammar sees to, whatever the tokens are. -/
def Expr.HasDerivedRoot : Expr → Prop
  | .column parts => parts.length = 1 ∨ parts.length = 2
  | .call f args =>
    ∀ test no value, f = .iif → args = [test, no, value] → ¬IsNullTestOf test value
  | .inList _ _ items => items ≠ []
  | _ => True

theorem Expr.HasDerivedRoot.canonical {e : Expr} (h : e.HasDerivedRoot) (hl : e.HasLexicalRoot) :
    e.HasCanonicalRoot := by
  cases e with
  | call f args => exact ⟨hl, h⟩
  | number _ | date _ => exact hl
  | column _ | inList _ _ _ => exact h
  | _ => trivial

theorem derivedRoots_of_coalesced {args : List Expr} {e : Expr} (h : Coalesced args e)
    (ha : ∀ a ∈ args, a.Everywhere Expr.HasDerivedRoot) : e.Everywhere Expr.HasDerivedRoot := by
  induction h with
  | pair a b => simp_all [Expr.HasDerivedRoot]
  | more a _ ih =>
    obtain ⟨ha, hrest⟩ := List.forall_mem_cons.1 ha
    have := ih hrest
    simp_all [Expr.HasDerivedRoot]

theorem derivedRoots_of_calls {w : String} {args : List Expr} {e : Expr} (h : Calls w args e)
    (ha : ∀ a ∈ args, a.Everywhere Expr.HasDerivedRoot) : e.Everywhere Expr.HasDerivedRoot := by
  cases h with
  | coalesce _ hc => exact derivedRoots_of_coalesced hc ha
  | @iif test yes no _ hn =>
    refine ⟨?_, Expr.everywhereIn_iff.2 ha⟩
    rintro _ _ _ - ⟨⟩
    exact hn
  | _ => simp_all [Expr.HasDerivedRoot]

theorem derivedRoots_of_derives {p : Tier} {ts : List Token} {e : Expr} (h : Derives p ts e) :
    e.Everywhere Expr.HasDerivedRoot := by
  induction h with
  | tighter _ _ ih | plus _ ih => exact ih
  | join _ _ _ _ ihl ihr | compare _ _ _ ihl ihr | like _ _ _ _ ihl ihr => exact ⟨trivial, ihl, ihr⟩
  | not _ _ ih | neg _ ih | nested _ ih | isNull _ _ _ _ ih => exact ⟨trivial, ih⟩
  | between _ _ _ _ _ _ ih ihl ihh => exact ⟨trivial, ih, ihl, ihh⟩
  | inList _ _ _ hne _ ih ihs =>
    refine ⟨by simpa [Expr.HasDerivedRoot] using hne, ih, Expr.everywhereIn_iff.2 fun e he => ?_⟩
    obtain ⟨x, hx, rfl⟩ := List.mem_map.1 he
    exact ihs x hx
  | call _ hc ihs =>
    refine derivedRoots_of_calls hc fun e he => ?_
    obtain ⟨x, hx, rfl⟩ := List.mem_map.1 he
    exact ihs x hx
  | column _ => exact Or.inl rfl
  | qualifiedColumn _ _ => exact Or.inr rfl
  | currentTimestamp _ => simp [Expr.HasDerivedRoot]
  | number _ | text _ | date _ | null _ => trivial

/-! ## Operands -/

/-- The tier of an operator. -/
def BinaryOp.tier : BinaryOp → Tier
  | or => .disjunction
  | and => .conjunction
  | eq | ne | lt | le | gt | ge => .predicate
  | add | sub => .sum
  | mul | div | mod => .product

/-- The loosest tiers on which the operands of an operator may stand, left and right. -/
def BinaryOp.operandTiers : BinaryOp → Tier × Tier
  | or => (.disjunction, .conjunction)
  | and => (.conjunction, .negation)
  | eq | ne | lt | le | gt | ge => (.sum, .sum)
  | add | sub => (.sum, .product)
  | mul | div | mod => (.product, .signed)

/-- The tier that a tree is an expression of, and no tighter one, if it is not put into
parentheses. -/
def Expr.tier : Expr → Tier
  | .unary .not _ => .negation
  | .unary .neg _ => .signed
  | .binary op _ _ => op.tier
  | .isNull _ _ | .between _ _ _ _ | .inList _ _ _ | .like _ _ _ => .predicate
  | _ => .primary

/-- A tree that stands for itself where an expression of a tier is asked for. -/
def Expr.StandsOn (e : Expr) (p : Tier) : Prop := e.tier.rank ≤ p.rank

/-- Operands that are taken without parentheses. What stands in parentheses, in a list or as an
argument of a call may be of any tier. -/
def Expr.HasOperandsOnTier : Expr → Prop
  | .unary .not e => e.StandsOn .negation
  | .unary .neg e => e.StandsOn .signed
  | .binary op l r => l.StandsOn op.operandTiers.1 ∧ r.StandsOn op.operandTiers.2
  | .isNull _ e => e.StandsOn .sum
  | .between _ e low high => e.StandsOn .sum ∧ low.StandsOn .sum ∧ high.StandsOn .sum
  | .inList _ e _ => e.StandsOn .sum
  | .like _ e pattern => e.StandsOn .sum ∧ pattern.StandsOn .sum
  | _ => True

theorem Joins.tier {p : Tier} {t : Token} {op : BinaryOp} (h : Joins p t op) : op.tier = p := by
  cases h <;> rfl

theorem Joins.operandTiers {p q : Tier} {t : Token} {op : BinaryOp} (h : Joins p t op)
    (hn : p.next? = some q) : op.operandTiers = (p, q) := by
  cases h <;> cases hn <;> rfl

theorem Compares.tier {t : Token} {op : BinaryOp} (h : Compares t op) : op.tier = .predicate := by
  cases h <;> rfl

theorem Compares.operandTiers {t : Token} {op : BinaryOp} (h : Compares t op) :
    op.operandTiers = (.sum, .sum) := by
  cases h <;> rfl

theorem Calls.tier {w : String} {args : List Expr} {e : Expr} (h : Calls w args e) :
    e.tier = .primary := by
  cases h with
  | coalesce _ hc => cases hc <;> rfl
  | _ => rfl

/-- What is derived on a tier stands on it. -/
theorem standsOn_of_derives {p : Tier} {ts : List Token} {e : Expr} (h : Derives p ts e) :
    e.StandsOn p := by
  induction h with
  | tighter hn _ ih =>
    have hrank := Tier.rank_next? hn
    unfold Expr.StandsOn at ih ⊢
    omega
  | plus _ ih => exact ih
  | join hj _ _ _ _ _ => exact Nat.le_of_eq (congrArg Tier.rank hj.tier)
  | compare hc _ _ _ _ => exact Nat.le_of_eq (congrArg Tier.rank hc.tier)
  | call _ hc _ => exact Nat.le_of_eq (congrArg Tier.rank hc.tier)
  | _ => exact Nat.le_refl _

/-- The sums are the trees that stand where a sum is asked for. -/
theorem Expr.standsOn_sum_iff {e : Expr} : e.StandsOn .sum ↔ e.isSum = true := by
  unfold Expr.StandsOn
  cases e with
  | unary op _ => cases op <;> simp [Expr.tier, Tier.rank, Expr.isSum]
  | binary op _ _ => cases op <;> simp [Expr.tier, BinaryOp.tier, Tier.rank, Expr.isSum]
  | _ => simp [Expr.tier, Tier.rank, Expr.isSum]

/-- Where a tree has its operands on their tiers, or else is a test for null of what is no sum. -/
def Expr.IsPlaced (e : Expr) : Prop := e.HasOperandsOnTier ↔ e.TestsSum

theorem Expr.IsPlaced.of_operands {e : Expr} (h : e.HasOperandsOnTier) (ht : e.TestsSum) :
    e.IsPlaced := iff_of_true h ht

theorem Expr.isPlaced_isNull (negated : Bool) (e : Expr) : (Expr.isNull negated e).IsPlaced :=
  Expr.standsOn_sum_iff

theorem placed_of_coalesced {args : List Expr} {e : Expr} (h : Coalesced args e)
    (ha : ∀ a ∈ args, a.Everywhere Expr.IsPlaced) : e.Everywhere Expr.IsPlaced := by
  induction h with
  | pair a b => exact ⟨.of_operands trivial trivial, Expr.everywhereIn_iff.2 ha⟩
  | more a _ ih =>
    obtain ⟨ha, hrest⟩ := List.forall_mem_cons.1 ha
    exact ⟨.of_operands trivial trivial, ha, ih hrest, trivial⟩

theorem placed_of_calls {w : String} {args : List Expr} {e : Expr} (h : Calls w args e)
    (ha : ∀ a ∈ args, a.Everywhere Expr.IsPlaced) : e.Everywhere Expr.IsPlaced := by
  have hcall (f : Function) {es : List Expr} (hes : ∀ a ∈ es, a.Everywhere Expr.IsPlaced) :
      (Expr.call f es).Everywhere Expr.IsPlaced :=
    ⟨.of_operands trivial trivial, Expr.everywhereIn_iff.2 hes⟩
  cases h with
  | coalesce _ hc => exact placed_of_coalesced hc ha
  | nullTest e _ =>
    exact ⟨.of_operands trivial trivial, Expr.isPlaced_isNull false e, ha e List.mem_cons_self⟩
  | orZero e _ =>
    refine hcall _ fun a h => ?_
    rcases List.mem_cons.1 h with rfl | h
    · exact ha _ List.mem_cons_self
    · obtain rfl := List.mem_singleton.1 h
      exact Expr.IsPlaced.of_operands trivial trivial
  | iifCoalesce _ _ =>
    simp only [List.forall_mem_cons] at ha
    exact hcall _ (by simp [ha])
  | _ => exact hcall _ fun a h => ha a (by simp_all)

theorem placed_of_derives {p : Tier} {ts : List Token} {e : Expr} (h : Derives p ts e) :
    e.Everywhere Expr.IsPlaced := by
  induction h with
  | tighter _ _ ih | plus _ ih => exact ih
  | join hj hn hl hr ihl ihr =>
    refine ⟨.of_operands ?_ trivial, ihl, ihr⟩
    rw [Expr.HasOperandsOnTier, hj.operandTiers hn]
    exact ⟨standsOn_of_derives hl, standsOn_of_derives hr⟩
  | compare hc hl hr ihl ihr =>
    refine ⟨.of_operands ?_ trivial, ihl, ihr⟩
    rw [Expr.HasOperandsOnTier, hc.operandTiers]
    exact ⟨standsOn_of_derives hl, standsOn_of_derives hr⟩
  | not _ hd ih | neg hd ih =>
    exact ⟨.of_operands (standsOn_of_derives hd) trivial, ih⟩
  | isNull _ _ _ _ ih => exact ⟨Expr.isPlaced_isNull _ _, ih⟩
  | between _ _ _ he hl hh ih ihl ihh =>
    exact ⟨.of_operands ⟨standsOn_of_derives he, standsOn_of_derives hl, standsOn_of_derives hh⟩
      trivial, ih, ihl, ihh⟩
  | inList _ _ he _ _ ih ihs =>
    refine ⟨.of_operands (standsOn_of_derives he) trivial, ih, Expr.everywhereIn_iff.2 ?_⟩
    intro e h
    obtain ⟨x, hx, rfl⟩ := List.mem_map.1 h
    exact ihs x hx
  | like _ _ he hp ih ihp =>
    exact ⟨.of_operands ⟨standsOn_of_derives he, standsOn_of_derives hp⟩ trivial, ih, ihp⟩
  | nested _ ih => exact ⟨.of_operands trivial trivial, ih⟩
  | call _ hc ihs =>
    refine placed_of_calls hc fun e h => ?_
    obtain ⟨x, hx, rfl⟩ := List.mem_map.1 h
    exact ihs x hx
  | currentTimestamp _ => exact ⟨.of_operands trivial trivial, trivial⟩
  | number _ | text _ | date _ | null _ | column _ | qualifiedColumn _ _ =>
    exact Expr.IsPlaced.of_operands trivial trivial

/-! ## Queries -/

/-- A coalesce that the file database is written as a test of its value for null, not as NZ, which
it knows only inside of its own application. -/
def Expr.IsWrittenWithoutNz : Expr → Prop
  | .call .coalesce args => ∃ value fallback,
    (Expr.call .coalesce args).pieces .access =
      Piece.call "IIf" [Piece.call "IsNull" [value], fallback, value]
  | _ => True

theorem Expr.HasCanonicalRoot.withoutNz {e : Expr} (h : e.HasCanonicalRoot) :
    e.IsWrittenWithoutNz := by
  unfold Expr.IsWrittenWithoutNz
  split
  · cases h.1 with
    | coalesce value fallback => exact ⟨value.pieces .access, fallback.pieces .access, rfl⟩
  · trivial

/-- The nodes of a query are such as the writers rely on. -/
structure Query.HasCanonicalNodes (q : Query) : Prop where
  star : q.aggregate.argument = .star →
    q.aggregate.function = .count ∧ q.aggregate.distinct = false
  roots : q.Everywhere Expr.HasCanonicalRoot
  coalesces : q.Everywhere Expr.IsWrittenWithoutNz

/-- So are its nodes, and no operand is in need of parentheses. -/
structure Query.IsCanonical (q : Query) : Prop extends q.HasCanonicalNodes where
  operands : q.Everywhere Expr.HasOperandsOnTier

theorem star_of_derivesQuery {ts : List Token} {q : Query} (h : DerivesQuery ts q)
    (hs : q.aggregate.argument = .star) :
    q.aggregate.function = .count ∧ q.aggregate.distinct = false := by
  cases h with
  | mk _ has _ _ _ _ _ =>
    cases has with
    | star _ => exact ⟨rfl, rfl⟩
    | expr _ _ | distinct _ _ _ => contradiction

/-- What holds of every tree that is derived holds of a query. -/
theorem everywhere_of_derivesQuery {P : Expr → Prop} {ts : List Token} {q : Query}
    (h : DerivesQuery ts q)
    (hP : ∀ {us : List Token} {e : Expr}, Derives .disjunction us e → e.Everywhere P) :
    q.Everywhere P := by
  refine ⟨fun e he => ?_, fun e he => ?_⟩
  · obtain ⟨us, -, hd⟩ := exists_infix_of_argument h he
    exact hP hd
  · obtain ⟨us, -, hd⟩ := exists_infix_of_filter h he
    exact hP hd

theorem canonicalNodes_of_parse {source : String} {q : Query} (h : parse source = .ok q) :
    q.HasCanonicalNodes := by
  obtain ⟨ls, hls, hq⟩ := exists_tokenize_of_parse h
  have hroots : q.Everywhere Expr.HasCanonicalRoot :=
    (everywhere_of_derivesQuery hq derivedRoots_of_derives).map₂
      (fun _ hd hl => hd.canonical hl) (isLexical_of_derivesQuery hq (isLexical_of_tokenize hls))
  exact ⟨star_of_derivesQuery hq, hroots, hroots.mono fun _ he => he.withoutNz⟩

/-- The tree that is read of a source has only nodes such as the writers rely on. Its operands
stand on their tiers, at each node that is not a test for null of what is no sum, and there they do
not; so the tree is canonical exactly if its tests for null test sums. -/
theorem isCanonical_iff_testsSum {source : String} {q : Query} (h : parse source = .ok q) :
    q.HasCanonicalNodes ∧ q.Everywhere Expr.IsPlaced ∧
      (q.IsCanonical ↔ q.Everywhere Expr.TestsSum) := by
  obtain ⟨ls, hls, hq⟩ := exists_tokenize_of_parse h
  have hnodes := canonicalNodes_of_parse h
  have hplaced : q.Everywhere Expr.IsPlaced := everywhere_of_derivesQuery hq placed_of_derives
  refine ⟨hnodes, hplaced, fun hc => ?_, fun ht => ⟨hnodes, ?_⟩⟩
  · exact hplaced.map₂ (fun _ hp ho => hp.1 ho) hc.operands
  · exact hplaced.map₂ (fun _ hp ht => hp.2 ht) ht

theorem isCanonical_round :
    ∃ q, parse "SUM(ROUND(a)) FROM t WHERE b > #2024-01-01#" = .ok q ∧ q.IsCanonical :=
  ⟨_, parse_sum_round, (isCanonical_iff_testsSum parse_sum_round).2.2.2 <| by
    simp [Query.Everywhere, Expr.TestsSum]⟩

/-- A conjunction is tested for null without parentheses. -/
theorem not_isCanonical_isNull_and :
    ∃ q, parse "COUNT(*) FROM t WHERE ISNULL(a AND b)" = .ok q ∧ ¬q.IsCanonical := by
  refine ⟨_, parse_isNull_and, fun h => ?_⟩
  have hand := (h.operands.2 _ rfl).2.1
  simp [Expr.HasOperandsOnTier, Expr.StandsOn, Expr.tier, BinaryOp.tier, Tier.rank] at hand

end MetricBoard.Expression
