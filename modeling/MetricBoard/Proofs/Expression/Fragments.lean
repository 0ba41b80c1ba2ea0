import MetricBoard.Expression.Transpile
import MetricBoard.Proofs.Expression.ByteCursor
import MetricBoard.Proofs.Expression.RoundTrip
import MetricBoard.Proofs.Text.Trimming
import MetricBoard.Router.Basic

/-!
# What a rejection quotes

Each reader of tokens that fails blames a place of the tokens that it was given (`Blames`): where one
of them starts, or their end. So what a rejection quotes goes on from the start of a token of the
source, from where the source does not fall apart, or from its beginning or its end (`Quotes`). A
rejection of a query that could be read quotes nothing: it holds the aggregate in the spelling of the
file database (`quotes_or_distinct_of_transpile`).
-/

namespace MetricBoard.Expression

open Text

/-! ## Places of tokens -/

/-- A place of some tokens: where one of them starts, or behind the last. -/
def IsPlaceOf (ts : List Lexeme) (p : Place) : Prop := p = .finish ∨ ∃ t ∈ ts, p = .byte t.offset

variable {α β : Type} {ts us : List Lexeme}

theorem isPlaceOf_head (t : Lexeme) (ts : List Lexeme) : IsPlaceOf (t :: ts) (.byte t.offset) :=
  Or.inr ⟨t, List.mem_cons_self, rfl⟩

theorem IsPlaceOf.of_suffix {p : Place} (h : IsPlaceOf us p) (hs : us <:+ ts) : IsPlaceOf ts p :=
  h.imp_right fun ⟨t, ht, hp⟩ => ⟨t, hs.subset ht, hp⟩

theorem isPlaceOf_placeOf (ts : List Lexeme) : IsPlaceOf ts (placeOf ts) := by
  cases ts with
  | nil => exact Or.inl rfl
  | cons t ts => exact isPlaceOf_head t ts

/-- A result of reading some tokens: a fault blames a place of them. -/
def Blames (ts : List Lexeme) (good : α → Prop) : Except Fault α → Prop
  | .ok x => good x
  | .error f => IsPlaceOf ts f.place

namespace Blames

variable {good : α → Prop} {r : Except Fault α}

/-- What is read behind some of the tokens may blame all of them. -/
theorem bind {good' : β → Prop} {g : α → Except Fault β} (h : Blames us good r) (hs : us <:+ ts)
    (hg : ∀ x, good x → Blames ts good' (g x)) : Blames ts good' (r >>= g) := by
  cases r with
  | error f => exact IsPlaceOf.of_suffix h hs
  | ok x => exact hg x h

theorem mono {good' : α → Prop} (h : Blames us good r) (hs : us <:+ ts)
    (hgood : ∀ x, good x → good' x) : Blames ts good' r := by
  cases r with
  | error f => exact IsPlaceOf.of_suffix h hs
  | ok x => exact hgood x h

theorem map {good' : β → Prop} {g : α → β} (h : Blames us good r) (hs : us <:+ ts)
    (hg : ∀ x, good x → good' (g x)) : Blames ts good' (r.map g) := by
  cases r with
  | error f => exact IsPlaceOf.of_suffix h hs
  | ok x => exact hg x h

theorem faultAt (hs : us <:+ ts) (reason : Reason) : Blames ts good (.error (faultAt us reason)) :=
  (isPlaceOf_placeOf us).of_suffix hs

end Blames

/-- A reader of some tokens leaves an end of them, or blames a place of them. -/
def StaysIn (ts : List Lexeme) {n : Nat} (r : Except Fault (Parsed α n)) : Prop :=
  Blames ts (fun x => x.rest <:+ ts) r

/-! ## Marks, keywords and names -/

theorem blames_expect (token : Token) (reason : Reason) (ts : List Lexeme) :
    Blames ts (fun r => r.1 <:+ ts) (expect token reason ts) := by
  unfold expect
  split
  · split
    · exact List.suffix_cons _ _
    · exact Blames.faultAt List.suffix_rfl reason
  · exact Blames.faultAt List.suffix_rfl reason

theorem blames_expectKeyword (keyword : Keyword) (reason : Reason) (ts : List Lexeme) :
    Blames ts (fun r => r.1 <:+ ts) (expectKeyword keyword reason ts) := by
  unfold expectKeyword
  split
  · split
    · exact List.suffix_cons _ _
    · exact Blames.faultAt List.suffix_rfl reason
  · exact Blames.faultAt List.suffix_rfl reason

theorem eatKeyword_suffix (keyword : Keyword) (ts : List Lexeme) :
    (eatKeyword keyword ts).2.1 <:+ ts := by
  unfold eatKeyword
  split
  · split
    · exact List.suffix_cons _ _
    · exact List.suffix_rfl
  · exact List.suffix_rfl

/-- The last part of a name is one of the tokens, or was read before them. -/
theorem blames_nameParts (parts : List String) (last : Place) (ts : List Lexeme) :
    Blames ts (fun d => d.rest <:+ ts ∧ (d.value.last = last ∨ IsPlaceOf ts d.value.last))
      (nameParts parts last ts) := by
  fun_induction nameParts parts last ts with
  | case1 parts last o t vs name hn ih =>
    have hs : vs <:+ ⟨.dot, o⟩ :: t :: vs := ⟨[⟨.dot, o⟩, t], rfl⟩
    refine ih.bind hs fun ⟨d, ws, h⟩ hd => ⟨hd.1.trans hs, .inr ?_⟩
    rcases hd.2 with hlast | hlast
    · exact hlast ▸ (isPlaceOf_head t vs).of_suffix (List.suffix_cons _ _)
    · exact hlast.of_suffix hs
  | case2 | case3 => exact Blames.faultAt (List.suffix_cons _ _) _
  | case4 => exact ⟨List.suffix_rfl, .inl rfl⟩

/-- A name that begins with a token blames this token at the earliest. -/
theorem blames_name (parts : List String) (t : Lexeme) (us : List Lexeme) :
    Blames (t :: us) (fun d => d.rest <:+ t :: us ∧ IsPlaceOf (t :: us) d.value.last)
      (nameParts parts (.byte t.offset) us) := by
  have hus : us <:+ t :: us := List.suffix_cons t us
  refine (blames_nameParts parts _ us).mono hus fun d ⟨hrest, hlast⟩ => ⟨hrest.trans hus, ?_⟩
  rcases hlast with hlast | hlast
  · exact hlast ▸ isPlaceOf_head t us
  · exact hlast.of_suffix hus

theorem blames_columnOf {ts : List Lexeme} {name : DottedName} (h : IsPlaceOf ts name.last) :
    Blames ts (fun _ => True) (columnOf name) := by
  unfold columnOf
  split
  · exact h
  · trivial

/-! ## Scalar expressions -/

mutual

theorem staysIn_chain (level : Level) (ts : List Lexeme) : StaysIn ts (chain level ts) := by
  rw [chain]
  refine Blames.bind (staysIn_operand level ts) List.suffix_rfl fun ⟨first, us, h⟩ hs => ?_
  exact Blames.bind (staysIn_chainTail level first us) hs fun ⟨e, vs, h'⟩ hs' => hs'.trans hs
termination_by (ts.length, level.height + 1)
decreasing_by
  · exact Prod.Lex.right _ (Nat.lt_succ_self _)
  · exact Prod.Lex.left _ _ h

theorem staysIn_chainTail (level : Level) (left : Expr) (ts : List Lexeme) :
    StaysIn ts (chainTail level left ts) := by
  match ts with
  | [] =>
    rw [chainTail]
    exact List.suffix_rfl
  | t :: us =>
    rw [chainTail]
    have hus : us <:+ t :: us := List.suffix_cons t us
    split
    · refine Blames.bind (staysIn_operand level us) hus fun ⟨right, vs, h⟩ hs => ?_
      exact Blames.bind (staysIn_chainTail level _ vs) (hs.trans hus) fun ⟨e, ws, h'⟩ hs' =>
        hs'.trans (hs.trans hus)
    · exact List.suffix_rfl
termination_by (ts.length, level.height + 1)
decreasing_by
  · exact Prod.Lex.left _ _ (Nat.lt_succ_self _)
  · exact Prod.Lex.left _ _ (Nat.lt_succ_of_lt h)

theorem staysIn_operand (level : Level) (ts : List Lexeme) : StaysIn ts (operand level ts) := by
  match level with
  | .disjunction =>
    rw [operand]
    exact staysIn_chain .conjunction ts
  | .conjunction =>
    rw [operand]
    exact staysIn_negation ts
  | .sum =>
    rw [operand]
    exact staysIn_chain .product ts
  | .product =>
    rw [operand]
    exact staysIn_signed ts
termination_by (ts.length, level.height)
decreasing_by all_goals exact Prod.Lex.right _ (by decide)

theorem staysIn_negation (ts : List Lexeme) : StaysIn ts (negation ts) := by
  match ts with
  | [] =>
    rw [negation]
    exact staysIn_predicate []
  | t :: us =>
    rw [negation]
    have hus : us <:+ t :: us := List.suffix_cons t us
    split
    · exact Blames.bind (staysIn_negation us) hus fun ⟨e, vs, h⟩ hs => hs.trans hus
    · exact staysIn_predicate (t :: us)
termination_by (ts.length, 8)
decreasing_by
  · exact Prod.Lex.right _ (by omega)
  · exact Prod.Lex.right _ (by omega)
  · exact Prod.Lex.left _ _ (Nat.lt_succ_self _)

theorem staysIn_predicate (ts : List Lexeme) : StaysIn ts (predicate ts) := by
  rw [predicate]
  refine Blames.bind (staysIn_chain .sum ts) List.suffix_rfl fun ⟨left, us, h⟩ hs => ?_
  exact Blames.bind (staysIn_predicateTail left us) hs fun ⟨e, vs, h'⟩ hs' => hs'.trans hs
termination_by (ts.length, 7)
decreasing_by
  · exact Prod.Lex.right _ (by decide)
  · exact Prod.Lex.left _ _ h

theorem staysIn_predicateTail (left : Expr) (ts : List Lexeme) :
    StaysIn ts (predicateTail left ts) := by
  match ts with
  | [] =>
    rw [predicateTail]
    exact List.suffix_rfl
  | t :: us =>
    rw [predicateTail]
    have hus : us <:+ t :: us := List.suffix_cons t us
    split
    · exact Blames.bind (staysIn_chain .sum us) hus fun ⟨right, vs, h⟩ hs => hs.trans hus
    · have hvs := (eatKeyword_suffix .not us).trans hus
      exact Blames.bind (blames_expectKeyword .null .nullExpected _) hvs fun ⟨ws, h⟩ hs =>
        hs.trans hvs
    · split
      · exact Blames.bind (staysIn_rangeTail true left us) hus fun ⟨e, vs, h⟩ hs => hs.trans hus
      · exact List.suffix_rfl
    · exact staysIn_rangeTail false left (t :: us)
termination_by (ts.length, 1)
decreasing_by
  · exact Prod.Lex.left _ _ (Nat.lt_succ_self _)
  · exact Prod.Lex.left _ _ (Nat.lt_succ_self _)
  · exact Prod.Lex.right _ (by omega)

theorem staysIn_rangeTail (negated : Bool) (left : Expr) (ts : List Lexeme) :
    StaysIn ts (rangeTail negated left ts) := by
  match ts with
  | [] =>
    rw [rangeTail]
    exact List.suffix_rfl
  | t :: us =>
    rw [rangeTail]
    have hus : us <:+ t :: us := List.suffix_cons t us
    split
    · refine Blames.bind (staysIn_chain .sum us) hus fun ⟨low, vs, h⟩ hs => ?_
      have hvs := hs.trans hus
      refine Blames.bind (blames_expectKeyword .and .andExpected vs) hvs fun ⟨ws, h'⟩ hs' => ?_
      have hws := hs'.trans hvs
      exact Blames.bind (staysIn_chain .sum ws) hws fun ⟨high, xs, h''⟩ hs'' => hs''.trans hws
    · refine Blames.bind (blames_expect .lparen .openAfterIn us) hus fun ⟨vs, h⟩ hs => ?_
      have hvs := hs.trans hus
      dsimp only
      split
      · exact Blames.faultAt hvs _
      · refine Blames.bind (staysIn_expressions vs) hvs fun ⟨items, ws, h'⟩ hs' => ?_
        have hws := hs'.trans hvs
        exact Blames.bind (blames_expect .rparen .closeAfterIn ws) hws fun ⟨xs, h''⟩ hs'' =>
          hs''.trans hws
    · exact Blames.bind (staysIn_chain .sum us) hus fun ⟨pattern, vs, h⟩ hs => hs.trans hus
    · exact List.suffix_rfl
termination_by (ts.length, 0)
decreasing_by
  · exact Prod.Lex.left _ _ (Nat.lt_succ_self _)
  · exact Prod.Lex.left _ _ (Nat.lt_succ_of_lt (Nat.lt_trans h' h))
  · exact Prod.Lex.left _ _ (Nat.lt_succ_of_lt h)
  · exact Prod.Lex.left _ _ (Nat.lt_succ_self _)

theorem staysIn_signed (ts : List Lexeme) : StaysIn ts (signed ts) := by
  match ts with
  | [] =>
    rw [signed_of_ne (by simp) (by simp)]
    exact staysIn_primary []
  | ⟨t, o⟩ :: us =>
    have hus : us <:+ ⟨t, o⟩ :: us := List.suffix_cons _ us
    by_cases hm : t = .minus
    · subst hm
      rw [signed]
      exact Blames.bind (staysIn_signed us) hus fun ⟨e, vs, h⟩ hs => hs.trans hus
    by_cases hp : t = .plus
    · subst hp
      rw [signed]
      exact Blames.bind (staysIn_signed us) hus fun ⟨e, vs, h⟩ hs => hs.trans hus
    · rw [signed_of_ne (by simp [hm]) (by simp [hp])]
      exact staysIn_primary (⟨t, o⟩ :: us)
termination_by (ts.length, 1)
decreasing_by
  · exact Prod.Lex.right _ (by omega)
  · exact Prod.Lex.left _ _ (Nat.lt_succ_self _)
  · exact Prod.Lex.left _ _ (Nat.lt_succ_self _)
  · exact Prod.Lex.right _ (by omega)

theorem staysIn_primary (ts : List Lexeme) : StaysIn ts (primary ts) := by
  match ts with
  | [] =>
    rw [primary]
    exact Or.inl rfl
  | t :: us =>
    rw [primary]
    have hus : us <:+ t :: us := List.suffix_cons t us
    split
    · exact hus
    · exact hus
    · exact hus
    · split
      · exact Blames.faultAt hus _
      · refine Blames.bind (staysIn_chain .disjunction us) hus fun ⟨e, vs, h⟩ hs => ?_
        have hvs := hs.trans hus
        exact Blames.bind (blames_expect .rparen .closeExpected vs) hvs fun ⟨ws, h'⟩ hs' =>
          hs'.trans hvs
    · refine Blames.bind (blames_name _ t us) List.suffix_rfl fun ⟨d, vs, h⟩ hd => ?_
      exact Blames.bind (blames_columnOf hd.2) List.suffix_rfl fun _ _ => hd.1
    · rename_i w _
      split
      · exact hus
      · exact hus
      · by_cases hp : ∃ o vs, us = ⟨.lparen, o⟩ :: vs
        · obtain ⟨o, vs, hcall⟩ := hp
          have hvs : vs <:+ t :: us := ⟨[t, ⟨.lparen, o⟩], by rw [hcall]; rfl⟩
          rw [hcall] at hvs ⊢
          refine Blames.bind (staysIn_arguments vs) hvs fun ⟨args, ws, h⟩ hs => ?_
          dsimp only
          split
          · exact hs.trans hvs
          · exact isPlaceOf_head t _
        · split
          · exact absurd ⟨_, _, rfl⟩ hp
          · split
            · exact isPlaceOf_head t us
            · exact isPlaceOf_head t us
            · refine Blames.bind (blames_name _ t us) List.suffix_rfl fun ⟨d, vs, h⟩ hd => ?_
              exact Blames.bind (blames_columnOf hd.2) List.suffix_rfl fun _ _ => hd.1
    · exact isPlaceOf_head t us
termination_by (ts.length, 0)
decreasing_by
  · exact Prod.Lex.left _ _ (Nat.lt_succ_self _)
  · exact Prod.Lex.left _ _ (Nat.lt_succ_of_lt (by rw [hcall]; exact Nat.lt_succ_self _))

theorem staysIn_arguments (ts : List Lexeme) : StaysIn ts (arguments ts) := by
  rw [arguments.eq_def]
  split
  · exact List.suffix_cons _ _
  · refine Blames.bind (staysIn_expressions ts) List.suffix_rfl fun ⟨args, us, h⟩ hs => ?_
    exact Blames.bind (blames_expect .rparen .closeAfterArguments us) hs fun ⟨vs, h'⟩ hs' =>
      hs'.trans hs
termination_by (ts.length, 14)
decreasing_by exact Prod.Lex.right _ (by omega)

theorem staysIn_expressions (ts : List Lexeme) : StaysIn ts (expressions ts) := by
  rw [expressions]
  refine Blames.bind (staysIn_chain .disjunction ts) List.suffix_rfl fun ⟨e, us, h⟩ hs => ?_
  exact Blames.bind (staysIn_moreExpressions us) hs fun ⟨es, vs, h'⟩ hs' => hs'.trans hs
termination_by (ts.length, 13)
decreasing_by
  · exact Prod.Lex.right _ (by decide)
  · exact Prod.Lex.left _ _ h

theorem staysIn_moreExpressions (ts : List Lexeme) : StaysIn ts (moreExpressions ts) := by
  by_cases hc : ∃ o us, ts = ⟨.comma, o⟩ :: us
  · obtain ⟨o, us, hts⟩ := hc
    rw [hts, moreExpressions]
    have hus : us <:+ ⟨.comma, o⟩ :: us := List.suffix_cons _ us
    exact Blames.bind (staysIn_expressions us) hus fun ⟨es, vs, h⟩ hs => hs.trans hus
  · rw [moreExpressions]
    · exact List.suffix_rfl
    · exact fun o us e => hc ⟨o, us, e⟩
termination_by (ts.length, 0)
decreasing_by exact Prod.Lex.left _ _ (by rw [hts]; exact Nat.lt_succ_self _)

end

/-! ## Queries -/

theorem blames_argument (f : AggregateFunction) (distinct : Bool) (ts : List Lexeme) :
    Blames ts (fun r => r.2 <:+ ts) (aggregate.argument f distinct ts) := by
  unfold aggregate.argument
  split
  · split
    · exact List.suffix_cons _ _
    · exact Blames.faultAt List.suffix_rfl _
  · exact Blames.bind (staysIn_chain .disjunction ts) List.suffix_rfl fun ⟨e, us, h⟩ hs => hs

theorem blames_aggregate (ts : List Lexeme) :
    Blames ts (fun r => r.2 <:+ ts) (aggregate ts) := by
  unfold aggregate
  split
  · split
    · rename_i w o us _ function _
      have hus : us <:+ ⟨.word w, o⟩ :: us := List.suffix_cons _ us
      refine Blames.bind (blames_expect .lparen .openAfterAggregate us) hus fun ⟨vs, _⟩ hs => ?_
      have hws := (eatKeyword_suffix .distinct vs).trans (hs.trans hus)
      refine Blames.bind (blames_argument function _ _) hws fun ⟨argument, xs⟩ hs' => ?_
      have hxs := hs'.trans hws
      exact Blames.bind (blames_expect .rparen .closeAfterAggregate xs) hxs fun ⟨ys, _⟩ hs'' =>
        hs''.trans hxs
    · exact Blames.faultAt List.suffix_rfl _
  · exact Blames.faultAt List.suffix_rfl _

theorem blames_dropAlias (ts : List Lexeme) : Blames ts (· <:+ ts) (dropAlias ts) := by
  unfold dropAlias
  split
  · have htail : ts.tail <:+ ts := List.tail_suffix ts
    split
    · rename_i us hts
      rw [hts] at htail
      exact (List.suffix_cons _ us).trans htail
    · rename_i t us _ hts
      rw [hts] at htail
      split
      · exact (List.suffix_cons t us).trans htail
      · exact Blames.faultAt htail _
    · exact Or.inl rfl
  · split
    · split
      · exact List.suffix_cons _ _
      · exact List.suffix_rfl
    · exact List.suffix_rfl

theorem blames_dottedName (reason : Reason) (ts : List Lexeme) :
    Blames ts (fun d => d.rest <:+ ts ∧ IsPlaceOf ts d.value.last) (dottedName reason ts) := by
  unfold dottedName
  split
  · split
    · exact Blames.bind (blames_name _ _ _) List.suffix_rfl fun ⟨d, vs, h⟩ hd => hd
    · exact Blames.faultAt List.suffix_rfl _
  · exact Blames.faultAt List.suffix_rfl _

theorem blames_table (ts : List Lexeme) : Blames ts (fun r => r.2 <:+ ts) (table ts) := by
  unfold table
  refine Blames.bind (blames_dottedName .tableExpected ts) List.suffix_rfl
    fun ⟨name, us, h⟩ hd => ?_
  dsimp only
  split
  · exact Blames.faultAt hd.1 _
  · split
    · exact hd.1
    · exact hd.1
    · exact hd.2

theorem blames_dropHints (ts : List Lexeme) : Blames ts (· <:+ ts) (dropHints ts) := by
  fun_induction dropHints ts with
  | case1 => exact Or.inl rfl
  | case2 t _ o vs ih =>
    have hvs : vs <:+ t :: ⟨.comma, o⟩ :: vs := ⟨[t, ⟨.comma, o⟩], rfl⟩
    exact ih.mono hvs fun ws hws => hws.trans hvs
  | case3 t _ us =>
    have hus : us <:+ t :: us := List.suffix_cons t us
    exact Blames.map (blames_expect .rparen .closeAfterHints us) hus fun _ hs => hs.trans hus
  | case4 => exact Blames.faultAt List.suffix_rfl _

theorem blames_dropTableHints (ts : List Lexeme) : Blames ts (· <:+ ts) (dropTableHints ts) := by
  unfold dropTableHints
  split
  · have htail : ts.tail <:+ ts := List.tail_suffix ts
    refine Blames.bind (blames_expect .lparen .openAfterWith ts.tail) htail fun ⟨us, _⟩ hs => ?_
    have hus := hs.trans htail
    exact (blames_dropHints us).mono hus fun vs hvs => hvs.trans hus
  · split
    · rename_i o us _
      have hus : us <:+ ⟨.lparen, o⟩ :: us := List.suffix_cons _ us
      exact (blames_dropHints us).mono hus fun vs hvs => hvs.trans hus
    · exact List.suffix_rfl

theorem blames_filter (ts : List Lexeme) : Blames ts (fun r => r.2 <:+ ts) (filter ts) := by
  unfold filter
  split
  · have htail : ts.tail <:+ ts := List.tail_suffix ts
    exact Blames.bind (staysIn_chain .disjunction ts.tail) htail fun ⟨e, us, h⟩ hs =>
      hs.trans htail
  · exact List.suffix_rfl

/-- A query that is not read blames one of its tokens or their end. -/
theorem blames_query (ts : List Lexeme) : Blames ts (fun _ => True) (query ts) := by
  unfold query
  have hus := eatKeyword_suffix .select ts
  generalize eatKeyword .select ts = start at hus
  obtain ⟨_, us, _⟩ := start
  dsimp only at hus ⊢
  split
  · exact Blames.faultAt hus _
  refine Blames.bind (blames_aggregate us) hus fun ⟨aggregate, vs⟩ hs => ?_
  have hvs := hs.trans hus
  refine Blames.bind (blames_dropAlias vs) hvs fun ws hs => ?_
  have hws := hs.trans hvs
  split
  · exact Blames.faultAt hws _
  refine Blames.bind (blames_expectKeyword .from_ .fromExpected ws) hws fun ⟨xs, _⟩ hs => ?_
  have hxs := hs.trans hws
  refine Blames.bind (blames_table xs) hxs fun ⟨table, ys⟩ hs => ?_
  have hys := hs.trans hxs
  refine Blames.bind (blames_dropTableHints ys) hys fun zs hs => ?_
  have hzs := hs.trans hys
  refine Blames.bind (blames_filter zs) hzs fun ⟨filter, rest⟩ hs => ?_
  have hrest := hs.trans hzs
  dsimp only
  split
  · trivial
  · exact Blames.faultAt hrest _

/-! ## The quoted text -/

/-- Where a source may be quoted from, as the text before the place: the start of a token, the place
at which the source does not fall apart, its end, or, if it has no tokens, its beginning. -/
inductive QuoteStart (source : String) : List Char → Prop
  | token {ls : List Lexeme} {l : Lexeme} {front : List Char} :
    tokenize source = .ok ls → l ∈ ls → l.offset = byteCount front → QuoteStart source front
  | lexical {f : Fault} {front : List Char} :
    tokenize source = .error f → f.place = .byte (byteCount front) → QuoteStart source front
  | finish : QuoteStart source source.toList
  | noTokens : tokenize source = .ok [] → QuoteStart source []

/-- A text that is quoted of a source: it goes on from such a place, cut to 48 characters, and
without the blanks at its end. -/
def Quotes (source fragment : String) : Prop :=
  ∃ front rest, source.toList = front ++ rest ∧ QuoteStart source front ∧
    fragment = String.ofList (trimEndChars (rest.take 48))

/-- What is quoted of a source occurs in it. -/
theorem Quotes.infix {source fragment : String} (h : Quotes source fragment) :
    fragment.toList <:+: source.toList := by
  obtain ⟨front, rest, hsource, -, rfl⟩ := h
  rw [hsource, String.toList_ofList]
  have hprefix : trimEndChars (rest.take 48) <+: rest :=
    (isPrefix_trimEndChars _).trans (List.take_prefix 48 rest)
  exact hprefix.isInfix.trans (List.suffix_append front rest).isInfix

theorem quotes_of_byte {source : String} {front rest : List Char} {p : Place}
    (hsource : source.toList = front ++ rest) (hstart : QuoteStart source front)
    (hp : p = .byte (byteCount front)) : Quotes source (p.fragment source) := by
  refine ⟨front, rest, hsource, hstart, ?_⟩
  rw [hp, Place.fragment, Place.tail, hsource, dropBytes_append]
  rfl

/-- A fault of a source lies where the source may be quoted from. -/
theorem quotes_of_parseFault {source : String} {f : Fault} (h : parseFault source = .error f) :
    Quotes source (f.place.fragment source) := by
  unfold parseFault at h
  cases ht : tokenize source with
  | error f' =>
    rw [ht] at h
    obtain rfl := Except.error.inj h
    obtain ⟨front, rest, -, hsource, -, hp, -⟩ := exists_offends_of_tokenize ht
    exact quotes_of_byte hsource (.lexical ht hp) hp
  | ok ls =>
    rw [ht] at h
    cases ls with
    | nil =>
      obtain rfl := Except.error.inj h
      exact quotes_of_byte rfl (.noTokens ht) rfl
    | cons l ls =>
      have hb := blames_query (l :: ls)
      change query (l :: ls) = .error f at h
      rw [h] at hb
      rcases hb with hp | ⟨t, hmem, hp⟩
      · exact ⟨source.toList, [], (List.append_nil _).symm, .finish, by rw [hp]; rfl⟩
      · obtain ⟨front, lex, rest, hsource, ho, -⟩ := exists_lexeme_of_tokenize ht hmem
        exact quotes_of_byte hsource (.token ht hmem ho) (ho ▸ hp)

theorem quotes_of_parse {source : String} {r : Rejection} (h : parse source = .error r) :
    Quotes source r.fragment := by
  unfold parse at h
  cases hf : parseFault source with
  | ok q =>
    rw [hf] at h
    contradiction
  | error f =>
    rw [hf] at h
    obtain rfl := Except.error.inj h
    exact quotes_of_parseFault hf

/-- **A rejection quotes the source**, from the start of a token, from where the source does not fall
apart, or from its beginning or its end. Only the rejection of a DISTINCT aggregate for the file
database does not: it is made of the query that was read, and holds the aggregate as the file
database would have been written it. -/
theorem quotes_or_distinct_of_transpile {d : Dialect} {source : String} {r : Rejection}
    (h : transpile d source = .error r) :
    parse source = .error r ∧ Quotes source r.fragment ∧ r.fragment.toList <:+: source.toList ∨
    ∃ q, parse source = .ok q ∧ d = .access ∧ q.aggregate.distinct = true ∧
      r = ⟨String.ofList (Piece.text (q.aggregate.pieces .access)), .distinct⟩ := by
  unfold transpile at h
  cases hp : parse source with
  | error r' =>
    rw [hp] at h
    obtain rfl := Except.error.inj h
    have hq := quotes_of_parse hp
    exact .inl ⟨rfl, hq, hq.infix⟩
  | ok q =>
    rw [hp] at h
    change q.sql d = .error r at h
    unfold Query.sql at h
    split at h
    · rename_i hd
      obtain ⟨rfl, hdistinct⟩ := hd
      exact .inr ⟨q, rfl, rfl, hdistinct, (Except.error.inj h).symm⟩
    · contradiction

/-- The trailing blank is left out. -/
theorem quotes_separator :
    transpile (.tsql "dbo") "SUM(x) FROM t; DROP TABLE t " =
      .error ⟨"; DROP TABLE t", .separator⟩ ∧
    Quotes "SUM(x) FROM t; DROP TABLE t " "; DROP TABLE t" := by
  have hp : transpile (.tsql "dbo") "SUM(x) FROM t; DROP TABLE t " =
      .error ⟨"; DROP TABLE t", .separator⟩ := by
    have ht : tokenize "SUM(x) FROM t; DROP TABLE t " = .error ⟨.byte 13, .separator⟩ := by
      rw [tokenize_eq_lexemesWithin]
      rfl
    rw [transpile, parse, parseFault, ht]
    rfl
  refine ⟨hp, ?_⟩
  rcases quotes_or_distinct_of_transpile hp with ⟨-, hq, -⟩ | ⟨_, _, hd, _⟩
  · exact hq
  · contradiction

theorem parse_count_distinct : parse "COUNT(DISTINCT a) FROM t" =
    .ok ⟨⟨.count, true, .expr (.column ["a"])⟩, ⟨none, "t"⟩, none⟩ := by
  have ht : tokenize "COUNT(DISTINCT a) FROM t" = .ok [⟨.word "COUNT", 0⟩, ⟨.lparen, 5⟩,
      ⟨.word "DISTINCT", 6⟩, ⟨.word "a", 15⟩, ⟨.rparen, 16⟩, ⟨.word "FROM", 18⟩,
      ⟨.word "t", 23⟩] := by
    rw [tokenize_eq_lexemesWithin]
    rfl
  have a := Derives.column (Token.name?_word (w := "a") (by decide))
  rw [parse_eq_ok_iff_query ht, toOption_query_eq_some_iff]
  exact .mk .none (.distinct (ofWord?_aggregateName (.tsql "") .count) keyword_distinct
    (a.of_primary .disjunction)) .none keyword_from (.bare (Token.name?_word (by decide))) .none
    .none

/-- The fragment of a DISTINCT aggregate has the spelling of the file database. -/
theorem not_quotes_distinct :
    ∃ r, transpile .access "COUNT(DISTINCT a) FROM t" = .error r ∧
      r.fragment = "Count(DISTINCT a)" ∧
      ¬r.fragment.toList <:+: "COUNT(DISTINCT a) FROM t".toList := by
  have hlower : 'o' ∉ "COUNT(DISTINCT a) FROM t".toList := by decide
  refine ⟨⟨"Count(DISTINCT a)", .distinct⟩, ?_, rfl, fun h => hlower (h.subset (by decide))⟩
  have ha : nameToken "a" = .word "a" := nameToken_of_isWord rfl rfl rfl (by decide)
  unfold transpile
  rw [parse_count_distinct]
  change Query.sql .access ⟨⟨.count, true, .expr (.column ["a"])⟩, ⟨none, "t"⟩, none⟩ = _
  rw [Query.sql, if_pos ⟨rfl, rfl⟩]
  simp only [Aggregate.pieces, Argument.pieces, Expr.pieces, columnPieces, ha]
  rfl

end MetricBoard.Expression
