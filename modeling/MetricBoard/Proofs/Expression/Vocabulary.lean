import Mathlib.Data.List.Chain
import Mathlib.Logic.ExistsUnique
import MetricBoard.Proofs.Expression.ReadingBack

/-!
# The words of a query

Which keywords a query has, and which of its words stand before an opening parenthesis. Nothing
that the grammar does not know gets in at any place (`supported_of_parse`): one FROM, at most one
WHERE, SELECT in front only, one aggregate, and calls of the recognised functions.
-/

namespace MetricBoard.Expression

/-- The keywords among some tokens. -/
def keywords (ts : List Token) : List Keyword := ts.filterMap Token.keyword?

/-- The keywords that no query has: those of joins, grouping, set operations and CASE. -/
def excludedKeywords : List Keyword :=
  [.join, .inner, .outer, .left, .right, .full, .cross, .on, .group, .order, .by_, .having, .union,
    .top, .into, .case, .when, .then_, .else_, .end_, .exists_, .all, .any]

/-- The keywords that may stand before an opening parenthesis. -/
def openingKeywords : List Keyword :=
  [.and, .or, .not, .in_, .like, .between, .mod, .where_, .with_, .distinct]

/-- A word that may stand before an opening parenthesis: a function or a keyword. -/
def Opening (w : String) : Prop :=
  (Callee.ofWord? w).isSome = true ∨ ∃ k ∈ openingKeywords, Keyword.ofWord? w = some k

/-- The place between `pre` and `post` holds the last part of the table's name, directly before a
lock hint in parentheses. -/
structure IsHintedTable (pre post : List Token) : Prop where
  behindFrom : ∃ front f, f.keyword? = some .from_ ∧
    (pre = front ++ [f] ∨ ∃ t, pre = front ++ [f, t, .dot])
  beforeHint : ∃ h rest, h.isLockHint = true ∧ post = h :: rest

/-- The tokens of a query that the servers may see. -/
structure Supported (ts : List Token) : Prop where
  /-- There is one FROM. -/
  oneFrom : (keywords ts).count .from_ = 1
  /-- There is at most one WHERE. -/
  oneWhere : (keywords ts).count .where_ ≤ 1
  /-- SELECT is the first token or none. -/
  selectFirst : ∀ pre t post, ts = pre ++ t :: post → t.keyword? = some .select → pre = []
  /-- Joins, grouping, set operations and CASE do not occur. -/
  noneExcluded : ∀ k ∈ keywords ts, k ∉ excludedKeywords
  /-- There is one call of an aggregate. -/
  oneAggregate : ∃! pre, ∃ w post, ts = pre ++ .word w :: .lparen :: post ∧
    (AggregateFunction.ofWord? w).isSome = true ∧ ¬ IsHintedTable pre post
  /-- Before any other opening parenthesis stands a function, a keyword or the table. -/
  calls : ∀ pre w post, ts = pre ++ .word w :: .lparen :: post →
    (AggregateFunction.ofWord? w).isSome = true ∨ Opening w ∨ IsHintedTable pre post

/-! ## Keywords -/

@[simp] theorem keywords_nil : keywords [] = [] := rfl

@[simp] theorem keywords_append (ts us : List Token) :
    keywords (ts ++ us) = keywords ts ++ keywords us := List.filterMap_append

theorem keywords_cons_of_eq {t : Token} {k : Keyword} (h : t.keyword? = some k)
    (ts : List Token) : keywords (t :: ts) = k :: keywords ts := List.filterMap_cons_some h

theorem keywords_cons_of_none {t : Token} (h : t.keyword? = none) (ts : List Token) :
    keywords (t :: ts) = keywords ts := List.filterMap_cons_none h

/-- The keywords of a scalar expression. -/
def operandKeywords : List Keyword :=
  [.and, .or, .not, .is, .null, .between, .in_, .like, .mod, .currentTimestamp]

/-- Tokens with no keywords but certain ones. -/
def OnlyKeywords (ks : List Keyword) (ts : List Token) : Prop := ∀ k ∈ keywords ts, k ∈ ks

namespace OnlyKeywords

variable {ks ks' : List Keyword} {ts us : List Token} {t : Token}

theorem nil : OnlyKeywords ks [] := by simp [OnlyKeywords]

theorem mono (h : OnlyKeywords ks ts) (hk : ∀ k ∈ ks, k ∈ ks') : OnlyKeywords ks' ts :=
  fun k hm => hk k (h k hm)

theorem append (ht : OnlyKeywords ks ts) (hu : OnlyKeywords ks us) :
    OnlyKeywords ks (ts ++ us) := by
  intro k hk
  rw [keywords_append, List.mem_append] at hk
  exact hk.elim (ht k) (hu k)

theorem cons_of_none (ht : t.keyword? = none) (hu : OnlyKeywords ks us) :
    OnlyKeywords ks (t :: us) := by
  rw [OnlyKeywords, keywords_cons_of_none ht]
  exact hu

theorem cons_of_name (ht : t.name?.isSome = true) (hu : OnlyKeywords ks us) :
    OnlyKeywords ks (t :: us) := cons_of_none (keyword?_of_name? ht) hu

theorem cons_of_eq {k : Keyword} (ht : t.keyword? = some k) (hk : k ∈ ks)
    (hu : OnlyKeywords ks us) : OnlyKeywords ks (t :: us) := by
  rw [OnlyKeywords, keywords_cons_of_eq ht, List.forall_mem_cons]
  exact ⟨hk, hu⟩

theorem commaJoined {tss : List (List Token)} (h : ∀ ts ∈ tss, OnlyKeywords ks ts) :
    OnlyKeywords ks (commaJoined tss) := by
  induction tss with
  | nil => exact nil
  | cons ts tss ih =>
    obtain ⟨ht, hts⟩ := List.forall_mem_cons.1 h
    cases tss with
    | nil => exact ht
    | cons us tss => exact ht.append (cons_of_none rfl (ih hts))

theorem closed (h : OnlyKeywords ks ts) : OnlyKeywords ks (ts ++ [.rparen]) :=
  h.append (cons_of_none rfl nil)

theorem count_eq_zero (h : OnlyKeywords ks ts) {k : Keyword} (hk : k ∉ ks) :
    (keywords ts).count k = 0 := List.count_eq_zero.2 fun hm => hk (h k hm)

end OnlyKeywords

theorem keyword?_of_joins {p : Tier} {t : Token} {op : BinaryOp} (h : Joins p t op) :
    t.keyword? = none ∨ ∃ k ∈ operandKeywords, k ∈ openingKeywords ∧ t.keyword? = some k := by
  cases h with
  | or h => exact .inr ⟨_, by decide, by decide, h⟩
  | and h => exact .inr ⟨_, by decide, by decide, h⟩
  | mod h => exact .inr ⟨_, by decide, by decide, h⟩
  | _ => exact .inl rfl

theorem onlyKeywords_of_derives {p : Tier} {ts : List Token} {e : Expr} (h : Derives p ts e) :
    OnlyKeywords operandKeywords ts := by
  have negates {negated : Bool} {ns : List Token} (h : Negates negated ns) :
      OnlyKeywords operandKeywords ns := by
    cases h with
    | plain => exact .nil
    | not h => exact .cons_of_eq h (by decide) .nil
  induction h with
  | tighter _ _ ih => exact ih
  | join hj _ _ _ ihl ihr =>
    refine ihl.append ?_
    rcases keyword?_of_joins hj with h | ⟨k, hk, -, h⟩
    · exact .cons_of_none h ihr
    · exact .cons_of_eq h hk ihr
  | not h _ ih => exact .cons_of_eq h (by decide) ih
  | compare hc _ _ ihl ihr =>
    exact ihl.append (.cons_of_none (by cases hc <;> rfl) ihr)
  | isNull hi hn hnull _ ih =>
    exact ih.append (.cons_of_eq hi (by decide)
      ((negates hn).append (.cons_of_eq hnull (by decide) .nil)))
  | between hn hb ha _ _ _ ih ihl ihh =>
    exact ih.append ((negates hn).append (.cons_of_eq hb (by decide)
      (ihl.append (.cons_of_eq ha (by decide) ihh))))
  | inList hn hi _ _ _ ih ihs =>
    have hitems := OnlyKeywords.commaJoined fun us hu => by
      obtain ⟨x, hx, rfl⟩ := List.mem_map.1 hu
      exact ihs x hx
    exact ih.append ((negates hn).append (.cons_of_eq hi (by decide)
      (.cons_of_none rfl hitems.closed)))
  | like hn hk _ _ ih ihp =>
    exact ih.append ((negates hn).append (.cons_of_eq hk (by decide) ihp))
  | neg _ ih | plus _ ih => exact .cons_of_none rfl ih
  | number _ | text _ | date _ => exact .cons_of_none rfl .nil
  | null h => exact .cons_of_eq h (by decide) .nil
  | currentTimestamp h => exact .cons_of_eq h (by decide) .nil
  | column h => exact .cons_of_name (Option.isSome_of_eq_some h) .nil
  | qualifiedColumn h h' =>
    exact .cons_of_name (Option.isSome_of_eq_some h)
      (.cons_of_none rfl (.cons_of_name (Option.isSome_of_eq_some h') .nil))
  | nested _ ih => exact .cons_of_none rfl ih.closed
  | call _ hc ihs =>
    have hitems := OnlyKeywords.commaJoined fun us hu => by
      obtain ⟨x, hx, rfl⟩ := List.mem_map.1 hu
      exact ihs x hx
    exact .cons_of_none hc.ofWord?_eq_none (.cons_of_none rfl hitems.closed)

/-! ## Words before parentheses -/

/-- A token before another: only an opening word stands before an opening parenthesis. -/
def MayPrecede (t u : Token) : Prop := ∀ w, t = .word w → u = .lparen → Opening w

theorem MayPrecede.of_ne {u : Token} (h : u ≠ .lparen) (t : Token) : MayPrecede t u :=
  fun _ _ hu => absurd hu h

theorem MayPrecede.of_opening {t : Token} (h : ∀ w, t = .word w → Opening w) (u : Token) :
    MayPrecede t u := fun w hw _ => h w hw

theorem MayPrecede.of_keyword {t : Token} {k : Keyword} (hk : t.keyword? = some k)
    (ho : k ∈ openingKeywords) (u : Token) : MayPrecede t u :=
  .of_opening (fun w hw => Or.inr ⟨k, ho, by rw [hw] at hk; exact hk⟩) u

theorem Calls.opening {w : String} {args : List Expr} {e : Expr} (h : Calls w args e) :
    Opening w := by
  obtain ⟨f, hw, -⟩ := tree_of_calls h
  exact Or.inl (by rw [Callee.ofWord?_eq_some_iff.2 hw]; rfl)

/-- Tokens in which only opening words stand before an opening parenthesis. -/
def KnownCalls (ts : List Token) : Prop := ts.IsChain MayPrecede

namespace KnownCalls

variable {ts us : List Token} {t : Token}

theorem single (t : Token) : KnownCalls [t] := List.isChain_singleton t

theorem append (ht : KnownCalls ts) (hu : KnownCalls us) (h : us.head? ≠ some .lparen) :
    KnownCalls (ts ++ us) :=
  List.isChain_append.2 ⟨ht, hu, fun x _ _ hy => .of_ne (fun he => h (he ▸ hy)) x⟩

theorem cons (h : us.head? ≠ some .lparen) (hu : KnownCalls us) : KnownCalls (t :: us) :=
  List.isChain_cons.2 ⟨fun _ hy => .of_ne (fun he => h (he ▸ hy)) t, hu⟩

theorem cons_of_opening (h : ∀ w, t = .word w → Opening w) (hu : KnownCalls us) :
    KnownCalls (t :: us) :=
  List.isChain_cons.2 ⟨fun u _ => .of_opening h u, hu⟩

theorem cons_of_keyword {k : Keyword} (hk : t.keyword? = some k) (ho : k ∈ openingKeywords)
    (hu : KnownCalls us) : KnownCalls (t :: us) :=
  List.isChain_cons.2 ⟨fun u _ => .of_keyword hk ho u, hu⟩

theorem cons_mark (h : ∀ w, t ≠ .word w) (hu : KnownCalls us) : KnownCalls (t :: us) :=
  cons_of_opening (fun w hw => absurd hw (h w)) hu

theorem commaJoined {tss : List (List Token)} (h : ∀ ts ∈ tss, KnownCalls ts) :
    KnownCalls (commaJoined tss) := by
  induction tss with
  | nil => exact List.isChain_nil
  | cons ts tss ih =>
    obtain ⟨ht, hts⟩ := List.forall_mem_cons.1 h
    cases tss with
    | nil => exact ht
    | cons us tss => exact ht.append (cons_mark (by simp) (ih hts)) (by simp)

theorem closed (h : KnownCalls ts) : KnownCalls (ts ++ [.rparen]) :=
  h.append (single .rparen) (by simp)

theorem negates {negated : Bool} {ns : List Token} (h : Negates negated ns)
    (hu : KnownCalls us) : KnownCalls (ns ++ us) := by
  cases h with
  | plain => exact hu
  | not hk => exact cons_of_keyword hk (by decide) hu

end KnownCalls

theorem ne_lparen_of_keyword? {t : Token} {k : Keyword} (h : t.keyword? = some k)
    (us : List Token) : (t :: us).head? ≠ some .lparen := by
  obtain ⟨w, rfl⟩ := word_of_keyword? h
  simp

theorem ne_lparen_of_negates {negated : Bool} {ns us : List Token} (h : Negates negated ns)
    (hu : us.head? ≠ some .lparen) : (ns ++ us).head? ≠ some .lparen := by
  cases h with
  | plain => exact hu
  | not hk => exact ne_lparen_of_keyword? hk us

theorem knownCalls_of_joins {p : Tier} {t : Token} {op : BinaryOp} {us : List Token}
    (h : Joins p t op) (hu : KnownCalls us) :
    KnownCalls (t :: us) ∧ (t :: us).head? ≠ some .lparen := by
  cases h with
  | or h | and h | mod h =>
    exact ⟨.cons_of_keyword h (by decide) hu, ne_lparen_of_keyword? h us⟩
  | _ => exact ⟨.cons_mark (by simp) hu, by simp⟩

theorem knownCalls_of_derives {p : Tier} {ts : List Token} {e : Expr} (h : Derives p ts e) :
    KnownCalls ts := by
  induction h with
  | tighter _ _ ih => exact ih
  | join hj _ _ _ ihl ihr =>
    obtain ⟨h, hne⟩ := knownCalls_of_joins hj ihr
    exact ihl.append h hne
  | not h _ ih => exact .cons_of_keyword h (by decide) ih
  | compare hc _ _ ihl ihr =>
    exact ihl.append (.cons_mark (by cases hc <;> simp) ihr) (by cases hc <;> simp)
  | isNull hi hn hnull _ ih =>
    have hne := ne_lparen_of_negates hn (ne_lparen_of_keyword? hnull [])
    exact ih.append (.cons hne (.negates hn (.single _))) (ne_lparen_of_keyword? hi _)
  | between hn hb ha _ _ _ ih ihl ihh =>
    have hlow := ihl.append (.cons_of_keyword ha (by decide) ihh) (ne_lparen_of_keyword? ha _)
    exact ih.append (.negates hn (.cons_of_keyword hb (by decide) hlow))
      (ne_lparen_of_negates hn (ne_lparen_of_keyword? hb _))
  | inList hn hi _ _ _ ih ihs =>
    have hitems := KnownCalls.commaJoined fun us hu => by
      obtain ⟨x, hx, rfl⟩ := List.mem_map.1 hu
      exact ihs x hx
    exact ih.append (.negates hn (.cons_of_keyword hi (by decide)
      (.cons_mark (by simp) hitems.closed))) (ne_lparen_of_negates hn (ne_lparen_of_keyword? hi _))
  | like hn hk _ _ ih ihp =>
    exact ih.append (.negates hn (.cons_of_keyword hk (by decide) ihp))
      (ne_lparen_of_negates hn (ne_lparen_of_keyword? hk _))
  | neg _ ih | plus _ ih => exact .cons_mark (by simp) ih
  | qualifiedColumn _ _ => exact .cons (by simp) (.cons_mark (by simp) (.single _))
  | nested _ ih => exact .cons_mark (by simp) ih.closed
  | call _ hc ihs =>
    have hitems := KnownCalls.commaJoined fun us hu => by
      obtain ⟨x, hx, rfl⟩ := List.mem_map.1 hu
      exact ihs x hx
    refine .cons_of_opening (fun w hw => ?_) (.cons_mark (by simp) hitems.closed)
    obtain rfl := Token.word.inj hw
    exact hc.opening
  | _ => exact .single _

/-! ## The parts of a query -/

/-- An aggregate is neither a function nor a keyword. -/
theorem not_opening_of_aggregate {w : String} (h : (AggregateFunction.ofWord? w).isSome = true) :
    ¬ Opening w := by
  obtain ⟨f, hf⟩ := Option.isSome_iff_exists.1 h
  rintro (hc | ⟨k, -, hk⟩)
  · obtain ⟨c, hc⟩ := Option.isSome_iff_exists.1 hc
    have hname := Callee.ofWord?_eq_some_iff.1 hc
    revert hf
    rw [AggregateFunction.ofWord?, hname]
    cases c <;> simp [Callee.name]
  · rw [ofWord?_of_aggregate hf] at hk
    contradiction

theorem keyword?_of_isLockHint {t : Token} (h : t.isLockHint = true) : t.keyword? = none := by
  cases t with
  | word w =>
    have hw : Text.upper w ∈ lockHints := by simpa [Token.isLockHint] using h
    simp only [lockHints, List.mem_cons, List.not_mem_nil, or_false] at hw
    rw [Token.keyword?, Keyword.ofWord?]
    rcases hw with hw | hw <;> rw [hw] <;> rfl
  | _ => rfl

/-- An aggregate is its word and its argument in parentheses. -/
theorem parts_of_derivesAggregate {as : List Token} {a : Aggregate} (h : DerivesAggregate as a) :
    ∃ w body, as = .word w :: .lparen :: (body ++ [.rparen]) ∧
      (AggregateFunction.ofWord? w).isSome = true ∧
      OnlyKeywords (.distinct :: operandKeywords) body ∧ KnownCalls body := by
  cases h with
  | @star w hw =>
    exact ⟨w, [.star], rfl, Option.isSome_of_eq_some hw, .cons_of_none rfl .nil, .single _⟩
  | @expr w _ ts _ hw he =>
    exact ⟨w, ts, rfl, Option.isSome_of_eq_some hw,
      (onlyKeywords_of_derives he).mono fun k hk => List.mem_cons_of_mem _ hk,
      knownCalls_of_derives he⟩
  | @distinct w _ d ts _ hw hd he =>
    exact ⟨w, d :: ts, rfl, Option.isSome_of_eq_some hw,
      .cons_of_eq hd (by simp)
        ((onlyKeywords_of_derives he).mono fun k hk => List.mem_cons_of_mem _ hk),
      .cons_of_keyword hd (by decide) (knownCalls_of_derives he)⟩

theorem onlyKeywords_of_isAlias {ls : List Token} (h : IsAlias ls) : OnlyKeywords [.as] ls := by
  cases h with
  | none => exact .nil
  | bare ht => exact .cons_of_name ht .nil
  | named ha ht => exact .cons_of_eq ha (by simp) (.cons_of_name ht .nil)
  | text _ ha => exact .cons_of_eq ha (by simp) (.cons_of_none rfl .nil)

theorem onlyKeywords_of_derivesTable {ns : List Token} {n : TableName} (h : DerivesTable ns n) :
    OnlyKeywords [] ns := by
  cases h with
  | bare h => exact .cons_of_name (Option.isSome_of_eq_some h) .nil
  | qualified h h' =>
    exact .cons_of_name (Option.isSome_of_eq_some h)
      (.cons_of_none rfl (.cons_of_name (Option.isSome_of_eq_some h') .nil))

theorem onlyKeywords_of_isHints {hs : List Token} (h : IsHints hs) : OnlyKeywords [.with_] hs := by
  have hints {ts : List Token} (h : IsHintList ts) : OnlyKeywords [.with_] ts := by
    obtain ⟨-, hall⟩ := h
    refine .cons_of_none rfl (OnlyKeywords.closed (.commaJoined fun us hu => ?_))
    obtain ⟨h, hm, rfl⟩ := List.mem_map.1 hu
    exact .cons_of_none (keyword?_of_isLockHint (hall h hm)) .nil
  cases h with
  | none => exact .nil
  | legacy h => exact hints h
  | with_ ht h => exact .cons_of_eq ht (by simp) (hints h)

theorem knownCalls_of_isHints {hs us : List Token} (h : IsHints hs) (hu : KnownCalls us)
    (hne : us.head? ≠ some .lparen) : KnownCalls (hs ++ us) := by
  have hints {ts : List Token} (h : IsHintList ts) : KnownCalls (ts ++ us) := by
    obtain ⟨-, -⟩ := h
    refine .cons_mark (by simp) ((KnownCalls.closed (.commaJoined fun us hu => ?_)).append hu hne)
    obtain ⟨h, -, rfl⟩ := List.mem_map.1 hu
    exact .single h
  cases h with
  | none => exact hu
  | legacy h => exact hints h
  | with_ ht h => exact .cons_of_keyword ht (by decide) (hints h)

theorem head?_of_derivesFilter {ws : List Token} {w : Option Expr} (h : DerivesFilter ws w) :
    ws.head? ≠ some .lparen := by
  cases h with
  | none => simp
  | where_ ht _ => exact ne_lparen_of_keyword? ht _

theorem knownCalls_of_derivesFilter {ws : List Token} {w : Option Expr} (h : DerivesFilter ws w) :
    KnownCalls ws := by
  cases h with
  | none => exact List.isChain_nil
  | where_ ht he => exact .cons_of_keyword ht (by decide) (knownCalls_of_derives he)

theorem ne_lparen_of_name? {t : Token} (h : t.name?.isSome = true) (us : List Token) :
    (t :: us).head? ≠ some .lparen := by
  rintro ⟨⟩
  simp [Token.name?] at h

theorem knownCalls_from {ns : List Token} {n : TableName} (h : DerivesTable ns n) (f : Token) :
    KnownCalls (f :: ns) := by
  cases h with
  | bare ht => exact .cons (ne_lparen_of_name? (Option.isSome_of_eq_some ht) []) (.single _)
  | qualified ht _ =>
    exact .cons (ne_lparen_of_name? (Option.isSome_of_eq_some ht) _)
      (.cons (by simp) (.cons_mark (by simp) (.single _)))

theorem knownCalls_of_isAlias {ls us : List Token} (h : IsAlias ls) (hu : KnownCalls us)
    (hne : us.head? ≠ some .lparen) :
    KnownCalls (ls ++ us) ∧ (ls ++ us).head? ≠ some .lparen := by
  cases h with
  | none => exact ⟨hu, hne⟩
  | bare ht => exact ⟨.cons hne hu, ne_lparen_of_name? ht us⟩
  | named ha ht =>
    exact ⟨.cons (ne_lparen_of_name? ht us) (.cons hne hu), ne_lparen_of_keyword? ha _⟩
  | text _ ha => exact ⟨.cons (by simp) (.cons hne hu), ne_lparen_of_keyword? ha _⟩

/-- A filter is nothing, or WHERE and an expression. -/
theorem keywords_of_derivesFilter {ws : List Token} {w : Option Expr} (h : DerivesFilter ws w) :
    OnlyKeywords (.where_ :: operandKeywords) ws ∧ (keywords ws).count .where_ ≤ 1 := by
  cases h with
  | none => exact ⟨.nil, by simp⟩
  | where_ ht he =>
    have he := onlyKeywords_of_derives he
    refine ⟨.cons_of_eq ht (by simp) (he.mono fun k hk => List.mem_cons_of_mem _ hk), ?_⟩
    rw [keywords_cons_of_eq ht, List.count_cons_self, he.count_eq_zero (by decide)]

/-- The table behind FROM, where lock hints begin with an opening parenthesis. -/
theorem isHintedTable_of_seam {front ns hs ws pre post : List Token} {f t : Token} {n : TableName}
    {w : Option Expr} (hf : f.keyword? = some .from_) (hn : DerivesTable ns n) (hh : IsHints hs)
    (hw : DerivesFilter ws w) (hpre : front ++ f :: ns = pre ++ [t])
    (hpost : hs ++ ws = .lparen :: post) : IsHintedTable pre post := by
  refine ⟨⟨front, f, hf, ?_⟩, ?_⟩
  · cases hn with
    | @bare v _ _ =>
      have h : (front ++ [f]) ++ [v] = pre ++ [t] := by simpa using hpre
      exact .inl (List.append_inj_left' h rfl).symm
    | @qualified u v _ _ _ _ =>
      have h : (front ++ [f, u, .dot]) ++ [v] = pre ++ [t] := by simpa using hpre
      exact .inr ⟨u, (List.append_inj_left' h rfl).symm⟩
  · cases hh with
    | none => exact absurd (by rw [← List.nil_append ws, hpost]; rfl) (head?_of_derivesFilter hw)
    | with_ ht _ =>
      exact absurd (by rw [← List.cons_append, hpost]; rfl) (ne_lparen_of_keyword? ht _)
    | legacy hl =>
      obtain ⟨hne, hall⟩ := hl
      rename_i gs
      cases gs with
      | nil => exact absurd rfl hne
      | cons g gs =>
        have hg := hall g List.mem_cons_self
        cases gs <;> exact ⟨g, _, hg, (List.cons.inj hpost).2.symm⟩

/-! ## Places of a word before a parenthesis -/

theorem KnownCalls.opening {ts pre post : List Token} {w : String} (h : KnownCalls ts)
    (hts : ts = pre ++ .word w :: .lparen :: post) : Opening w := by
  rw [KnownCalls, hts, List.isChain_append_cons_cons] at h
  exact h.2.1 w rfl rfl

/-- A word before an opening parenthesis in two runs of tokens: in the first, at their seam, or in
the second. -/
theorem KnownCalls.opening_or_seam {ts us pre post : List Token} {w : String} (h : KnownCalls ts)
    (hts : ts ++ us = pre ++ .word w :: .lparen :: post) :
    Opening w ∨ (ts = pre ++ [.word w] ∧ us = .lparen :: post) ∨
      ∃ mid, pre = ts ++ mid ∧ us = mid ++ .word w :: .lparen :: post := by
  obtain ⟨mid, hpre, hus⟩ | ⟨mid, rfl, hus⟩ := List.append_eq_append_iff.1 hts
  · exact .inr (.inr ⟨mid, hpre, hus⟩)
  · match mid with
    | [] => exact .inr (.inr ⟨[], by simp, by simpa using hus.symm⟩)
    | [t] =>
      obtain ⟨rfl, rfl⟩ := List.cons.inj hus
      exact .inr (.inl ⟨rfl, rfl⟩)
    | t :: u :: rest =>
      obtain ⟨rfl, hrest⟩ := List.cons.inj hus
      obtain ⟨rfl, -⟩ := List.cons.inj hrest
      exact .inl (h.opening rfl)

/-! ## Queries -/

section Queries

variable {f : Token} {w : String} {ss body ls ns hs ws : List Token} {n : TableName}
  {filter : Option Expr}

/-- The parts of a query, its aggregate as a word and an argument. -/
def queryTokens (w : String) (ss body ls : List Token) (f : Token) (ns hs ws : List Token) :
    List Token :=
  (ss ++ [.word w]) ++ ((.lparen :: (body ++ [.rparen]) ++ (ls ++ f :: ns)) ++ (hs ++ ws))

/-- A word before an opening parenthesis in a query is its aggregate, a function, a keyword or the
table before a lock hint. -/
theorem aggregate_or_opening (hs' : IsSelect ss) (hb : KnownCalls body) (hl : IsAlias ls)
    (hf : f.keyword? = some .from_) (hn : DerivesTable ns n) (hh : IsHints hs)
    (hw : DerivesFilter ws filter) {w' : String} {pre post : List Token}
    (h : queryTokens w ss body ls f ns hs ws = pre ++ .word w' :: .lparen :: post) :
    (pre = ss ∧ w' = w) ∨ Opening w' ∨ IsHintedTable pre post := by
  have hselect : KnownCalls (ss ++ [.word w]) := by
    cases hs' with
    | none => exact .single _
    | select _ => exact .cons (by simp) (.single _)
  have hfrom := knownCalls_of_isAlias hl (knownCalls_from hn f) (ne_lparen_of_keyword? hf ns)
  have hmiddle : KnownCalls (.lparen :: (body ++ [.rparen]) ++ (ls ++ f :: ns)) :=
    .cons_mark (by simp) (hb.closed.append hfrom.1 hfrom.2)
  have hend : KnownCalls (hs ++ ws) :=
    knownCalls_of_isHints hh (knownCalls_of_derivesFilter hw) (head?_of_derivesFilter hw)
  obtain ho | ⟨hpre, -⟩ | ⟨mid, hpre, hmid⟩ := hselect.opening_or_seam h
  · exact .inr (.inl ho)
  · obtain ⟨rfl, hw⟩ := List.append_inj' hpre rfl
    exact .inl ⟨rfl, (by simpa using hw.symm)⟩
  · obtain ho | ⟨hseam, hpost⟩ | ⟨rest, -, hrest⟩ := hmiddle.opening_or_seam hmid
    · exact .inr (.inl ho)
    · have hfront : ss ++ .word w :: .lparen :: (body ++ .rparen :: ls) ++ f :: ns =
          pre ++ [.word w'] := by
        rw [hpre, List.append_assoc _ mid, ← hseam]
        simp
      exact .inr (.inr (isHintedTable_of_seam hf hn hh hw hfront hpost))
    · exact .inr (.inl (hend.opening hrest))

/-- The aggregate stands at the head, where no table is. -/
theorem not_isHintedTable_of_isSelect (h : IsSelect ss) (post : List Token) :
    ¬ IsHintedTable ss post := by
  rintro ⟨⟨front, f, hf, hfront⟩, -⟩
  have hmem : f ∈ ss := by obtain rfl | ⟨u, rfl⟩ := hfront <;> simp
  cases h with
  | none => simp at hmem
  | select ht =>
    obtain rfl := List.mem_singleton.1 hmem
    simp [ht] at hf

/-- The keywords of a query without its SELECT. -/
def tailKeywords : List Keyword :=
  .distinct :: .as :: .from_ :: .with_ :: .where_ :: operandKeywords

theorem keywords_queryTokens (ha : (AggregateFunction.ofWord? w).isSome = true)
    (hf : f.keyword? = some .from_) (hn : DerivesTable ns n) :
    keywords (queryTokens w ss body ls f ns hs ws) = keywords ss ++
      (keywords body ++ (keywords ls ++ .from_ :: (keywords hs ++ keywords ws))) := by
  obtain ⟨a, ha⟩ := Option.isSome_iff_exists.1 ha
  have hw : (Token.word w).keyword? = none := ofWord?_of_aggregate ha
  have hns : keywords ns = [] := List.eq_nil_iff_forall_not_mem.2 fun k hk =>
    List.not_mem_nil (onlyKeywords_of_derivesTable hn k hk)
  have hmark (us : List Token) : keywords (.lparen :: us) = keywords us ∧
      keywords (.rparen :: us) = keywords us :=
    ⟨keywords_cons_of_none rfl us, keywords_cons_of_none rfl us⟩
  simp [queryTokens, keywords_cons_of_none hw, keywords_cons_of_eq hf, hmark, hns]

theorem onlyKeywords_queryTokens (ha : (AggregateFunction.ofWord? w).isSome = true)
    (hb : OnlyKeywords (.distinct :: operandKeywords) body) (hl : IsAlias ls)
    (hf : f.keyword? = some .from_) (hn : DerivesTable ns n) (hh : IsHints hs)
    (hw : DerivesFilter ws filter) :
    OnlyKeywords tailKeywords (queryTokens w [] body ls f ns hs ws) := by
  have hb : OnlyKeywords tailKeywords body := hb.mono (by decide)
  have hl : OnlyKeywords tailKeywords ls := (onlyKeywords_of_isAlias hl).mono (by decide)
  have hh : OnlyKeywords tailKeywords hs := (onlyKeywords_of_isHints hh).mono (by decide)
  have hw : OnlyKeywords tailKeywords ws := (keywords_of_derivesFilter hw).1.mono (by decide)
  intro k hk
  rw [keywords_queryTokens ha hf hn] at hk
  simp only [keywords_nil, List.nil_append, List.mem_append, List.mem_cons] at hk
  rcases hk with hk | hk | rfl | hk | hk
  · exact hb k hk
  · exact hl k hk
  · decide
  · exact hh k hk
  · exact hw k hk

theorem keywords_of_isSelect (h : IsSelect ss) : OnlyKeywords [.select] ss := by
  cases h with
  | none => exact .nil
  | select ht => exact .cons_of_eq ht (by decide) .nil

/-- Behind the head of a query there is no SELECT. -/
theorem eq_nil_of_select {us pre post : List Token} {t : Token} (hs : IsSelect ss)
    (hu : OnlyKeywords tailKeywords us) (ht : t.keyword? = some .select)
    (h : ss ++ us = pre ++ t :: post) : pre = [] := by
  have hnot : t ∉ us := fun hm =>
    absurd (hu .select (List.mem_filterMap.2 ⟨t, hm, ht⟩)) (by decide)
  cases hs with
  | none =>
    obtain rfl : us = pre ++ t :: post := h
    exact absurd (List.mem_append_right pre List.mem_cons_self) hnot
  | select _ =>
    cases pre with
    | nil => rfl
    | cons x pre =>
      obtain ⟨-, rfl⟩ := List.cons.inj h
      exact absurd (List.mem_append_right pre List.mem_cons_self) hnot

theorem supported_of_derivesQuery {ts : List Token} {q : Query} (h : DerivesQuery ts q) :
    Supported ts := by
  obtain @⟨f, ss, as, ls, ns, hs, ws, a, n, filter, hss, has, hl, hf, hn, hh, hw⟩ := h
  obtain ⟨w, body, rfl, ha, hb, hcalls⟩ := parts_of_derivesAggregate has
  have hts : ss ++ (.word w :: .lparen :: (body ++ [.rparen]) ++ (ls ++ f :: (ns ++ (hs ++ ws)))) =
      queryTokens w ss body ls f ns hs ws := by simp [queryTokens]
  have hhead : queryTokens w ss body ls f ns hs ws = ss ++ queryTokens w [] body ls f ns hs ws := by
    simp [queryTokens]
  have htail := onlyKeywords_queryTokens ha hb hl hf hn hh hw
  have hselect := keywords_of_isSelect hss
  have halias := onlyKeywords_of_isAlias hl
  have hhints := onlyKeywords_of_isHints hh
  obtain ⟨hfilter, hwhere⟩ := keywords_of_derivesFilter hw
  have hplace {pre post : List Token} {w' : String}
      (h : queryTokens w ss body ls f ns hs ws = pre ++ .word w' :: .lparen :: post) :=
    aggregate_or_opening hss hcalls hl hf hn hh hw h
  rw [hts]
  exact {
    oneFrom := by
      rw [keywords_queryTokens ha hf hn]
      simp [hselect.count_eq_zero, hb.count_eq_zero, halias.count_eq_zero, hhints.count_eq_zero,
        hfilter.count_eq_zero, operandKeywords]
    oneWhere := by
      rw [keywords_queryTokens ha hf hn]
      simpa [hselect.count_eq_zero, hb.count_eq_zero, halias.count_eq_zero, hhints.count_eq_zero,
        operandKeywords] using hwhere
    selectFirst := fun pre t post h ht => eq_nil_of_select hss htail ht (hhead ▸ h)
    noneExcluded := by
      have hall : ∀ k ∈ Keyword.select :: tailKeywords, k ∉ excludedKeywords := by decide
      have hboth : OnlyKeywords (.select :: tailKeywords)
          (ss ++ queryTokens w [] body ls f ns hs ws) :=
        (hselect.mono (by decide)).append (htail.mono fun k hk => List.mem_cons_of_mem _ hk)
      exact fun k hk => hall k (hboth k (hhead ▸ hk))
    oneAggregate := by
      have hat : queryTokens w ss body ls f ns hs ws =
          ss ++ .word w :: .lparen :: (body ++ .rparen :: (ls ++ f :: (ns ++ (hs ++ ws)))) := by
        simp [queryTokens]
      refine ⟨ss, ⟨w, _, hat, ha, not_isHintedTable_of_isSelect hss _⟩, ?_⟩
      rintro pre ⟨w', post, hpost, ha', hnot⟩
      obtain ⟨rfl, -⟩ | ho | ht := hplace hpost
      · rfl
      · exact absurd ho (not_opening_of_aggregate ha')
      · exact absurd ht hnot
    calls := by
      intro pre w' post h
      obtain ⟨-, rfl⟩ | ho | ht := hplace h
      · exact .inl ha
      · exact .inr (.inl ho)
      · exact .inr (.inr ht) }

end Queries

/-- **The words of a query**: whatever is read as a query has one FROM, at most one WHERE, SELECT
in front only, no keyword of a join, a grouping, a set operation or CASE, and one aggregate; before
any other opening parenthesis stands a function, a keyword or the table with a lock hint. -/
theorem supported_of_parse {source : String} {q : Query} (h : parse source = .ok q) :
    ∃ ls, tokenize source = .ok ls ∧ Supported (tokens ls) := by
  cases ht : tokenize source with
  | error f =>
    rw [parse, parseFault, ht] at h
    contradiction
  | ok ls =>
    have hq := toOption_query_eq_some_iff.1 ((parse_eq_ok_iff_query ht).1 h)
    exact ⟨ls, rfl, supported_of_derivesQuery hq⟩

/-- A table may be named like an aggregate, and a column like a keyword. -/
theorem supported_of_parse_hinted :
    ∃ q, parse "SELECT Count(DISTINCT [from]) FROM Sum (NOLOCK)" = .ok q ∧
      ∃ ls, tokenize "SELECT Count(DISTINCT [from]) FROM Sum (NOLOCK)" = .ok ls ∧
        Supported (tokens ls) := by
  have ht : tokenize "SELECT Count(DISTINCT [from]) FROM Sum (NOLOCK)" = .ok [⟨.word "SELECT", 0⟩,
      ⟨.word "Count", 7⟩, ⟨.lparen, 12⟩, ⟨.word "DISTINCT", 13⟩, ⟨.quoted "from", 22⟩,
      ⟨.rparen, 28⟩, ⟨.word "FROM", 30⟩, ⟨.word "Sum", 35⟩, ⟨.lparen, 39⟩, ⟨.word "NOLOCK", 40⟩,
      ⟨.rparen, 46⟩] := toOption_eq_some_iff.1 (by decide +kernel)
  have hq : parse "SELECT Count(DISTINCT [from]) FROM Sum (NOLOCK)" =
      .ok ⟨⟨.count, true, .expr (.column ["from"])⟩, ⟨none, "Sum"⟩, none⟩ := by
    rw [parse_eq_ok_iff_query ht, toOption_query_eq_some_iff]
    exact .mk (.select keyword_select)
      (.distinct (ofWord?_aggregateName .access .count) keyword_distinct
        ((Derives.column rfl).of_primary _))
      .none keyword_from (.bare (Token.name?_word (by decide))) (.legacy isHintList_nolock) .none
  exact ⟨_, hq, supported_of_parse hq⟩

end MetricBoard.Expression
