import MetricBoard.Proofs.Expression.Grammar
import MetricBoard.Proofs.Expression.Lexing

/-!
# The text of a query and its tokens

Whatever tree a query has, and whatever names and texts stand in it, its text is split into the
tokens that it was written with (`tokenize_sql`), as long as its numbers and dates are such as a
source can have. A query that was read from a source has only such (`isLexical_of_derivesQuery`).
-/

namespace MetricBoard.Expression

open Text

/-! ## Properties of all subtrees -/

mutual

/-- A property of a tree and of all the trees in it. -/
def Expr.Everywhere (P : Expr → Prop) : Expr → Prop
  | .column parts => P (.column parts)
  | .number n => P (.number n)
  | .text s => P (.text s)
  | .date s => P (.date s)
  | .null => P .null
  | .call f args => P (.call f args) ∧ Expr.EverywhereIn P args
  | .unary op e => P (.unary op e) ∧ e.Everywhere P
  | .binary op l r => P (.binary op l r) ∧ l.Everywhere P ∧ r.Everywhere P
  | .isNull n e => P (.isNull n e) ∧ e.Everywhere P
  | .between n e low high =>
    P (.between n e low high) ∧ e.Everywhere P ∧ low.Everywhere P ∧ high.Everywhere P
  | .inList n e items => P (.inList n e items) ∧ e.Everywhere P ∧ Expr.EverywhereIn P items
  | .like n e pattern => P (.like n e pattern) ∧ e.Everywhere P ∧ pattern.Everywhere P
  | .nested e => P (.nested e) ∧ e.Everywhere P

/-- A property of some trees and of all the trees in them. -/
def Expr.EverywhereIn (P : Expr → Prop) : List Expr → Prop
  | [] => True
  | e :: es => e.Everywhere P ∧ Expr.EverywhereIn P es

end

attribute [simp] Expr.Everywhere Expr.EverywhereIn

theorem Expr.everywhereIn_iff {P : Expr → Prop} {es : List Expr} :
    Expr.EverywhereIn P es ↔ ∀ e ∈ es, e.Everywhere P := by
  induction es with
  | nil => simp
  | cons e es ih => simp [ih]

section Combining

variable {P Q R : Expr → Prop}

mutual

theorem Expr.Everywhere.map₂ (h : ∀ e, P e → Q e → R e) :
    ∀ {e : Expr}, e.Everywhere P → e.Everywhere Q → e.Everywhere R
  | .column _, p, q | .number _, p, q | .text _, p, q | .date _, p, q | .null, p, q => h _ p q
  | .call _ _, p, q => ⟨h _ p.1 q.1, Expr.EverywhereIn.map₂ h p.2 q.2⟩
  | .unary _ _, p, q | .isNull _ _, p, q | .nested _, p, q => ⟨h _ p.1 q.1, p.2.map₂ h q.2⟩
  | .binary _ _ _, p, q | .like _ _ _, p, q =>
    ⟨h _ p.1 q.1, p.2.1.map₂ h q.2.1, p.2.2.map₂ h q.2.2⟩
  | .between _ _ _ _, p, q =>
    ⟨h _ p.1 q.1, p.2.1.map₂ h q.2.1, p.2.2.1.map₂ h q.2.2.1, p.2.2.2.map₂ h q.2.2.2⟩
  | .inList _ _ _, p, q =>
    ⟨h _ p.1 q.1, p.2.1.map₂ h q.2.1, Expr.EverywhereIn.map₂ h p.2.2 q.2.2⟩

theorem Expr.EverywhereIn.map₂ (h : ∀ e, P e → Q e → R e) :
    ∀ {es : List Expr}, Expr.EverywhereIn P es → Expr.EverywhereIn Q es → Expr.EverywhereIn R es
  | [], _, _ => trivial
  | _ :: _, p, q => ⟨p.1.map₂ h q.1, Expr.EverywhereIn.map₂ h p.2 q.2⟩

end

theorem Expr.Everywhere.mono (h : ∀ e, P e → Q e) {e : Expr} (p : e.Everywhere P) :
    e.Everywhere Q := p.map₂ (fun e hp _ => h e hp) p

mutual

theorem Expr.Everywhere.deep : ∀ {e : Expr}, e.Everywhere P → e.Everywhere fun e => e.Everywhere P
  | .column _, p | .number _, p | .text _, p | .date _, p | .null, p => p
  | .call _ _, p => ⟨p, Expr.EverywhereIn.deep p.2⟩
  | .unary _ _, p | .isNull _ _, p | .nested _, p => ⟨p, p.2.deep⟩
  | .binary _ _ _, p | .like _ _ _, p => ⟨p, p.2.1.deep, p.2.2.deep⟩
  | .between _ _ _ _, p => ⟨p, p.2.1.deep, p.2.2.1.deep, p.2.2.2.deep⟩
  | .inList _ _ _, p => ⟨p, p.2.1.deep, Expr.EverywhereIn.deep p.2.2⟩

theorem Expr.EverywhereIn.deep : ∀ {es : List Expr},
    Expr.EverywhereIn P es → Expr.EverywhereIn (fun e => e.Everywhere P) es
  | [], _ => trivial
  | _ :: _, p => ⟨p.1.deep, Expr.EverywhereIn.deep p.2⟩

end

/-- A property of the expressions of a query. -/
def Query.Everywhere (P : Expr → Prop) (q : Query) : Prop :=
  (∀ e, q.aggregate.argument = .expr e → e.Everywhere P) ∧ ∀ e, q.filter = some e → e.Everywhere P

theorem Query.Everywhere.map₂ (h : ∀ e, P e → Q e → R e) {q : Query} (hp : q.Everywhere P)
    (hq : q.Everywhere Q) : q.Everywhere R :=
  ⟨fun e he => (hp.1 e he).map₂ h (hq.1 e he), fun e he => (hp.2 e he).map₂ h (hq.2 e he)⟩

theorem Query.Everywhere.mono (h : ∀ e, P e → Q e) {q : Query} (p : q.Everywhere P) :
    q.Everywhere Q := p.map₂ (fun e hp _ => h e hp) p

end Combining

/-! ## Trees of a source -/

/-- The arguments that a function takes. -/
inductive Function.Takes : Function → List Expr → Prop
  | now : Takes .now []
  | dateAdd (u : DateUnit) (amount moment : Expr) : Takes (.dateAdd u) [amount, moment]
  | dateDiff (u : DateUnit) (earlier later : Expr) : Takes (.dateDiff u) [earlier, later]
  | month (e : Expr) : Takes .month [e]
  | year (e : Expr) : Takes .year [e]
  | coalesce (e fallback : Expr) : Takes .coalesce [e, fallback]
  | iif (test yes no : Expr) : Takes .iif [test, yes, no]
  | abs (e : Expr) : Takes .abs [e]
  | round (e : Expr) : Takes .round [e]
  | roundTo (e places : Expr) : Takes .round [e, places]

attribute [simp] Function.Takes.now Function.Takes.dateAdd Function.Takes.dateDiff
  Function.Takes.month Function.Takes.year Function.Takes.coalesce Function.Takes.iif
  Function.Takes.abs Function.Takes.round Function.Takes.roundTo

/-- What a source can have at the root of a tree: numbers and dates are such as it can have, and
functions have the arguments that they take. -/
def Expr.HasLexicalRoot : Expr → Prop
  | .number n => Token.IsLexical (.number n)
  | .date d => Token.IsLexical (.date d)
  | .call f args => f.Takes args
  | _ => True

/-- A tree that a source can have. -/
def Expr.IsLexical (e : Expr) : Prop := e.Everywhere HasLexicalRoot

/-- What a source can have as a leaf: its numbers and its dates. Nothing is asked of calls. -/
def Expr.HasLexicalLeaf : Expr → Prop
  | .number n => Token.IsLexical (.number n)
  | .date d => Token.IsLexical (.date d)
  | _ => True

theorem Expr.HasLexicalLeaf.of_root {e : Expr} (h : e.HasLexicalRoot) : e.HasLexicalLeaf := by
  cases e with
  | number _ | date _ => exact h
  | _ => trivial

theorem isNumeral_zero : Token.IsLexical (.number "0") :=
  ⟨'0', [], [], by decide, by decide, by simp, .inl rfl⟩

theorem isLexical_of_coalesced {args : List Expr} {e : Expr} (h : Coalesced args e)
    (ha : ∀ a ∈ args, a.IsLexical) : e.IsLexical := by
  induction h with
  | pair a b => simp_all [Expr.IsLexical, Expr.HasLexicalRoot]
  | more a _ ih =>
    rw [List.forall_mem_cons] at ha
    have := ih ha.2
    simp_all [Expr.IsLexical, Expr.HasLexicalRoot]

theorem isLexical_of_calls {w : String} {args : List Expr} {e : Expr} (h : Calls w args e)
    (ha : ∀ a ∈ args, a.IsLexical) : e.IsLexical := by
  cases h with
  | coalesce _ hc => exact isLexical_of_coalesced hc ha
  | orZero a _ =>
    have := isNumeral_zero
    simp_all [Expr.IsLexical, Expr.HasLexicalRoot]
  | _ => simp_all [Expr.IsLexical, Expr.HasLexicalRoot]

theorem mem_commaJoined {tss : List (List Token)} {ts : List Token} (h : ts ∈ tss) {t : Token}
    (ht : t ∈ ts) : t ∈ commaJoined tss := by
  induction tss with
  | nil => contradiction
  | cons us tss ih =>
    cases tss with
    | nil =>
      obtain rfl := List.mem_singleton.1 h
      exact ht
    | cons vs tss =>
      rcases List.mem_cons.1 h with rfl | h
      · exact List.mem_append_left _ ht
      · exact List.mem_append_right _ (List.mem_cons_of_mem _ (ih h))

theorem isLexical_of_derives {p : Tier} {ts : List Token} {e : Expr} (h : Derives p ts e)
    (ht : ∀ t ∈ ts, t.IsLexical) : e.IsLexical := by
  induction h with
  | tighter _ _ ih => exact ih ht
  | not _ _ ih | neg _ ih | plus _ ih =>
    have := ih fun t h => ht t (by simp [h])
    simp_all [Expr.IsLexical, Expr.HasLexicalRoot]
  | join _ _ _ _ ihl ihr | compare _ _ _ ihl ihr | like _ _ _ _ ihl ihr =>
    have hl := ihl fun t h => ht t (by simp [h])
    have hr := ihr fun t h => ht t (by simp [h])
    simp_all [Expr.IsLexical, Expr.HasLexicalRoot]
  | isNull _ _ _ _ ih | nested _ ih =>
    have := ih fun t h => ht t (by simp [h])
    simp_all [Expr.IsLexical, Expr.HasLexicalRoot]
  | between _ _ _ _ _ _ ih ihl ihh =>
    have he := ih fun t h => ht t (by simp [h])
    have hl := ihl fun t h => ht t (by simp [h])
    have hh := ihh fun t h => ht t (by simp [h])
    simp_all [Expr.IsLexical, Expr.HasLexicalRoot]
  | inList _ _ _ _ _ ih ihs =>
    refine ⟨trivial, ih fun t h => ht t (by simp [h]), Expr.everywhereIn_iff.2 fun e h => ?_⟩
    obtain ⟨x, hx, rfl⟩ := List.mem_map.1 h
    exact ihs x hx fun t h => ht t (by simp [mem_commaJoined (List.mem_map_of_mem hx) h])
  | call _ hc ihs =>
    refine isLexical_of_calls hc fun e h => ?_
    obtain ⟨x, hx, rfl⟩ := List.mem_map.1 h
    exact ihs x hx fun t h => ht t (by simp [mem_commaJoined (List.mem_map_of_mem hx) h])
  | number n => exact ht _ List.mem_cons_self
  | date d => exact ht _ List.mem_cons_self
  | _ => simp [Expr.IsLexical, Expr.HasLexicalRoot]

/-- A query of tokens that a source can have. -/
theorem isLexical_of_derivesQuery {ts : List Token} {q : Query} (h : DerivesQuery ts q)
    (ht : ∀ t ∈ ts, t.IsLexical) : q.Everywhere Expr.HasLexicalRoot := by
  cases h with
  | mk hss has hls hf hns hhs hws =>
    constructor
    · rintro e he
      cases has with
      | star => contradiction
      | expr _ h | distinct _ _ h =>
        obtain rfl := Argument.expr.inj he
        exact isLexical_of_derives h fun t h => ht t (by simp [h])
    · rintro e he
      cases hws with
      | none => contradiction
      | where_ _ h =>
        obtain rfl := Option.some.inj he
        exact isLexical_of_derives h fun t h => ht t (by simp [h])

/-! ## Pieces that stand apart -/

theorem isLexical_word {w : String}
    (h : (w.toList.head?.any isWordStart && w.toList.tail.all isWordPart) = true) :
    (Token.word w).IsLexical := by
  rw [Bool.and_eq_true] at h
  cases hw : w.toList with
  | nil => simp [hw] at h
  | cons c cs =>
    rw [hw] at h
    exact ⟨c, cs, hw, by simpa using h.1, List.all_eq_true.1 h.2⟩

theorem nameToken_of_isWord {w : String} {c : Char} {cs : List Char} (hw : w.toList = c :: cs)
    (hc : Text.isWordStart c = true) (hcs : cs.all Text.isWordPart = true)
    (h : ∀ k ∈ Keyword.every, k.spelling ≠ String.ofList (w.toList.map Char.toUpper)) :
    nameToken w = .word w := by
  simp [nameToken, isBareName, hw, hc, hcs, Keyword.ofWord?_eq_none h]

theorem isLexical_nameToken (name : String) : (nameToken name).IsLexical := by
  unfold nameToken
  split
  · rename_i h
    refine isLexical_word ?_
    unfold isBareName at h
    split at h
    · rename_i c cs hw
      simp_all
    · contradiction
  · trivial

/-- What may stand behind an expression: nothing, a space, a closing parenthesis or a comma. -/
def Closes (next : Option Char) : Prop :=
  next = none ∨ next = some ' ' ∨ next = some ')' ∨ next = some ','

theorem Closes.endsBefore {next : Option Char} (h : Closes next) (t : Token) :
    t.EndsBefore next := by
  rcases h with rfl | rfl | rfl | rfl <;> cases t <;> simp [Token.EndsBefore] <;> decide

/-- Pieces that stand apart from one another and from what may stand behind an expression. -/
structure Worded (ps : List Piece) : Prop where
  separate {next : Option Char} : Closes next → Separate ps next

namespace Worded

open Piece

variable {ps qs : List Piece}

theorem nil : Worded [] := ⟨fun _ => trivial⟩

theorem single {t : Token} (h : t.IsLexical) : Worded [token t] :=
  ⟨fun hn => ⟨h, hn.endsBefore t, trivial⟩⟩

theorem space (h : Worded ps) : Worded (space :: ps) := ⟨fun hn => h.separate hn⟩

theorem token_space {t : Token} (ht : t.IsLexical) (h : Worded ps) :
    Worded (token t :: Piece.space :: ps) :=
  ⟨fun hn => ⟨ht, Closes.endsBefore (Or.inr (.inl rfl)) t, h.separate hn⟩⟩

theorem append_space (hp : Worded ps) (hq : Worded qs) : Worded (ps ++ Piece.space :: qs) :=
  ⟨fun hn => separate_append.2 ⟨hp.separate (Or.inr (.inl rfl)), hq.separate hn⟩⟩

theorem append_comma (hp : Worded ps) (hq : Worded qs) :
    Worded (ps ++ token .comma :: Piece.space :: qs) :=
  ⟨fun hn => separate_append.2
    ⟨hp.separate (Or.inr (.inr (.inr rfl))), trivial, trivial, hq.separate hn⟩⟩

theorem append_rparen (hp : Worded ps) : Worded (ps ++ [token .rparen]) :=
  ⟨fun _ => separate_append.2 ⟨hp.separate (.inr (Or.inr (.inl rfl))), trivial, trivial, trivial⟩⟩

theorem lparen (h : Worded ps) : Worded (token .lparen :: ps) :=
  ⟨fun hn => ⟨trivial, trivial, h.separate hn⟩⟩

theorem parens (h : Worded ps) : Worded (token .lparen :: ps ++ [token .rparen]) :=
  h.append_rparen.lparen

theorem word_lparen {w : String} (hw : (Token.word w).IsLexical) (h : Worded ps) :
    Worded (word w :: token .lparen :: ps) :=
  ⟨fun hn => ⟨hw, by simp [Token.EndsBefore, spelling, Token.spelling]; decide,
    h.lparen.separate hn⟩⟩

theorem commaSeparated {pss : List (List Piece)} (h : ∀ ps ∈ pss, Worded ps) :
    Worded (Piece.commaSeparated pss) := by
  induction pss with
  | nil => exact nil
  | cons ps pss ih =>
    obtain ⟨hp, hps⟩ := List.forall_mem_cons.1 h
    cases pss with
    | nil => exact hp
    | cons qs pss =>
      rw [Piece.commaSeparated, List.append_assoc]
      · exact hp.append_comma (ih hps)
      · simp

theorem call {w : String} (hw : (Token.word w).IsLexical) {args : List (List Piece)}
    (h : ∀ ps ∈ args, Worded ps) : Worded (Piece.call w args) := by
  rw [Piece.call, List.append_assoc]
  exact word_lparen hw (commaSeparated h).append_rparen

theorem unitCall {w : String} (hw : (Token.word w).IsLexical) {unit : Token}
    (hu : unit.IsLexical) {args : List (List Piece)} (h : ∀ ps ∈ args, Worded ps) :
    Worded (Piece.unitCall w unit args) := by
  rw [Piece.unitCall, List.append_assoc]
  exact word_lparen hw ((single hu).append_comma (commaSeparated h).append_rparen)

theorem neg (h : Worded ps) : Worded (negPieces ps) := by
  unfold negPieces
  split
  · exact ⟨fun hn => ⟨trivial, by simp [Token.EndsBefore, spelling, Token.spelling],
      h.parens.separate hn⟩⟩
  · rename_i hm
    refine ⟨fun {next} hn => ⟨trivial, ?_, h.separate hn⟩⟩
    show (text ps).head?.or next ≠ some '-'
    cases ht : (text ps).head? with
    | none => rcases hn with rfl | rfl | rfl | rfl <;> simp
    | some c => simpa [ht] using hm

theorem not {negated : Bool} (h : Worded ps) : Worded (notPieces negated ++ ps) := by
  cases negated with
  | false => exact h
  | true =>
    exact token_space (t := .word "NOT") (isLexical_word (by decide)) h

theorem columns (parts : List String) : Worded (columnPieces parts) := by
  fun_induction columnPieces parts with
  | case1 => exact nil
  | case2 part => exact single (isLexical_nameToken part)
  | case3 part rest _ ih =>
    refine ⟨fun hn => ⟨isLexical_nameToken part, ?_, trivial, trivial, ih.separate hn⟩⟩
    unfold nameToken
    split
    · simp [Token.EndsBefore, spelling, Token.spelling]
      decide
    · simp [Token.EndsBefore, spelling, Token.spelling]

theorem callPieces (d : Dialect) (f : Function) {args : List (List Piece)}
    (h : ∀ ps ∈ args, Worded ps) : Worded (d.callPieces f args) := by
  unfold Dialect.callPieces
  split
  case h_1 | h_11 => exact call (isLexical_word (by decide)) (by simp)
  case h_2 u | h_3 u =>
    exact unitCall (isLexical_word (by decide))
      (by cases u <;> exact isLexical_word (by decide)) h
  case h_9 value =>
    simp only [List.mem_singleton, forall_eq] at h
    refine call (isLexical_word (by decide)) ?_
    simp only [List.mem_cons, List.not_mem_nil, or_false, forall_eq_or_imp, forall_eq]
    exact ⟨h, single isNumeral_zero⟩
  case h_12 u | h_13 u =>
    exact unitCall (isLexical_word (by decide))
      (show Token.IsLexical (.text u.intervalCode) from trivial) h
  case h_16 value fallback =>
    simp only [List.mem_cons, List.not_mem_nil, or_false, forall_eq_or_imp, forall_eq] at h
    refine call (isLexical_word (by decide)) ?_
    simp only [List.mem_cons, List.not_mem_nil, or_false, forall_eq_or_imp, forall_eq]
    exact ⟨call (isLexical_word (by decide)) (by simpa using h.1), h.2, h.1⟩
  all_goals exact call (isLexical_word (by decide)) h

end Worded

/-! ## Expressions -/

theorem isLexical_dateToken {d : Dialect} {s : String} (h : (Token.date s).IsLexical) :
    (d.dateToken s).IsLexical := by
  cases d with
  | tsql _ => trivial
  | access => exact h

theorem isLexical_operatorToken (d : Dialect) (op : BinaryOp) : (d.operatorToken op).IsLexical := by
  cases op with
  | mod => cases d <;> first | trivial | exact isLexical_word (by decide)
  | and | or => exact isLexical_word (by decide)
  | _ => trivial

mutual

theorem worded_pieces (d : Dialect) : ∀ {e : Expr},
    e.Everywhere Expr.HasLexicalLeaf → Worded (e.pieces d)
  | .column parts, _ => by
    rw [Expr.pieces]
    exact .columns parts
  | .number _, h => by
    rw [Expr.pieces]
    exact .single h
  | .text _, _ => by
    rw [Expr.pieces]
    exact .single trivial
  | .date _, h => by
    rw [Expr.pieces]
    exact .single (isLexical_dateToken h)
  | .null, _ => by
    rw [Expr.pieces]
    exact .single (isLexical_word (by decide))
  | .call f args, h => by
    rw [Expr.pieces]
    exact .callPieces d f (worded_piecesOfAll d h.2)
  | .unary .neg e, h => by
    rw [Expr.pieces]
    exact (worded_pieces d h.2).neg
  | .unary .not e, h => by
    rw [Expr.pieces]
    exact .token_space (isLexical_word (by decide)) (worded_pieces d h.2)
  | .binary op l r, h => by
    rw [Expr.pieces, List.append_assoc]
    exact (worded_pieces d h.2.1).append_space
      (.token_space (isLexical_operatorToken d op) (worded_pieces d h.2.2))
  | .isNull negated e, h => by
    rw [Expr.pieces]
    simp only [List.append_assoc, List.cons_append, List.nil_append]
    exact (worded_pieces d h.2).append_space (.token_space (isLexical_word (by decide))
      (.not (.single (isLexical_word (by decide)))))
  | .between negated e low high, h => by
    rw [Expr.pieces]
    simp only [List.append_assoc, List.cons_append, List.nil_append]
    exact (worded_pieces d h.2.1).append_space (.not (.token_space (isLexical_word (by decide))
      ((worded_pieces d h.2.2.1).append_space
        (.token_space (isLexical_word (by decide)) (worded_pieces d h.2.2.2)))))
  | .inList negated e items, h => by
    rw [Expr.pieces]
    simp only [List.append_assoc, List.cons_append, List.nil_append]
    exact (worded_pieces d h.2.1).append_space (.not (.token_space (isLexical_word (by decide))
      (Worded.commaSeparated (worded_piecesOfAll d h.2.2)).parens))
  | .like negated e pattern, h => by
    rw [Expr.pieces]
    simp only [List.append_assoc, List.cons_append, List.nil_append]
    exact (worded_pieces d h.2.1).append_space
      (.not (.token_space (isLexical_word (by decide)) (worded_pieces d h.2.2)))
  | .nested e, h => by
    rw [Expr.pieces]
    exact (worded_pieces d h.2).parens

theorem worded_piecesOfAll (d : Dialect) : ∀ {es : List Expr},
    Expr.EverywhereIn Expr.HasLexicalLeaf es → ∀ ps ∈ Expr.piecesOfAll d es, Worded ps
  | [], _ => by simp [Expr.piecesOfAll]
  | e :: es, h => by
    rw [Expr.piecesOfAll, List.forall_mem_cons]
    exact ⟨worded_pieces d h.1, worded_piecesOfAll d h.2⟩

end

/-! ## Queries -/

theorem worded_argument (d : Dialect) {a : Argument}
    (h : ∀ e, a = .expr e → e.Everywhere Expr.HasLexicalLeaf) : Worded (a.pieces d) := by
  cases a with
  | star => exact .single (t := .star) trivial
  | expr e => exact worded_pieces d (h e rfl)

theorem worded_aggregate (d : Dialect) {a : Aggregate}
    (h : ∀ e, a.argument = .expr e → e.Everywhere Expr.HasLexicalLeaf) : Worded (a.pieces d) := by
  have hname : (Token.word (d.aggregateName a.function)).IsLexical := by
    cases d <;> cases a.function <;> simp only [Dialect.aggregateName] <;>
      exact isLexical_word (by decide)
  have harg := worded_argument d h
  unfold Aggregate.pieces
  simp only [List.append_assoc, List.cons_append, List.nil_append]
  refine .word_lparen hname ?_
  rw [← List.append_assoc]
  refine .append_rparen ?_
  split
  · exact .token_space (isLexical_word (by decide)) harg
  · exact harg

theorem worded_tablePieces (d : Dialect) (t : TableName) : Worded (d.tablePieces t) := by
  cases d with
  | tsql defaultSchema =>
    have hints : Worded [.token .lparen, .word "NOLOCK", .token .rparen] :=
      .parens (.single (isLexical_word (by decide)))
    have name : Worded (.token (.quoted t.name) :: .space :: .word "WITH" :: .space ::
        [.token .lparen, .word "NOLOCK", .token .rparen]) :=
      .token_space trivial (.token_space (isLexical_word (by decide)) hints)
    exact ⟨fun hn => ⟨trivial, by simp [Token.EndsBefore, Piece.spelling, Token.spelling], trivial,
      trivial, name.separate hn⟩⟩
  | access => exact .single (t := .quoted t.name) trivial

theorem worded_query (d : Dialect) {q : Query} (h : q.Everywhere Expr.HasLexicalLeaf) :
    Worded (q.pieces d) := by
  unfold Query.pieces
  simp only [List.append_assoc, List.cons_append, List.nil_append]
  refine .token_space (isLexical_word (by decide)) ?_
  refine (worded_aggregate d h.1).append_space ?_
  refine .token_space (isLexical_word (by decide)) (.token_space (isLexical_word (by decide))
    (.token_space (isLexical_word (by decide)) ?_))
  cases hf : q.filter with
  | none =>
    rw [List.append_nil]
    exact worded_tablePieces d q.table
  | some e =>
    exact (worded_tablePieces d q.table).append_space
      (.token_space (isLexical_word (by decide)) (worded_pieces d (h.2 e hf)))

/-- A query has a text, but for a DISTINCT that is meant for the file database. -/
theorem exists_sql_iff {d : Dialect} {q : Query} :
    (∃ sql, q.sql d = .ok sql) ↔ ¬ (d = .access ∧ q.aggregate.distinct = true) := by
  unfold Query.sql
  split <;> simp_all

/-- The text of a query is split into the tokens that it was written with. -/
theorem tokenize_sql {d : Dialect} {q : Query} {sql : String}
    (h : q.Everywhere Expr.HasLexicalLeaf) (hs : q.sql d = .ok sql) :
    ∃ ls, tokenize sql = .ok ls ∧ tokens ls = Piece.tokens (q.pieces d) := by
  unfold Query.sql at hs
  split at hs
  · contradiction
  · obtain rfl := Except.ok.inj hs
    exact tokenize_text ((worded_query d h).separate (Or.inl rfl))

end MetricBoard.Expression
