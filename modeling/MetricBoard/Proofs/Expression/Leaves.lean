import MetricBoard.Proofs.Expression.ReadingBack

/-!
# The leaves of a query and its text

The names, texts and dates of a query are its leaves, and what is left when they are blank is its
shape. Queries of one shape are written with the same tokens but for their leaves, whatever stands
in these (`tokenize_sql_alike`): no name, text or date gets out of its token, and none decides how
anything else is written.
-/

namespace MetricBoard.Expression

/-! ## Shapes and leaves -/

mutual

/-- The shape of an expression: its names, texts and dates are blank. -/
def Expr.shape : Expr → Expr
  | .column parts => .column (parts.map fun _ => "")
  | .number n => .number n
  | .text _ => .text ""
  | .date _ => .date ""
  | .null => .null
  | .call f args => .call f (Expr.shapes args)
  | .unary op e => .unary op e.shape
  | .binary op l r => .binary op l.shape r.shape
  | .isNull negated e => .isNull negated e.shape
  | .between negated e low high => .between negated e.shape low.shape high.shape
  | .inList negated e items => .inList negated e.shape (Expr.shapes items)
  | .like negated e pattern => .like negated e.shape pattern.shape
  | .nested e => .nested e.shape

/-- The shapes of some expressions. -/
def Expr.shapes : List Expr → List Expr
  | [] => []
  | e :: es => e.shape :: Expr.shapes es

end

/-- The shape of the argument of an aggregate. -/
def Argument.shape : Argument → Argument
  | .star => .star
  | .expr e => .expr e.shape

/-- The shape of a query. -/
def Query.shape (q : Query) : Query :=
  ⟨{ q.aggregate with argument := q.aggregate.argument.shape },
    ⟨q.table.schema.map fun _ => "", ""⟩, q.filter.map Expr.shape⟩

/-- What a tree says in its own words. -/
inductive Leaf where
  | name (s : String)
  | text (s : String)
  | date (s : String)
  deriving DecidableEq, Repr

namespace Leaf

/-- The tokens that a leaf may be written as: a name bare or quoted, a date as the dialect has
it. -/
inductive IsWritten (d : Dialect) : Leaf → Token → Prop
  | bare (s : String) : IsWritten d (.name s) (.word s)
  | quoted (s : String) : IsWritten d (.name s) (.quoted s)
  | text (s : String) : IsWritten d (.text s) (.text s)
  | date (s : String) : IsWritten d (.date s) (d.dateToken s)

/-- Two names, two texts or two dates. -/
inductive SameKind : Leaf → Leaf → Prop
  | name (s s' : String) : SameKind (.name s) (.name s')
  | text (s s' : String) : SameKind (.text s) (.text s')
  | date (s s' : String) : SameKind (.date s) (.date s')

end Leaf

/-- The leaves of a call, with those of its arguments. Now drops its arguments, and the file
database's coalesce repeats its first. -/
def Dialect.callLeaves : Dialect → Function → List (List Leaf) → List Leaf
  | _, .now, _ => []
  | access, .coalesce, [value, fallback] => value ++ fallback ++ value
  | _, _, args => args.flatten

mutual

/-- The leaves of an expression in the order in which they are written. -/
def Expr.leaves (d : Dialect) : Expr → List Leaf
  | .column parts => parts.map .name
  | .number _ | .null => []
  | .text s => [.text s]
  | .date s => [.date s]
  | .call f args => d.callLeaves f (Expr.leavesOfAll d args)
  | .unary _ e | .isNull _ e | .nested e => e.leaves d
  | .binary _ l r => l.leaves d ++ r.leaves d
  | .between _ e low high => e.leaves d ++ low.leaves d ++ high.leaves d
  | .inList _ e items => e.leaves d ++ (Expr.leavesOfAll d items).flatten
  | .like _ e pattern => e.leaves d ++ pattern.leaves d

/-- The leaves of each of some expressions. -/
def Expr.leavesOfAll (d : Dialect) : List Expr → List (List Leaf)
  | [] => []
  | e :: es => e.leaves d :: Expr.leavesOfAll d es

end

/-- The leaves of the argument of an aggregate. -/
def Argument.leaves (d : Dialect) : Argument → List Leaf
  | .star => []
  | .expr e => e.leaves d

/-- The names of a table. T-SQL writes the default schema where none is given. -/
def Dialect.tableLeaves : Dialect → TableName → List Leaf
  | tsql schema, t => [.name (t.schema.getD schema), .name t.name]
  | access, t => [.name t.name]

/-- The leaves of a query in the order in which they are written. -/
def Query.leaves (d : Dialect) (q : Query) : List Leaf :=
  q.aggregate.argument.leaves d ++ d.tableLeaves q.table ++
    match q.filter with
    | none => []
    | some e => e.leaves d

/-- The same dialect with another default schema, where it has one. -/
def Dialect.withSchema : Dialect → String → Dialect
  | tsql _, schema => tsql schema
  | access, _ => access

/-! ## Rows that agree but for their leaves -/

/-- Two rows of tokens are the same one by one, but for the tokens of the leaves `ls` and `ms`:
these come in order, and each leaf of `ls` is of one kind with the leaf of `ms` in its place. -/
inductive AgreeBut (d : Dialect) : List Leaf → List Leaf → List Token → List Token → Prop
  | nil : AgreeBut d [] [] [] []
  | fixed (t : Token) {ls ms : List Leaf} {ts us : List Token} :
    AgreeBut d ls ms ts us → AgreeBut d ls ms (t :: ts) (t :: us)
  | leaf {l m : Leaf} {t u : Token} {ls ms : List Leaf} {ts us : List Token} :
    l.SameKind m → l.IsWritten d t → m.IsWritten d u → AgreeBut d ls ms ts us →
      AgreeBut d (l :: ls) (m :: ms) (t :: ts) (u :: us)

variable {d : Dialect}

theorem AgreeBut.length_eq {ls ms : List Leaf} {ts us : List Token} (h : AgreeBut d ls ms ts us) :
    ts.length = us.length := by
  induction h with
  | nil => rfl
  | fixed _ _ ih | leaf _ _ _ _ ih => exact congrArg (· + 1) ih

/-- The same of rows of pieces, whose spaces agree. -/
inductive Alike (d : Dialect) : List Leaf → List Leaf → List Piece → List Piece → Prop
  | nil : Alike d [] [] [] []
  | space {ls ms : List Leaf} {ps qs : List Piece} :
    Alike d ls ms ps qs → Alike d ls ms (.space :: ps) (.space :: qs)
  | fixed (t : Token) {ls ms : List Leaf} {ps qs : List Piece} :
    Alike d ls ms ps qs → Alike d ls ms (.token t :: ps) (.token t :: qs)
  | leaf {l m : Leaf} {t u : Token} {ls ms : List Leaf} {ps qs : List Piece} :
    l.SameKind m → l.IsWritten d t → m.IsWritten d u → Alike d ls ms ps qs →
      Alike d (l :: ls) (m :: ms) (.token t :: ps) (.token u :: qs)

namespace Alike

variable {ls ms ls' ms' : List Leaf} {ps qs ps' qs' : List Piece}

theorem agreeBut (h : Alike d ls ms ps qs) :
    AgreeBut d ls ms (Piece.tokens ps) (Piece.tokens qs) := by
  induction h with
  | nil => exact .nil
  | space _ ih => exact ih
  | fixed t _ ih => exact .fixed t ih
  | leaf hk hl hm _ ih => exact .leaf hk hl hm ih

theorem append (h : Alike d ls ms ps qs) (h' : Alike d ls' ms' ps' qs') :
    Alike d (ls ++ ls') (ms ++ ms') (ps ++ ps') (qs ++ qs') := by
  induction h with
  | nil => exact h'
  | space _ ih => exact .space ih
  | fixed t _ ih => exact .fixed t ih
  | leaf hk hl hm _ ih => exact .leaf hk hl hm ih

/-- Pieces without a leaf. -/
theorem refl : ∀ ps : List Piece, Alike d [] [] ps ps
  | [] => .nil
  | .space :: ps => .space (refl ps)
  | .token t :: ps => .fixed t (refl ps)

theorem before (ps : List Piece) (h : Alike d ls ms ps' qs') :
    Alike d ls ms (ps ++ ps') (ps ++ qs') := (refl ps).append h

theorem behind (qs' : List Piece) (h : Alike d ls ms ps qs) :
    Alike d ls ms (ps ++ qs') (qs ++ qs') := by
  simpa using h.append (refl qs')

/-- A leaf is no sign, whatever it holds. -/
theorem head?_text_leaf {l : Leaf} {t : Token} (hl : l.IsWritten d t) (ht : t.IsLexical)
    (ps : List Piece) : (Piece.text (.token t :: ps)).head? ≠ some '-' := by
  refine head?_text_token ht ?_ ps
  cases hl with
  | date s => cases d <;> simp [Dialect.dateToken]
  | _ => simp

/-- Rows that agree begin with a minus sign both or neither. -/
theorem head?_text (h : Alike d ls ms ps qs) (hp : Worded ps) (hq : Worded qs) :
    (Piece.text ps).head? = some '-' ↔ (Piece.text qs).head? = some '-' := by
  cases h with
  | nil | space _ => simp [Piece.spelling]
  | @fixed t _ _ ps qs _ =>
    by_cases hm : t = .minus
    · simp [hm, Piece.spelling, Token.spelling]
    · have ht : t.IsLexical := (hp.separate (Or.inl rfl)).1
      exact iff_of_false (head?_text_token ht hm ps) (head?_text_token ht hm qs)
  | leaf _ hl hm _ =>
    exact iff_of_false (head?_text_leaf hl (hp.separate (Or.inl rfl)).1 _)
      (head?_text_leaf hm (hq.separate (Or.inl rfl)).1 _)

theorem neg (h : Alike d ls ms ps qs) (hp : Worded ps) (hq : Worded qs) :
    Alike d ls ms (negPieces ps) (negPieces qs) := by
  unfold negPieces
  by_cases hs : (Piece.text ps).head? = some '-'
  · rw [if_pos hs, if_pos ((h.head?_text hp hq).1 hs)]
    exact behind _ (before _ h)
  · rw [if_neg hs, if_neg (mt (h.head?_text hp hq).2 hs)]
    exact .fixed .minus h

theorem nameToken (s s' : String) (h : Alike d ls ms ps qs) :
    Alike d (.name s :: ls) (.name s' :: ms) (.token (nameToken s) :: ps)
      (.token (Expression.nameToken s') :: qs) := by
  have written (s : String) : (Leaf.name s).IsWritten d (Expression.nameToken s) := by
    unfold Expression.nameToken
    split
    · exact .bare s
    · exact .quoted s
  exact .leaf (.name s s') (written s) (written s') h

theorem quoted (s s' : String) (h : Alike d ls ms ps qs) :
    Alike d (.name s :: ls) (.name s' :: ms) (.token (.quoted s) :: ps)
      (.token (.quoted s') :: qs) :=
  .leaf (.name s s') (.quoted s) (.quoted s') h

theorem columns {parts parts' : List String} (h : parts.length = parts'.length) :
    Alike d (parts.map .name) (parts'.map .name) (columnPieces parts) (columnPieces parts') := by
  induction parts generalizing parts' with
  | nil =>
    obtain rfl := List.length_eq_zero_iff.1 h.symm
    exact .nil
  | cons s parts ih =>
    obtain ⟨s', parts', rfl⟩ := List.exists_cons_of_length_eq_add_one h.symm
    have h := Nat.succ.inj h
    match parts, parts' with
    | [], [] => exact nameToken s s' .nil
    | _ :: _, _ :: _ => exact nameToken s s' (.fixed .dot (ih h))

end Alike

/-- Some rows of pieces that agree but for their leaves. -/
inductive AllAlike (d : Dialect) :
    List (List Leaf) → List (List Leaf) → List (List Piece) → List (List Piece) → Prop
  | nil : AllAlike d [] [] [] []
  | cons {ls ms : List Leaf} {lss mss : List (List Leaf)} {ps qs : List Piece}
      {pss qss : List (List Piece)} :
    Alike d ls ms ps qs → AllAlike d lss mss pss qss →
      AllAlike d (ls :: lss) (ms :: mss) (ps :: pss) (qs :: qss)

namespace AllAlike

variable {lss mss : List (List Leaf)} {pss qss : List (List Piece)}

theorem commaSeparated (h : AllAlike d lss mss pss qss) :
    Alike d lss.flatten mss.flatten (Piece.commaSeparated pss) (Piece.commaSeparated qss) := by
  induction h with
  | nil => exact .nil
  | cons hp h ih =>
    cases h with
    | nil => simpa [Piece.commaSeparated] using hp
    | cons _ _ => simpa [Piece.commaSeparated] using hp.append (.fixed .comma (.space ih))

theorem call (w : String) (h : AllAlike d lss mss pss qss) :
    Alike d lss.flatten mss.flatten (Piece.call w pss) (Piece.call w qss) :=
  .behind _ (.before _ h.commaSeparated)

theorem unitCall (w : String) (unit : Token) (h : AllAlike d lss mss pss qss) :
    Alike d lss.flatten mss.flatten (Piece.unitCall w unit pss) (Piece.unitCall w unit qss) :=
  .behind _ (.before _ h.commaSeparated)

/-- A call of T-SQL has the leaves of its arguments in their order. -/
theorem tsqlCall {schema : String} (s s' : String) (f : Function)
    (h : AllAlike (.tsql schema) lss mss pss qss) :
    Alike (.tsql schema) ((Dialect.tsql s).callLeaves f lss) ((Dialect.tsql s').callLeaves f mss)
      ((Dialect.tsql s).callPieces f pss) ((Dialect.tsql s').callPieces f qss) := by
  cases f with
  | now => exact .refl _
  | dateAdd u | dateDiff u => exact h.unitCall _ _
  | round =>
    have hr := h.call "ROUND"
    cases h with
    | nil => exact hr
    | cons hp h =>
      cases h with
      | nil =>
        have hz := (AllAlike.cons hp (.cons (.refl [.token (.number "0")]) .nil)).call "ROUND"
        simpa [Dialect.callLeaves, Dialect.callPieces] using hz
      | cons _ _ => exact hr
  | _ => exact h.call _

/-- A call of the file database has the leaves of its arguments in their order, but for a coalesce
of two values, which is written as a test of the first. -/
theorem accessCall (f : Function) (h : AllAlike .access lss mss pss qss) :
    Alike .access (Dialect.access.callLeaves f lss) (Dialect.access.callLeaves f mss)
      (Dialect.access.callPieces f pss) (Dialect.access.callPieces f qss) := by
  cases f with
  | now => exact .refl _
  | dateAdd u | dateDiff u => exact h.unitCall _ _
  | coalesce =>
    have hn := h.call "Nz"
    cases h with
    | nil => exact hn
    | cons hv h =>
      cases h with
      | nil => exact hn
      | cons hf h =>
        cases h with
        | nil =>
          have ht := (AllAlike.cons hv .nil).call "IsNull"
          have hc := (AllAlike.cons ht (.cons hf (.cons hv .nil))).call "IIf"
          simpa [Dialect.callLeaves, Dialect.callPieces] using hc
        | cons _ _ => exact hn
  | _ => exact h.call _

theorem callPieces (d : Dialect) (s s' : String) (f : Function)
    (h : AllAlike d lss mss pss qss) :
    Alike d ((d.withSchema s).callLeaves f lss) ((d.withSchema s').callLeaves f mss)
      ((d.withSchema s).callPieces f pss) ((d.withSchema s').callPieces f qss) := by
  cases d with
  | tsql _ => exact h.tsqlCall s s' f
  | access => exact h.accessCall f

end AllAlike

/-! ## Expressions -/

theorem operatorToken_withSchema (d : Dialect) (s : String) (op : BinaryOp) :
    (d.withSchema s).operatorToken op = d.operatorToken op := by
  cases d <;> cases op <;> rfl

theorem dateToken_withSchema (d : Dialect) (s c : String) :
    (d.withSchema s).dateToken c = d.dateToken c := by
  cases d <;> rfl

section Expressions

variable (d : Dialect) (s s' : String)

mutual

/-- Expressions of one shape are written alike but for their leaves. -/
theorem alike_pieces : ∀ {e e' : Expr}, e.shape = e'.shape → e.Everywhere Expr.HasLexicalLeaf →
    e'.Everywhere Expr.HasLexicalLeaf →
    Alike d (e.leaves (d.withSchema s)) (e'.leaves (d.withSchema s'))
      (e.pieces (d.withSchema s)) (e'.pieces (d.withSchema s'))
  | .column parts, e', h, _, _ => by
    cases e' <;> simp only [Expr.shape, Expr.column.injEq, reduceCtorEq] at h
    rw [Expr.leaves, Expr.leaves, Expr.pieces, Expr.pieces]
    exact .columns (by simpa using congrArg List.length h)
  | .number n, e', h, _, _ => by
    cases e' <;> simp only [Expr.shape, Expr.number.injEq, reduceCtorEq] at h
    subst h
    rw [Expr.leaves, Expr.pieces, Expr.pieces]
    exact .refl _
  | .text c, e', h, _, _ => by
    cases e' <;> simp only [Expr.shape, reduceCtorEq] at h
    rw [Expr.leaves, Expr.leaves, Expr.pieces, Expr.pieces]
    exact .leaf (.text _ _) (.text _) (.text _) .nil
  | .date c, e', h, _, _ => by
    cases e' <;> simp only [Expr.shape, reduceCtorEq] at h
    rw [Expr.leaves, Expr.leaves, Expr.pieces, Expr.pieces, dateToken_withSchema,
      dateToken_withSchema]
    exact .leaf (.date _ _) (.date _) (.date _) .nil
  | .null, e', h, _, _ => by
    cases e' <;> simp only [Expr.shape, reduceCtorEq] at h
    rw [Expr.leaves, Expr.pieces, Expr.pieces]
    exact .refl _
  | .call f args, e', h, hl, hl' => by
    cases e' <;> simp only [Expr.shape, Expr.call.injEq, reduceCtorEq] at h
    obtain ⟨rfl, h⟩ := h
    rw [Expr.leaves, Expr.leaves, Expr.pieces, Expr.pieces]
    exact (allAlike_pieces h hl.2 hl'.2).callPieces d s s' f
  | .unary op e, e', h, hl, hl' => by
    cases e' <;> simp only [Expr.shape, Expr.unary.injEq, reduceCtorEq] at h
    obtain ⟨rfl, h⟩ := h
    have he := alike_pieces h hl.2 hl'.2
    rw [Expr.leaves, Expr.leaves]
    cases op with
    | neg =>
      rw [Expr.pieces, Expr.pieces]
      exact he.neg (worded_pieces _ hl.2) (worded_pieces _ hl'.2)
    | not =>
      rw [Expr.pieces, Expr.pieces]
      exact he.before _
  | .binary op l r, e', h, hl, hl' => by
    cases e' <;> simp only [Expr.shape, Expr.binary.injEq, reduceCtorEq] at h
    obtain ⟨rfl, h, h'⟩ := h
    rw [Expr.leaves, Expr.leaves, Expr.pieces, Expr.pieces, operatorToken_withSchema,
      operatorToken_withSchema]
    exact ((alike_pieces h hl.2.1 hl'.2.1).behind _).append (alike_pieces h' hl.2.2 hl'.2.2)
  | .isNull negated e, e', h, hl, hl' => by
    cases e' <;> simp only [Expr.shape, Expr.isNull.injEq, reduceCtorEq] at h
    obtain ⟨rfl, h⟩ := h
    rw [Expr.leaves, Expr.leaves, Expr.pieces, Expr.pieces]
    exact (((alike_pieces h hl.2 hl'.2).behind _).behind _).behind _
  | .between negated e low high, e', h, hl, hl' => by
    cases e' <;> simp only [Expr.shape, Expr.between.injEq, reduceCtorEq] at h
    obtain ⟨rfl, h, hlow, hhigh⟩ := h
    have he := ((alike_pieces h hl.2.1 hl'.2.1).behind [.space]).behind (notPieces negated)
    have hb := he.behind [.word "BETWEEN", .space]
    have hlow := (hb.append (alike_pieces hlow hl.2.2.1 hl'.2.2.1)).behind
      [.space, .word "AND", .space]
    rw [Expr.leaves, Expr.leaves, Expr.pieces, Expr.pieces]
    exact hlow.append (alike_pieces hhigh hl.2.2.2 hl'.2.2.2)
  | .inList negated e items, e', h, hl, hl' => by
    cases e' <;> simp only [Expr.shape, Expr.inList.injEq, reduceCtorEq] at h
    obtain ⟨rfl, h, hitems⟩ := h
    have he := ((alike_pieces h hl.2.1 hl'.2.1).behind [.space]).behind (notPieces negated)
    have hi := he.behind [.word "IN", .space, .token .lparen]
    rw [Expr.leaves, Expr.leaves, Expr.pieces, Expr.pieces]
    exact (hi.append (allAlike_pieces hitems hl.2.2 hl'.2.2).commaSeparated).behind _
  | .like negated e pattern, e', h, hl, hl' => by
    cases e' <;> simp only [Expr.shape, Expr.like.injEq, reduceCtorEq] at h
    obtain ⟨rfl, h, hp⟩ := h
    have he := ((alike_pieces h hl.2.1 hl'.2.1).behind [.space]).behind (notPieces negated)
    rw [Expr.leaves, Expr.leaves, Expr.pieces, Expr.pieces]
    exact (he.behind [.word "LIKE", .space]).append (alike_pieces hp hl.2.2 hl'.2.2)
  | .nested e, e', h, hl, hl' => by
    cases e' <;> simp only [Expr.shape, Expr.nested.injEq, reduceCtorEq] at h
    rw [Expr.leaves, Expr.leaves, Expr.pieces, Expr.pieces]
    exact .fixed .lparen ((alike_pieces h hl.2 hl'.2).behind _)

theorem allAlike_pieces : ∀ {es es' : List Expr}, Expr.shapes es = Expr.shapes es' →
    Expr.EverywhereIn Expr.HasLexicalLeaf es → Expr.EverywhereIn Expr.HasLexicalLeaf es' →
    AllAlike d (Expr.leavesOfAll (d.withSchema s) es) (Expr.leavesOfAll (d.withSchema s') es')
      (Expr.piecesOfAll (d.withSchema s) es) (Expr.piecesOfAll (d.withSchema s') es')
  | [], es', h, _, _ => by
    cases es' <;> simp only [Expr.shapes, reduceCtorEq] at h
    rw [Expr.leavesOfAll, Expr.leavesOfAll, Expr.piecesOfAll, Expr.piecesOfAll]
    exact .nil
  | e :: es, es', h, hl, hl' => by
    cases es' <;> simp only [Expr.shapes, List.cons.injEq, reduceCtorEq] at h
    rw [Expr.leavesOfAll, Expr.leavesOfAll, Expr.piecesOfAll, Expr.piecesOfAll]
    exact .cons (alike_pieces h.1 hl.1 hl'.1) (allAlike_pieces h.2 hl.2 hl'.2)

end

/-! ## Queries -/

theorem aggregateName_withSchema (f : AggregateFunction) :
    (d.withSchema s).aggregateName f = d.aggregateName f := by
  cases d <;> cases f <;> rfl

theorem alike_aggregate {a a' : Aggregate} (hf : a.function = a'.function)
    (hd : a.distinct = a'.distinct) (h : a.argument.shape = a'.argument.shape)
    (hl : ∀ e, a.argument = .expr e → e.Everywhere Expr.HasLexicalLeaf)
    (hl' : ∀ e, a'.argument = .expr e → e.Everywhere Expr.HasLexicalLeaf) :
    Alike d (a.argument.leaves (d.withSchema s)) (a'.argument.leaves (d.withSchema s'))
      (a.pieces (d.withSchema s)) (a'.pieces (d.withSchema s')) := by
  unfold Aggregate.pieces
  rw [hf, hd, aggregateName_withSchema, aggregateName_withSchema]
  refine .behind _ (.before _ ?_)
  cases ha : a.argument with
  | star =>
    rw [ha] at h
    cases ha' : a'.argument with
    | star => exact .refl _
    | expr e => rw [ha'] at h; contradiction
  | expr e =>
    rw [ha] at h
    cases ha' : a'.argument with
    | star => rw [ha'] at h; contradiction
    | expr e' =>
      rw [ha'] at h
      exact alike_pieces d s s' (Argument.expr.inj h) (hl e ha) (hl' e' ha')

theorem alike_table (t t' : TableName) :
    Alike d ((d.withSchema s).tableLeaves t) ((d.withSchema s').tableLeaves t')
      ((d.withSchema s).tablePieces t) ((d.withSchema s').tablePieces t') := by
  cases d with
  | tsql schema => exact .quoted _ _ (.fixed .dot (.quoted _ _ (.refl _)))
  | access => exact .quoted _ _ .nil

theorem alike_query {q q' : Query} (h : q.shape = q'.shape)
    (hl : q.Everywhere Expr.HasLexicalLeaf) (hl' : q'.Everywhere Expr.HasLexicalLeaf) :
    Alike d (q.leaves (d.withSchema s)) (q'.leaves (d.withSchema s'))
      (q.pieces (d.withSchema s)) (q'.pieces (d.withSchema s')) := by
  obtain ⟨a, t, w⟩ := q
  obtain ⟨a', t', w'⟩ := q'
  simp only [Query.shape, Query.mk.injEq, Aggregate.mk.injEq] at h
  obtain ⟨⟨hf, hd, ha⟩, -, hw⟩ := h
  have hagg := alike_aggregate d s s' hf hd ha hl.1 hl'.1
  have hhead := (hagg.before [.word "SELECT", .space]).behind
    [.space, .word "AS", .space, .word resultColumn, .space, .word "FROM", .space]
  have htable := hhead.append (alike_table d s s' t t')
  refine htable.append ?_
  cases w with
  | none =>
    obtain rfl : w' = none := by simpa using hw.symm
    exact .nil
  | some e =>
    obtain ⟨e', rfl, he⟩ := Option.map_eq_some_iff.1 hw.symm
    exact .before _ (alike_pieces d s s' he.symm (hl.2 e rfl) (hl'.2 e' rfl))

/-- **Leaves stay in their tokens**: two queries of one shape, with numbers and dates such as a
source can have, are written with as many tokens under any two default schemas, and their tokens
are the same but for those of the leaves. -/
theorem tokenize_sql_alike {q q' : Query} {sql : String} (h : q.shape = q'.shape)
    (hl : q.Everywhere Expr.HasLexicalLeaf) (hl' : q'.Everywhere Expr.HasLexicalLeaf)
    (hs : q.sql (d.withSchema s) = .ok sql) :
    ∃ sql' ls ls', q'.sql (d.withSchema s') = .ok sql' ∧ tokenize sql = .ok ls ∧
      tokenize sql' = .ok ls' ∧ ls.length = ls'.length ∧
      AgreeBut d (q.leaves (d.withSchema s)) (q'.leaves (d.withSchema s')) (tokens ls)
        (tokens ls') := by
  have hd : q.shape.aggregate.distinct = q'.shape.aggregate.distinct := by rw [h]
  have haccess : d.withSchema s = .access ↔ d.withSchema s' = .access := by
    cases d <;> simp [Dialect.withSchema]
  have hs' : ∃ sql', q'.sql (d.withSchema s') = .ok sql' := by
    rw [exists_sql_iff, ← haccess, ← show q.aggregate.distinct = q'.aggregate.distinct from hd]
    exact exists_sql_iff.1 ⟨sql, hs⟩
  obtain ⟨sql', hs'⟩ := hs'
  obtain ⟨ls, hls, ht⟩ := tokenize_sql hl hs
  obtain ⟨ls', hls', ht'⟩ := tokenize_sql hl' hs'
  have hagree := (alike_query d s s' h hl hl').agreeBut
  rw [← ht, ← ht'] at hagree
  exact ⟨sql', ls, ls', hs', hls, hls', by simpa [tokens] using hagree.length_eq, hagree⟩

end Expressions

/-- A query whose leaves try to get out of their tokens. -/
theorem tokenize_sql_alike_of_quotes :
    ∃ sql' ls ls', Query.sql (.tsql "x]y") ⟨⟨.count, false, .star⟩, ⟨none, "t]; DROP TABLE u --"⟩,
        some (.binary .eq (.column ["select"]) (.text "' OR 1 = 1 --"))⟩ = .ok sql' ∧
      tokenize "SELECT COUNT(*) AS value FROM [dbo].[t] WITH (NOLOCK) WHERE a = 'b'" = .ok ls ∧
      tokenize sql' = .ok ls' ∧ ls.length = ls'.length ∧
      AgreeBut (.tsql "") [.name "dbo", .name "t", .name "a", .text "b"]
        [.name "x]y", .name "t]; DROP TABLE u --", .name "select", .text "' OR 1 = 1 --"]
        (tokens ls) (tokens ls') := by
  have hs : Query.sql (.tsql "dbo") ⟨⟨.count, false, .star⟩, ⟨none, "t"⟩,
      some (.binary .eq (.column ["a"]) (.text "b"))⟩ =
        .ok "SELECT COUNT(*) AS value FROM [dbo].[t] WITH (NOLOCK) WHERE a = 'b'" := by
    have ha : nameToken "a" = .word "a" := nameToken_of_isWord rfl rfl rfl (by decide)
    simp only [Query.sql, Query.pieces, Aggregate.pieces, Argument.pieces, Expr.pieces,
      columnPieces, ha]
    rfl
  exact @tokenize_sql_alike (.tsql "") "dbo" "x]y"
    ⟨⟨.count, false, .star⟩, ⟨none, "t"⟩, some (.binary .eq (.column ["a"]) (.text "b"))⟩
    ⟨⟨.count, false, .star⟩, ⟨none, "t]; DROP TABLE u --"⟩,
      some (.binary .eq (.column ["select"]) (.text "' OR 1 = 1 --"))⟩ _
    rfl ⟨by simp, by simp [Expr.HasLexicalLeaf]⟩ ⟨by simp, by simp [Expr.HasLexicalLeaf]⟩ hs

end MetricBoard.Expression
