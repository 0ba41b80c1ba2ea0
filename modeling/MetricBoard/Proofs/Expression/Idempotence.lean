import Mathlib.Data.List.Forall2
import MetricBoard.Expression.Transpile
import MetricBoard.Proofs.Expression.RoundTrip

/-!
# Transpiling twice

`transpile_eq_self_iff`: the text of a query is transpiled to itself exactly when every tree in the
query is as `Expr.Stays` has it. What is read back is otherwise written with fewer tests for null.
-/

namespace MetricBoard.Expression

variable {d : Dialect}

/-- What is written again as it was: a test for null that is not one of a predicate, and an IIF
whose test does not, when it has been read back, ask whether its last argument is null. -/
def Expr.Stays (d : Dialect) : Expr → Prop
  | .isNull _ e => e.endsInPredicate = false
  | .call .iif [test, _, value] =>
    ∀ e, IsNullTestOf test e → e.isSum = true → e.reread d ≠ value.reread d
  | _ => True

/-! ## What ends in a predicate -/

theorem Expr.endsInPredicate_of_test? {negated : Bool} {e e' : Expr}
    (h : e.test? negated = some e') : e'.endsInPredicate = true := by
  fun_induction Expr.test? negated e generalizing e' with
  | case1 e ih | case2 l r ih | case3 l r ih =>
    obtain ⟨r', hr, rfl⟩ := Option.map_eq_some_iff.1 h
    have := ih hr
    exact this
  | case4 => obtain rfl := Option.some.inj h; rfl
  | case5 => contradiction

theorem endsInPredicate_reread_of_isSum {e e' : Expr} (h : e.reread d = some e')
    (hs : e.isSum = true) : e'.endsInPredicate = e.endsInPredicate := by
  rw [Expr.endsInPredicate_of_isSum hs,
    Expr.endsInPredicate_of_isSum (Expr.isSum_of_reread h hs)]

theorem endsInPredicate_reread : ∀ {e e' : Expr}, e.reread d = some e' →
    e'.endsInPredicate = e.endsInPredicate
  | .column _, _, h | .number _, _, h | .text _, _, h | .date _, _, h | .null, _, h
  | .call _ _, _, h | .unary .neg _, _, h | .nested _, _, h =>
    endsInPredicate_reread_of_isSum h rfl
  | .unary .not e, _, h => by
    rw [Expr.reread] at h
    obtain ⟨e', he, rfl⟩ := Option.map_eq_some_iff.1 h
    have := endsInPredicate_reread he
    exact this
  | .binary op l r, _, h => by
    rw [Expr.reread] at h
    obtain ⟨l', -, h⟩ := Option.bind_eq_some_iff.1 h
    obtain ⟨r', hr, rfl⟩ := Option.map_eq_some_iff.1 h
    have := endsInPredicate_reread hr
    cases op <;> first | rfl | exact this
  | .isNull _ _, _, h => by
    rw [Expr.reread] at h
    obtain ⟨_, -, h⟩ := Option.bind_eq_some_iff.1 h
    exact Expr.endsInPredicate_of_test? h
  | .between _ _ _ _, _, h => by
    rw [Expr.reread] at h
    obtain ⟨_, -, h⟩ := Option.bind_eq_some_iff.1 h
    obtain ⟨_, -, h⟩ := Option.bind_eq_some_iff.1 h
    obtain ⟨_, -, rfl⟩ := Option.map_eq_some_iff.1 h
    rfl
  | .inList _ _ _, _, h | .like _ _ _, _, h => by
    rw [Expr.reread] at h
    obtain ⟨_, -, h⟩ := Option.bind_eq_some_iff.1 h
    obtain ⟨_, -, rfl⟩ := Option.map_eq_some_iff.1 h
    rfl

/-! ## What is written again -/

theorem pieces_test? {negated : Bool} {e e' : Expr} (h : e.test? negated = some e') :
    e'.pieces d = (Expr.isNull negated e).pieces d := by
  fun_induction Expr.test? negated e generalizing e' with
  | case1 e ih =>
    obtain ⟨r, hr, rfl⟩ := Option.map_eq_some_iff.1 h
    rw [Expr.pieces, ih hr]
    simp [Expr.pieces]
  | case2 l r ih | case3 l r ih =>
    obtain ⟨r', hr, rfl⟩ := Option.map_eq_some_iff.1 h
    rw [Expr.pieces, ih hr]
    simp [Expr.pieces]
  | case4 => obtain rfl := Option.some.inj h; rfl
  | case5 => contradiction

/-- A call is written as it was, unless it is an IIF that asks whether its last argument is
null. -/
theorem callTree_cases (d : Dialect) (f : Function) (es : List Expr) :
    (∃ test fallback value, f = .iif ∧ es = [test, fallback, value] ∧ IsNullTestOf test value ∧
        d.callTree f es = .call .coalesce [value, fallback]) ∨
      (∀ test fallback value, f = .iif → es = [test, fallback, value] →
        ¬ IsNullTestOf test value) ∧ (d.callTree f es).pieces d = (Expr.call f es).pieces d := by
  unfold Dialect.callTree
  split
  · exact .inr ⟨by simp, by simp [Expr.pieces, Expr.piecesOfAll, Dialect.callPieces]⟩
  · rename_i test fallback value
    by_cases ht : IsNullTestOf test value
    · exact .inl ⟨test, fallback, value, rfl, rfl, ht, iifOf_of_isNullTestOf ht⟩
    · refine .inr ⟨fun t y v _ he => ?_, by rw [iifOf_of_not_isNullTestOf ht]⟩
      obtain ⟨rfl, rfl, rfl⟩ : test = t ∧ fallback = y ∧ value = v := by simpa using he
      exact ht
  · rename_i hiif _
    exact .inr ⟨fun t y v hf he => absurd he (by rintro rfl; exact hiif _ _ _ hf rfl), rfl⟩

theorem isNullTestOf_reread {t t' v : Expr} (h : t.reread d = some t') :
    IsNullTestOf t' v ↔ ∃ e, IsNullTestOf t e ∧ e.isSum = true ∧ e.reread d = some v := by
  constructor
  · rintro (rfl | rfl)
    · obtain ⟨e, rfl, hs, he⟩ := reread_eq_isNull h
      exact ⟨e, Or.inl rfl, (Expr.isSum_reread he).symm.trans hs, he⟩
    · obtain ⟨t, rfl, ht⟩ := reread_eq_nested h
      obtain ⟨e, rfl, hs, he⟩ := reread_eq_isNull ht
      exact ⟨e, Or.inr rfl, (Expr.isSum_reread he).symm.trans hs, he⟩
  · rintro ⟨e, ht, hs, he⟩
    have hv := Expr.test?_of_isSum (Expr.isSum_of_reread he hs) false
    rcases ht with rfl | rfl
    · rw [Expr.reread, he, Option.bind_some, hv] at h
      exact Or.inl (Option.some.inj h).symm
    · rw [Expr.reread, Expr.reread, he, Option.bind_some, hv] at h
      exact Or.inr (Option.some.inj h).symm

theorem stays_iif_iff {test fallback value t' v' : Expr} (ht : test.reread d = some t')
    (hv : value.reread d = some v') :
    (Expr.call .iif [test, fallback, value]).Stays d ↔ ¬ IsNullTestOf t' v' := by
  show (∀ e, IsNullTestOf test e → e.isSum = true → e.reread d ≠ value.reread d) ↔ _
  rw [isNullTestOf_reread ht, hv]
  simp only [not_exists, not_and]

theorem negPieces_underSign {e e' : Expr} (h : e'.pieces d = e.pieces d) :
    negPieces ((if e.isNeg then .nested e' else e').pieces d) = negPieces (e.pieces d) := by
  split
  · rename_i hneg
    have hhead : (Piece.text (e.pieces d)).head? = some '-' := by
      cases e with
      | unary op e =>
        cases op with
        | neg =>
          rw [Expr.pieces, negPieces]
          split <;> rfl
        | not => contradiction
      | _ => contradiction
    rw [Expr.pieces, h, negPieces, negPieces, if_pos hhead]
    rfl
  · rw [h]

mutual

/-- What stays is read back as a tree with the same text. -/
theorem exists_reread_of_stays : ∀ {e : Expr}, e.Everywhere (Expr.Stays d) →
    ∃ e', e.reread d = some e' ∧ e'.pieces d = e.pieces d
  | .column _, _ | .number _, _ | .text _, _ | .null, _ => by
    rw [Expr.reread]
    exact ⟨_, rfl, rfl⟩
  | .date s, _ => by
    rw [Expr.reread]
    exact ⟨_, rfl, by cases d <;> rfl⟩
  | .call f args, h => by
    obtain ⟨es, hes, hp⟩ := exists_rereadAll_of_stays h.2
    rw [Expr.reread, hes]
    refine ⟨_, rfl, ?_⟩
    rcases callTree_cases d f es with ⟨t', y', v', rfl, rfl, ht, -⟩ | ⟨-, hc⟩
    · obtain ⟨t, args, rfl, h₁, hes⟩ := rereadAll_eq_cons hes
      obtain ⟨y, args, rfl, -, hes⟩ := rereadAll_eq_cons hes
      obtain ⟨v, args, rfl, h₂, hes⟩ := rereadAll_eq_cons hes
      obtain rfl := rereadAll_eq_nil hes
      exact absurd ht ((stays_iif_iff h₁ h₂).1 h.1)
    · rw [hc, Expr.pieces, Expr.pieces, hp]
  | .unary .neg e, h => by
    obtain ⟨e', he, hp⟩ := exists_reread_of_stays h.2
    rw [Expr.reread, he]
    refine ⟨_, rfl, ?_⟩
    rw [Expr.pieces, Expr.pieces]
    exact negPieces_underSign hp
  | .unary .not e, h => by
    obtain ⟨e', he, hp⟩ := exists_reread_of_stays h.2
    rw [Expr.reread, he]
    refine ⟨_, rfl, ?_⟩
    rw [Expr.pieces, Expr.pieces, hp]
  | .binary op l r, h => by
    obtain ⟨l', hl, hpl⟩ := exists_reread_of_stays h.2.1
    obtain ⟨r', hr, hpr⟩ := exists_reread_of_stays h.2.2
    rw [Expr.reread, hl, hr]
    refine ⟨_, rfl, ?_⟩
    rw [Expr.pieces, Expr.pieces, hpl, hpr]
  | .isNull negated e, h => by
    obtain ⟨e', he, hp⟩ := exists_reread_of_stays h.2
    rw [Expr.reread, he, Option.bind_some]
    cases ht : e'.test? negated with
    | none =>
      rw [Expr.test?_eq_none_iff, endsInPredicate_reread he, h.1] at ht
      contradiction
    | some t =>
      refine ⟨t, rfl, ?_⟩
      rw [pieces_test? ht, Expr.pieces, Expr.pieces, hp]
  | .between negated e low high, h => by
    obtain ⟨e', he, hp⟩ := exists_reread_of_stays h.2.1
    obtain ⟨low', hlow, hpl⟩ := exists_reread_of_stays h.2.2.1
    obtain ⟨high', hhigh, hph⟩ := exists_reread_of_stays h.2.2.2
    rw [Expr.reread, he, hlow, hhigh]
    refine ⟨_, rfl, ?_⟩
    rw [Expr.pieces, Expr.pieces, hp, hpl, hph]
  | .inList negated e items, h => by
    obtain ⟨e', he, hp⟩ := exists_reread_of_stays h.2.1
    obtain ⟨items', hitems, hpi⟩ := exists_rereadAll_of_stays h.2.2
    rw [Expr.reread, he, hitems]
    refine ⟨_, rfl, ?_⟩
    rw [Expr.pieces, Expr.pieces, hp, hpi]
  | .like negated e pattern, h => by
    obtain ⟨e', he, hp⟩ := exists_reread_of_stays h.2.1
    obtain ⟨pattern', hpattern, hpp⟩ := exists_reread_of_stays h.2.2
    rw [Expr.reread, he, hpattern]
    refine ⟨_, rfl, ?_⟩
    rw [Expr.pieces, Expr.pieces, hp, hpp]
  | .nested e, h => by
    obtain ⟨e', he, hp⟩ := exists_reread_of_stays h.2
    rw [Expr.reread, he]
    refine ⟨_, rfl, ?_⟩
    rw [Expr.pieces, Expr.pieces, hp]

theorem exists_rereadAll_of_stays : ∀ {es : List Expr}, Expr.EverywhereIn (Expr.Stays d) es →
    ∃ es', Expr.rereadAll d es = some es' ∧ Expr.piecesOfAll d es' = Expr.piecesOfAll d es
  | [], _ => ⟨[], by rw [Expr.rereadAll], rfl⟩
  | e :: es, h => by
    obtain ⟨e', he, hp⟩ := exists_reread_of_stays h.1
    obtain ⟨es', hes, hps⟩ := exists_rereadAll_of_stays h.2
    rw [Expr.rereadAll, he, hes]
    refine ⟨_, rfl, ?_⟩
    rw [Expr.piecesOfAll, Expr.piecesOfAll, hp, hps]

end

/-! ## Tests for null in a text -/

/-- How many tests for null a text has. -/
def Piece.nullTests (ps : List Piece) : Nat := (Piece.tokens ps).count (.word "IS")

/-- How many tests for null the text of an expression has. -/
def Expr.nullTests (d : Dialect) (e : Expr) : Nat := Piece.nullTests (e.pieces d)

/-- How many tests for null the texts of some expressions have. -/
def Expr.nullTestsIn (d : Dialect) : List Expr → Nat
  | [] => 0
  | e :: es => e.nullTests d + Expr.nullTestsIn d es

@[simp] theorem Piece.nullTests_append (ps qs : List Piece) :
    nullTests (ps ++ qs) = nullTests ps + nullTests qs := by
  simp [nullTests]

@[simp] theorem Piece.nullTests_nil : nullTests [] = 0 := rfl

@[simp] theorem Piece.nullTests_space (ps : List Piece) : nullTests (.space :: ps) = nullTests ps :=
  rfl

theorem Piece.nullTests_token {t : Token} (ht : t ≠ .word "IS") (ps : List Piece) :
    nullTests (.token t :: ps) = nullTests ps := by
  simp [nullTests, ht]

theorem Piece.nullTests_is (ps : List Piece) :
    nullTests (.token (.word "IS") :: ps) = nullTests ps + 1 := by
  simp [nullTests]

theorem nullTests_commaSeparated (es : List Expr) :
    Piece.nullTests (Piece.commaSeparated (Expr.piecesOfAll d es)) = Expr.nullTestsIn d es := by
  induction es with
  | nil => rw [Expr.piecesOfAll]; rfl
  | cons e es ih =>
    rw [Expr.piecesOfAll]
    cases es with
    | nil => simp [Expr.piecesOfAll, Piece.commaSeparated, Expr.nullTestsIn, Expr.nullTests]
    | cons e' es =>
      rw [Expr.piecesOfAll] at ih ⊢
      simp [Piece.commaSeparated, Piece.nullTests_token, ih, Expr.nullTestsIn, Expr.nullTests]

@[simp] theorem nullTests_notPieces (negated : Bool) : Piece.nullTests (notPieces negated) = 0 := by
  cases negated <;> decide

theorem nullTests_binary (op : BinaryOp) (l r : Expr) :
    (Expr.binary op l r).nullTests d = l.nullTests d + r.nullTests d := by
  have hop : d.operatorToken op ≠ .word "IS" := by
    cases op <;> cases d <;> simp [Dialect.operatorToken]
  simp [Expr.nullTests, Expr.pieces, Piece.nullTests_token hop]

theorem nullTests_neg (e : Expr) : (Expr.unary .neg e).nullTests d = e.nullTests d := by
  rw [Expr.nullTests, Expr.pieces, negPieces]
  split <;> simp [Expr.nullTests, Piece.nullTests_token]

theorem nullTests_not (e : Expr) : (Expr.unary .not e).nullTests d = e.nullTests d := by
  simp [Expr.nullTests, Expr.pieces, Piece.word, Piece.nullTests_token]

theorem nullTests_nested (e : Expr) : (Expr.nested e).nullTests d = e.nullTests d := by
  simp [Expr.nullTests, Expr.pieces, Piece.nullTests_token]

theorem nullTests_isNull (negated : Bool) (e : Expr) :
    (Expr.isNull negated e).nullTests d = e.nullTests d + 1 := by
  simp [Expr.nullTests, Expr.pieces, Piece.word, Piece.nullTests_token, Piece.nullTests_is]

theorem nullTests_between (negated : Bool) (e low high : Expr) :
    (Expr.between negated e low high).nullTests d =
      e.nullTests d + (low.nullTests d + high.nullTests d) := by
  simp [Expr.nullTests, Expr.pieces, Piece.word, Piece.nullTests_token]

theorem nullTests_inList (negated : Bool) (e : Expr) (items : List Expr) :
    (Expr.inList negated e items).nullTests d = e.nullTests d + Expr.nullTestsIn d items := by
  simp [Expr.nullTests, Expr.pieces, Piece.word, Piece.nullTests_token, nullTests_commaSeparated]

theorem nullTests_like (negated : Bool) (e pattern : Expr) :
    (Expr.like negated e pattern).nullTests d = e.nullTests d + pattern.nullTests d := by
  simp [Expr.nullTests, Expr.pieces, Piece.word, Piece.nullTests_token]

/-- How often the first argument of a function is written. -/
def Dialect.copies : Dialect → Function → Nat
  | access, .coalesce => 2
  | _, _ => 1

theorem nullTests_call_name {w : String} (hw : w ≠ "IS") (args : List (List Piece)) :
    Piece.nullTests (Piece.call w args) = Piece.nullTests (Piece.commaSeparated args) := by
  simp [Piece.call, Piece.word, Piece.nullTests_token, hw]

theorem nullTests_call {f : Function} {e : Expr} {es : List Expr} (ht : f.Takes (e :: es)) :
    (Expr.call f (e :: es)).nullTests d =
      d.copies f * e.nullTests d + Expr.nullTestsIn d es := by
  have hunit (u : DateUnit) : u.datePart ≠ "IS" := by cases u <;> decide
  rw [Expr.nullTests, Expr.pieces]
  cases ht <;> cases d <;>
    simp [Dialect.callPieces, Dialect.copies, Expr.piecesOfAll, nullTests_call_name,
      Piece.commaSeparated, Piece.unitCall, Piece.word, Piece.nullTests_token, Expr.nullTestsIn,
      Expr.nullTests, hunit]
  case coalesce.access => omega

theorem nullTests_of_isNullTestOf {t v : Expr} (h : IsNullTestOf t v) :
    t.nullTests d = v.nullTests d + 1 := by
  rcases h with rfl | rfl
  · exact nullTests_isNull false v
  · rw [nullTests_nested, nullTests_isNull]

/-! ## Reading back takes tests away -/

/-- A count is less than another one, unless it is the same and something holds. -/
def LessUnless (n' n : Nat) (P : Prop) : Prop := n' ≤ n ∧ (n' = n → P)

namespace LessUnless

variable {m m' n n' : Nat} {P Q : Prop}

theorem of_lt (h : n' < n) : LessUnless n' n P :=
  ⟨Nat.le_of_lt h, fun he => absurd he (Nat.ne_of_lt h)⟩

theorem refl (h : P) : LessUnless n n P := ⟨Nat.le_refl n, fun _ => h⟩

theorem imp (h : LessUnless n' n P) (hPQ : P → Q) : LessUnless n' n Q := ⟨h.1, hPQ ∘ h.2⟩

/-- A sum is the same only if both of its terms are. -/
theorem add (hm : LessUnless m' m P) (hn : LessUnless n' n Q) :
    LessUnless (m' + n') (m + n) (P ∧ Q) := by
  have hle := hm.1
  have hle' := hn.1
  exact ⟨Nat.add_le_add hle hle', fun he => ⟨hm.2 (by omega), hn.2 (by omega)⟩⟩

theorem mul_left {k : Nat} (hk : 0 < k) (h : LessUnless n' n P) :
    LessUnless (k * n') (k * n) P :=
  ⟨Nat.mul_le_mul_left k h.1, fun he => h.2 (Nat.eq_of_mul_eq_mul_left hk he)⟩

end LessUnless

/-- A tree is read back with as many tests for null in its text or fewer, and with as many only if
all trees in it stay. -/
def Shrinks (d : Dialect) (e e' : Expr) : Prop :=
  e'.nullTests d ≤ e.nullTests d ∧
    (e'.nullTests d = e.nullTests d → e.Everywhere (Expr.Stays d))

theorem nullTestsIn_of_shrinks {es es' : List Expr} (h : List.Forall₂ (Shrinks d) es es') :
    LessUnless (Expr.nullTestsIn d es') (Expr.nullTestsIn d es)
      (Expr.EverywhereIn (Expr.Stays d) es) := by
  induction h with
  | nil => exact .refl trivial
  | cons he _ ih => exact .add he ih

/-- A call that becomes a coalesce loses a test. -/
theorem shrinks_coalesce {t y v t' y' v' : Expr} (ht : Shrinks d t t') (hy : Shrinks d y y')
    (hv : Shrinks d v v') (hn : IsNullTestOf t' v') :
    (Expr.call .coalesce [v', y']).nullTests d < (Expr.call .iif [t, y, v]).nullTests d := by
  have h₁ := ht.1
  have h₂ := hy.1
  have h₃ := hv.1
  rw [nullTests_of_isNullTestOf hn] at h₁
  rw [nullTests_call (.coalesce v' y'), nullTests_call (.iif t y v)]
  simp only [Expr.nullTestsIn]
  cases d <;> simp only [Dialect.copies] <;> omega

theorem Dialect.copies_pos (d : Dialect) (f : Function) : 0 < d.copies f := by
  unfold Dialect.copies
  split <;> decide

theorem nullTests_callTree_le {f : Function} {es es' : List Expr} (ht : f.Takes es)
    (ht' : f.Takes es') (h : List.Forall₂ (Shrinks d) es es') :
    LessUnless ((Expr.call f es').nullTests d) ((Expr.call f es).nullTests d)
      (Expr.EverywhereIn (Expr.Stays d) es) := by
  cases h with
  | nil => exact .refl trivial
  | cons he hes =>
    rw [nullTests_call ht, nullTests_call ht']
    exact .add (.mul_left (d.copies_pos f) he) (nullTestsIn_of_shrinks hes)

theorem stays_call {f : Function} {es es' : List Expr} (ht : f.Takes es)
    (hr : Expr.rereadAll d es = some es')
    (hn : ∀ t y v, f = .iif → es' = [t, y, v] → ¬ IsNullTestOf t v) :
    (Expr.call f es).Stays d := by
  cases ht with
  | iif t y v =>
    simp only [rereadAll_cons, rereadAll_nil, Option.bind_eq_some_iff, Option.map_eq_some_iff,
      Option.some.injEq] at hr
    obtain ⟨t', h₁, _, ⟨y', -, _, ⟨v', h₂, _, rfl, rfl⟩, rfl⟩, rfl⟩ := hr
    exact (stays_iif_iff h₁ h₂).2 (hn t' y' v' rfl rfl)
  | _ => trivial

theorem shrinks_call {f : Function} {es es' : List Expr} (ht : f.Takes es)
    (hr : Expr.rereadAll d es = some es') (h : List.Forall₂ (Shrinks d) es es') :
    Shrinks d (.call f es) (d.callTree f es') := by
  rcases callTree_cases d f es' with ⟨t', y', v', rfl, rfl, hn, hc⟩ | ⟨hn, hc⟩
  · obtain ⟨t, _, h₁, ht', rfl⟩ := List.forall₂_cons_right_iff.1 h
    obtain ⟨y, _, h₂, hy', rfl⟩ := List.forall₂_cons_right_iff.1 ht'
    obtain ⟨v, _, h₃, hv', rfl⟩ := List.forall₂_cons_right_iff.1 hy'
    obtain rfl := List.forall₂_nil_right_iff.1 hv'
    have hlt := shrinks_coalesce h₁ h₂ h₃ hn
    rw [← hc] at hlt
    exact LessUnless.of_lt hlt
  · have heq : (d.callTree f es').nullTests d = (Expr.call f es').nullTests d :=
      congrArg Piece.nullTests hc
    have hless := nullTests_callTree_le ht (ht.reread hr) h
    unfold Shrinks
    rw [heq]
    exact hless.imp fun hes => ⟨stays_call ht hr hn, hes⟩

theorem Shrinks.refl {e : Expr} (h : e.Everywhere (Expr.Stays d)) : Shrinks d e e :=
  LessUnless.refl h

mutual

theorem shrinks_reread : ∀ {e e' : Expr}, e.IsLexical → e.reread d = some e' → Shrinks d e e'
  | .column _, _, _, h | .number _, _, _, h | .text _, _, _, h | .null, _, _, h => by
    rw [Expr.reread] at h
    obtain rfl := Option.some.inj h
    exact .refl trivial
  | .date s, _, _, h => by
    rw [Expr.reread] at h
    obtain rfl := Option.some.inj h
    cases d with
    | tsql _ => exact LessUnless.refl trivial
    | access => exact .refl trivial
  | .call f args, _, hl, h => by
    rw [Expr.reread] at h
    obtain ⟨es, hes, rfl⟩ := Option.map_eq_some_iff.1 h
    exact shrinks_call hl.1 hes (shrinks_rereadAll hl.2 hes)
  | .unary .neg e, _, hl, h => by
    rw [Expr.reread] at h
    obtain ⟨e', he, rfl⟩ := Option.map_eq_some_iff.1 h
    have hp : (if e.isNeg then Expr.nested e' else e').nullTests d = e'.nullTests d := by
      split
      · exact nullTests_nested e'
      · rfl
    unfold Shrinks
    rw [nullTests_neg, nullTests_neg, hp]
    exact LessUnless.imp (shrinks_reread hl.2 he) fun h => ⟨trivial, h⟩
  | .unary .not e, _, hl, h => by
    rw [Expr.reread] at h
    obtain ⟨e', he, rfl⟩ := Option.map_eq_some_iff.1 h
    unfold Shrinks
    rw [nullTests_not, nullTests_not]
    exact LessUnless.imp (shrinks_reread hl.2 he) fun h => ⟨trivial, h⟩
  | .binary op l r, _, hl, h => by
    rw [Expr.reread] at h
    obtain ⟨l', hel, h⟩ := Option.bind_eq_some_iff.1 h
    obtain ⟨r', her, rfl⟩ := Option.map_eq_some_iff.1 h
    have hboth := LessUnless.add (shrinks_reread hl.2.1 hel) (shrinks_reread hl.2.2 her)
    unfold Shrinks
    rw [nullTests_binary, nullTests_binary]
    exact hboth.imp fun h => ⟨trivial, h⟩
  | .isNull negated e, _, hl, h => by
    rw [Expr.reread] at h
    obtain ⟨e₁, he, h⟩ := Option.bind_eq_some_iff.1 h
    have hp : _ = (Expr.isNull negated e₁).nullTests d := congrArg Piece.nullTests (pieces_test? h)
    have hs : e.endsInPredicate = false := by
      rw [← endsInPredicate_reread he, ← Bool.not_eq_true, ← Expr.test?_eq_none_iff negated, h]
      simp
    have htest := LessUnless.add (shrinks_reread hl.2 he) (.refl (n := 1) hs)
    rw [nullTests_isNull] at hp
    unfold Shrinks
    rw [nullTests_isNull, Expr.nullTests, hp]
    exact htest.imp And.symm
  | .between negated e low high, _, hl, h => by
    rw [Expr.reread] at h
    obtain ⟨e', he, h⟩ := Option.bind_eq_some_iff.1 h
    obtain ⟨low', hlow, h⟩ := Option.bind_eq_some_iff.1 h
    obtain ⟨high', hhigh, rfl⟩ := Option.map_eq_some_iff.1 h
    have hrange := LessUnless.add (shrinks_reread hl.2.2.1 hlow) (shrinks_reread hl.2.2.2 hhigh)
    have hall := LessUnless.add (shrinks_reread hl.2.1 he) hrange
    unfold Shrinks
    rw [nullTests_between, nullTests_between]
    exact hall.imp fun h => ⟨trivial, h⟩
  | .inList negated e items, _, hl, h => by
    rw [Expr.reread] at h
    obtain ⟨e', he, h⟩ := Option.bind_eq_some_iff.1 h
    obtain ⟨items', hitems, rfl⟩ := Option.map_eq_some_iff.1 h
    have hlist := nullTestsIn_of_shrinks (shrinks_rereadAll hl.2.2 hitems)
    have hboth := LessUnless.add (shrinks_reread hl.2.1 he) hlist
    unfold Shrinks
    rw [nullTests_inList, nullTests_inList]
    exact hboth.imp fun h => ⟨trivial, h⟩
  | .like negated e pattern, _, hl, h => by
    rw [Expr.reread] at h
    obtain ⟨e', he, h⟩ := Option.bind_eq_some_iff.1 h
    obtain ⟨pattern', hpattern, rfl⟩ := Option.map_eq_some_iff.1 h
    have hboth := LessUnless.add (shrinks_reread hl.2.1 he) (shrinks_reread hl.2.2 hpattern)
    unfold Shrinks
    rw [nullTests_like, nullTests_like]
    exact hboth.imp fun h => ⟨trivial, h⟩
  | .nested e, _, hl, h => by
    rw [Expr.reread] at h
    obtain ⟨e', he, rfl⟩ := Option.map_eq_some_iff.1 h
    unfold Shrinks
    rw [nullTests_nested, nullTests_nested]
    exact LessUnless.imp (shrinks_reread hl.2 he) fun h => ⟨trivial, h⟩

theorem shrinks_rereadAll : ∀ {es es' : List Expr}, Expr.EverywhereIn Expr.HasLexicalRoot es →
    Expr.rereadAll d es = some es' → List.Forall₂ (Shrinks d) es es'
  | [], _, _, h => by
    rw [Expr.rereadAll] at h
    obtain rfl := Option.some.inj h
    exact .nil
  | e :: es, _, hl, h => by
    rw [Expr.rereadAll] at h
    obtain ⟨e', he, h⟩ := Option.bind_eq_some_iff.1 h
    obtain ⟨es', hes, rfl⟩ := Option.map_eq_some_iff.1 h
    exact .cons (shrinks_reread hl.1 he) (shrinks_rereadAll hl.2 hes)

end

/-! ## Queries -/

/-- How many tests for null the text of a filter has. -/
def filterNullTests (d : Dialect) : Option Expr → Nat
  | none => 0
  | some e => e.nullTests d

theorem nullTests_aggregate (a : Aggregate) :
    Piece.nullTests (a.pieces d) = Piece.nullTests (a.argument.pieces d) := by
  have hname : d.aggregateName a.function ≠ "IS" := by
    cases d <;> cases a.function <;> simp [Dialect.aggregateName]
  unfold Aggregate.pieces
  split <;> simp [Piece.word, Piece.nullTests_token, hname]

theorem nullTests_query (q : Query) :
    Piece.nullTests (q.pieces d) =
      Piece.nullTests (q.aggregate.argument.pieces d) + filterNullTests d q.filter := by
  have htable : Piece.nullTests (d.tablePieces q.table) = 0 := by
    cases d <;> simp [Dialect.tablePieces, Piece.word, Piece.nullTests_token]
  unfold Query.pieces
  cases q.filter <;>
    simp [nullTests_aggregate, htable, filterNullTests, Piece.word, Piece.nullTests_token,
      resultColumn, Expr.nullTests]

theorem shrinks_argument {a a' : Argument} (hl : ∀ e, a = .expr e → e.IsLexical)
    (h : a.reread d = some a') :
    LessUnless (Piece.nullTests (a'.pieces d)) (Piece.nullTests (a.pieces d))
      (∀ e, a = .expr e → e.Everywhere (Expr.Stays d)) := by
  cases a with
  | star =>
    obtain rfl := Option.some.inj h
    exact .refl fun e he => by contradiction
  | expr e =>
    obtain ⟨e', he, rfl⟩ := Option.map_eq_some_iff.1 h
    refine .imp (shrinks_reread (hl e rfl) he) fun hs e₁ he₁ => ?_
    obtain rfl := Argument.expr.inj he₁
    exact hs

theorem shrinks_filter {w w' : Option Expr} (hl : ∀ e, w = some e → e.IsLexical)
    (h : rereadFilter d w = some w') :
    LessUnless (filterNullTests d w') (filterNullTests d w)
      (∀ e, w = some e → e.Everywhere (Expr.Stays d)) := by
  cases w with
  | none =>
    obtain rfl := Option.some.inj h
    exact .refl fun e he => by contradiction
  | some e =>
    obtain ⟨e', he, rfl⟩ := Option.map_eq_some_iff.1 h
    refine .imp (shrinks_reread (hl e rfl) he) fun hs e₁ he₁ => ?_
    obtain rfl := Option.some.inj he₁
    exact hs

/-- A query that is read back with as many tests for null has only trees that stay. -/
theorem stays_of_nullTests_eq {q q' : Query} (hl : q.Everywhere Expr.HasLexicalRoot)
    (h : q.reread d = some q')
    (hn : Piece.nullTests (q'.pieces d) = Piece.nullTests (q.pieces d)) :
    q.Everywhere (Expr.Stays d) := by
  obtain ⟨a, ha, h⟩ := Option.bind_eq_some_iff.1 h
  obtain ⟨w, hw, rfl⟩ := Option.map_eq_some_iff.1 h
  rw [nullTests_query, nullTests_query] at hn
  exact ((shrinks_argument hl.1 ha).add (shrinks_filter hl.2 hw)).2 hn

theorem tablePieces_readTable (d : Dialect) (t : TableName) :
    d.tablePieces (d.readTable t) = d.tablePieces t := by
  cases d <;> rfl

theorem exists_reread_argument_of_stays {a : Argument}
    (h : ∀ e, a = .expr e → e.Everywhere (Expr.Stays d)) :
    ∃ a', a.reread d = some a' ∧ a'.pieces d = a.pieces d := by
  cases a with
  | star => exact ⟨.star, rfl, rfl⟩
  | expr e =>
    obtain ⟨e', he, hp⟩ := exists_reread_of_stays (h e rfl)
    exact ⟨.expr e', by rw [Argument.reread, he]; rfl, hp⟩

/-- A query whose trees stay is read back as a query with the same text. -/
theorem exists_reread_query_of_stays {q : Query} (h : q.Everywhere (Expr.Stays d)) :
    ∃ q', q.reread d = some q' ∧ q'.sql d = q.sql d := by
  obtain ⟨agg, table, filter⟩ := q
  obtain ⟨a, ha, hpa⟩ := exists_reread_argument_of_stays h.1
  have hagg : Aggregate.pieces d { agg with argument := a } = agg.pieces d := by
    simp [Aggregate.pieces, hpa]
  cases filter with
  | none =>
    refine ⟨⟨{ agg with argument := a }, d.readTable table, none⟩, ?_, ?_⟩
    · rw [Query.reread, ha]
      rfl
    · simp [Query.sql, Query.pieces, hagg, tablePieces_readTable]
  | some e =>
    obtain ⟨e', he, hp⟩ := exists_reread_of_stays (h.2 e rfl)
    refine ⟨⟨{ agg with argument := a }, d.readTable table, some e'⟩, ?_, ?_⟩
    · rw [Query.reread, ha, rereadFilter, he]
      rfl
    · simp [Query.sql, Query.pieces, hagg, tablePieces_readTable, hp]

/-- **Transpiling twice**: what a source is transpiled to is transpiled to itself if and only if
every tree of the source stays as it is. -/
theorem transpile_eq_self_iff {source sql : String} (h : transpile d source = .ok sql) :
    ∃ q, parse source = .ok q ∧ (transpile d sql = .ok sql ↔ q.Everywhere (Expr.Stays d)) := by
  cases hq : parse source with
  | error r =>
    rw [transpile, hq] at h
    contradiction
  | ok q =>
    rw [transpile, hq] at h
    have hs : q.sql d = .ok sql := h
    refine ⟨q, rfl, fun ht => ?_, fun hstay => ?_⟩
    · obtain ⟨ts, hd, hts⟩ := derivesQuery_of_parse hq
      have hl := isLexical_of_derivesQuery hd hts
      cases hq' : parse sql with
      | error r =>
        rw [transpile, hq'] at ht
        contradiction
      | ok q' =>
        rw [transpile, hq'] at ht
        have hs' : q'.sql d = .ok sql := ht
        obtain ⟨ls, hls, hx⟩ := tokenize_sql_of_parse d hq hs
        obtain ⟨ls', hls', hx'⟩ := tokenize_sql_of_parse d hq' hs'
        obtain rfl : ls = ls' := Except.ok.inj (hls.symm.trans hls')
        refine stays_of_nullTests_eq hl ((parse_sql_eq_ok_iff d hq hs).1 hq') ?_
        rw [Piece.nullTests, Piece.nullTests, ← hx, ← hx']
    · obtain ⟨q', hr, hsql⟩ := exists_reread_query_of_stays hstay
      rw [transpile, (parse_sql_eq_ok_iff d hq hs).2 hr]
      exact hsql.trans hs

theorem transpile_round_eq_self_iff :
    transpile (.tsql "dbo") "SUM(ROUND(a)) FROM t WHERE b > #2024-01-01#" =
      .ok ("SELECT SUM(ROUND(a, 0)) AS value FROM [dbo].[t] " ++
        "WITH (NOLOCK) WHERE b > '2024-01-01'") ∧
    ∃ q, parse "SUM(ROUND(a)) FROM t WHERE b > #2024-01-01#" = .ok q ∧
      (transpile (.tsql "dbo") ("SELECT SUM(ROUND(a, 0)) AS value FROM [dbo].[t] " ++
        "WITH (NOLOCK) WHERE b > '2024-01-01'") =
          .ok ("SELECT SUM(ROUND(a, 0)) AS value FROM [dbo].[t] " ++
            "WITH (NOLOCK) WHERE b > '2024-01-01'") ↔
        q.Everywhere (Expr.Stays (.tsql "dbo"))) := by
  have h : transpile (.tsql "dbo") "SUM(ROUND(a)) FROM t WHERE b > #2024-01-01#" =
      .ok ("SELECT SUM(ROUND(a, 0)) AS value FROM [dbo].[t] " ++
        "WITH (NOLOCK) WHERE b > '2024-01-01'") := by
    rw [transpile, parse_sum_round]
    exact sql_sum_round
  exact ⟨h, transpile_eq_self_iff h⟩

theorem parse_sum_iif : parse "SUM(IIF(ROUND(a) IS NULL, 0, ROUND(a, 0))) FROM t" =
    .ok ⟨⟨.sum, false, .expr (.call .iif [.isNull false (.call .round [.column ["a"]]),
      .number "0", .call .round [.column ["a"], .number "0"]])⟩, ⟨none, "t"⟩, none⟩ := by
  have ht : tokenize "SUM(IIF(ROUND(a) IS NULL, 0, ROUND(a, 0))) FROM t" =
      .ok [⟨.word "SUM", 0⟩, ⟨.lparen, 3⟩, ⟨.word "IIF", 4⟩, ⟨.lparen, 7⟩, ⟨.word "ROUND", 8⟩,
        ⟨.lparen, 13⟩, ⟨.word "a", 14⟩, ⟨.rparen, 15⟩, ⟨.word "IS", 17⟩, ⟨.word "NULL", 20⟩,
        ⟨.comma, 24⟩, ⟨.number "0", 26⟩, ⟨.comma, 27⟩, ⟨.word "ROUND", 29⟩, ⟨.lparen, 34⟩,
        ⟨.word "a", 35⟩, ⟨.comma, 36⟩, ⟨.number "0", 38⟩, ⟨.rparen, 39⟩, ⟨.rparen, 40⟩,
        ⟨.rparen, 41⟩, ⟨.word "FROM", 43⟩, ⟨.word "t", 48⟩] := by
    rw [tokenize_eq_lexemesWithin]
    rfl
  have column := Derives.column (Token.name?_word (w := "a") (by decide))
  have zero := Derives.number "0"
  have round := @Derives.call "ROUND" [([.word "a"], _)] _
    (by simpa using column.of_primary .disjunction) (.round _ (Text.upper_eq rfl))
  have roundTo := @Derives.call "ROUND" [([.word "a"], _), ([.number "0"], _)] _
    (by simpa using ⟨column.of_primary .disjunction, zero.of_primary .disjunction⟩)
    (.roundTo _ _ (Text.upper_eq rfl))
  have test := (Derives.isNull keyword_is .plain keyword_null (round.of_primary .sum)).of_predicate
  have iif := @Derives.call "IIF" [(_, _), (_, _), (_, _)] _
    (by simpa using ⟨test, zero.of_primary .disjunction, roundTo.of_primary .disjunction⟩)
    (.iif (Text.upper_eq rfl) (by simp [IsNullTestOf]))
  rw [parse_eq_ok_iff_query ht, toOption_query_eq_some_iff]
  exact .mk .none
    (.expr (ofWord?_aggregateName (.tsql "") .sum) (iif.of_primary .disjunction)) .none
    keyword_from (.bare (Token.name?_word (by decide))) .none .none

/-- A test of the last argument in another form is recognised only when it has been written. -/
theorem transpile_iif_ne_self :
    ∃ sql sql', transpile (.tsql "dbo") "SUM(IIF(ROUND(a) IS NULL, 0, ROUND(a, 0))) FROM t" =
      .ok sql ∧ transpile (.tsql "dbo") sql = .ok sql' ∧ sql' ≠ sql := by
  have ha : nameToken "a" = .word "a" := nameToken_of_isWord rfl rfl rfl (by decide)
  have hs : Query.sql (.tsql "dbo") ⟨⟨.sum, false, .expr (.call .iif
      [.isNull false (.call .round [.column ["a"]]), .number "0",
        .call .round [.column ["a"], .number "0"]])⟩, ⟨none, "t"⟩, none⟩ =
      .ok ("SELECT SUM(IIF(ROUND(a, 0) IS NULL, 0, ROUND(a, 0))) AS value " ++
        "FROM [dbo].[t] WITH (NOLOCK)") := by
    simp only [Query.sql, Query.pieces, Aggregate.pieces, Argument.pieces, Expr.pieces,
      Expr.piecesOfAll, columnPieces, ha]
    rfl
  have hr : Query.reread (.tsql "dbo") ⟨⟨.sum, false, .expr (.call .iif
      [.isNull false (.call .round [.column ["a"]]), .number "0",
        .call .round [.column ["a"], .number "0"]])⟩, ⟨none, "t"⟩, none⟩ =
      some ⟨⟨.sum, false, .expr (.call .coalesce
        [.call .round [.column ["a"], .number "0"], .number "0"])⟩, ⟨some "dbo", "t"⟩, none⟩ := rfl
  refine ⟨_, "SELECT SUM(ISNULL(ROUND(a, 0), 0)) AS value FROM [dbo].[t] WITH (NOLOCK)",
    by rw [transpile, parse_sum_iif]; exact hs, ?_, by decide⟩
  rw [transpile, (parse_sql_eq_ok_iff _ parse_sum_iif hs).2 hr]
  simp only [bind, Except.bind, Query.sql, Query.pieces, Aggregate.pieces, Argument.pieces,
    Expr.pieces, Expr.piecesOfAll, columnPieces, ha]
  rfl

end MetricBoard.Expression
