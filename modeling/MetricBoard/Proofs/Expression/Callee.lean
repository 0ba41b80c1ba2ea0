import MetricBoard.Proofs.Expression.Grammar
import MetricBoard.Proofs.Expression.Reading

/-!
# Calls and their trees

`callTree?_eq_some_iff`: a call has a tree exactly when it is a call of a recognised function with
the arguments that the function takes, and the tree is the one that the grammar gives it.
-/

namespace MetricBoard.Expression

namespace Callee

/-- The name of a function in capitals. -/
def name : Callee → String
  | getDate => "GETDATE"
  | now => "NOW"
  | date => "DATE"
  | dateAdd => "DATEADD"
  | dateDiff => "DATEDIFF"
  | datePart => "DATEPART"
  | month => "MONTH"
  | year => "YEAR"
  | isNull => "ISNULL"
  | nz => "NZ"
  | coalesce => "COALESCE"
  | iif => "IIF"
  | abs => "ABS"
  | round => "ROUND"

theorem ofWord?_eq_some_iff {w : String} {f : Callee} :
    ofWord? w = some f ↔ Text.upper w = f.name := by
  unfold ofWord?
  constructor
  · intro h
    split at h
    case h_15 => exact absurd h (by simp)
    all_goals
      obtain rfl := Option.some.inj h
      assumption
  · intro h
    rw [h]
    cases f <;> rfl

end Callee

theorem namesUnit_iff {e : Expr} {u : DateUnit} : Callee.unitOf? e = some u ↔ NamesUnit e u := by
  constructor
  · intro h
    fun_cases Callee.unitOf? e with
    | case1 name => exact .bare h
    | case2 content => exact .text h
    | case3 => simp_all [Callee.unitOf?]
  · rintro (h | h) <;> exact h

theorem nullTest?_eq_some_iff {test value : Expr} :
    test.nullTest? = some value ↔ IsNullTestOf test value := by
  unfold IsNullTestOf
  fun_cases Expr.nullTest? test with
  | case1 e => simp
  | case2 e => simp
  | case3 e h₁ h₂ =>
    constructor
    · intro h; simp at h
    · rintro (rfl | rfl)
      · exact absurd rfl (h₁ value)
      · exact absurd rfl (h₂ value)

theorem coalesced_iff {a b : Expr} {rest : List Expr} {e : Expr} :
    Coalesced (a :: b :: rest) e ↔ e = Expr.coalesceOf a (b :: rest) := by
  induction rest generalizing a b e with
  | nil =>
    constructor
    · intro h; cases h; rfl
    · rintro rfl; exact .pair a b
  | cons c rest ih =>
    constructor
    · intro h
      cases h with
      | more _ h => rw [ih.1 h]; rfl
    · rintro rfl
      exact .more a (ih.2 rfl)

theorem iifOf_of_isNullTestOf {test fallback value : Expr} (h : IsNullTestOf test value) :
    Expr.iifOf test fallback value = .call .coalesce [value, fallback] :=
  if_pos (nullTest?_eq_some_iff.2 h)

theorem iifOf_of_not_isNullTestOf {test yes no : Expr} (h : ¬ IsNullTestOf test no) :
    Expr.iifOf test yes no = .call .iif [test, yes, no] :=
  if_neg (mt nullTest?_eq_some_iff.1 h)

theorem calls_iif {w : String} (hw : Text.upper w = "IIF") (a b c : Expr) :
    Calls w [a, b, c] (Expr.iifOf a b c) := by
  by_cases h : IsNullTestOf a c
  · rw [iifOf_of_isNullTestOf h]
    exact .iifCoalesce hw h
  · rw [iifOf_of_not_isNullTestOf h]
    exact .iif hw h

theorem calls_of_tree {f : Callee} {w : String} (hw : Text.upper w = f.name) {args : List Expr}
    {e : Expr} (h : f.tree args = .ok e) : Calls w args e := by
  revert h
  fun_cases Callee.tree f args with
  | case1 => rintro ⟨⟩; exact .now (by simp [hw, Callee.name])
  | case2 => rintro ⟨⟩; exact .now (by simp [hw, Callee.name])
  | case3 => rintro ⟨⟩; exact .now (by simp [hw, Callee.name])
  | case4 _ _ _ _ hu => rintro ⟨⟩; exact .dateAdd hw (namesUnit_iff.1 hu)
  | case5 => rintro ⟨⟩
  | case6 _ _ _ _ hu => rintro ⟨⟩; exact .dateDiff hw (namesUnit_iff.1 hu)
  | case7 => rintro ⟨⟩
  | case8 _ _ hu => rintro ⟨⟩; exact .monthPart hw (namesUnit_iff.1 hu)
  | case9 _ _ hu => rintro ⟨⟩; exact .yearPart hw (namesUnit_iff.1 hu)
  | case10 => rintro ⟨⟩
  | case11 moment => rintro ⟨⟩; exact .month moment hw
  | case12 moment => rintro ⟨⟩; exact .year moment hw
  | case13 a => rintro ⟨⟩; exact .nullTest a hw
  | case14 a b => rintro ⟨⟩; exact .orElse a b (by simp [hw, Callee.name])
  | case15 a b => rintro ⟨⟩; exact .orElse a b (by simp [hw, Callee.name])
  | case16 a => rintro ⟨⟩; exact .orZero a hw
  | case17 a b rest => rintro ⟨⟩; exact .coalesce hw (coalesced_iff.2 rfl)
  | case18 a b c => rintro ⟨⟩; exact calls_iif hw a b c
  | case19 a => rintro ⟨⟩; exact .abs a hw
  | case20 a => rintro ⟨⟩; exact .round a hw
  | case21 a b => rintro ⟨⟩; exact .roundTo a b hw
  | case22 => rintro ⟨⟩

theorem tree_of_calls {w : String} {args : List Expr} {e : Expr} (h : Calls w args e) :
    ∃ f : Callee, Text.upper w = f.name ∧ f.tree args = .ok e := by
  cases h with
  | now hw =>
    simp only [List.mem_cons, List.not_mem_nil, or_false] at hw
    rcases hw with hw | hw | hw
    · exact ⟨.getDate, hw, rfl⟩
    · exact ⟨.now, hw, rfl⟩
    · exact ⟨.date, hw, rfl⟩
  | dateAdd hw hu => exact ⟨.dateAdd, hw, by simp only [Callee.tree, namesUnit_iff.2 hu]⟩
  | dateDiff hw hu => exact ⟨.dateDiff, hw, by simp only [Callee.tree, namesUnit_iff.2 hu]⟩
  | monthPart hw hu => exact ⟨.datePart, hw, by simp only [Callee.tree, namesUnit_iff.2 hu]⟩
  | yearPart hw hu => exact ⟨.datePart, hw, by simp only [Callee.tree, namesUnit_iff.2 hu]⟩
  | month _ hw => exact ⟨.month, hw, rfl⟩
  | year _ hw => exact ⟨.year, hw, rfl⟩
  | nullTest _ hw => exact ⟨.isNull, hw, rfl⟩
  | orElse e fallback hw =>
    simp only [List.mem_cons, List.not_mem_nil, or_false] at hw
    rcases hw with hw | hw
    · exact ⟨.isNull, hw, rfl⟩
    · exact ⟨.nz, hw, rfl⟩
  | orZero _ hw => exact ⟨.nz, hw, rfl⟩
  | coalesce hw hc =>
    refine ⟨.coalesce, hw, ?_⟩
    cases hc with
    | pair a b => rfl
    | more a h => rw [coalesced_iff.1 h]; rfl
  | iifCoalesce hw ht =>
    exact ⟨.iif, hw, by simp only [Callee.tree, iifOf_of_isNullTestOf ht]⟩
  | iif hw ht => exact ⟨.iif, hw, by simp only [Callee.tree, iifOf_of_not_isNullTestOf ht]⟩
  | abs _ hw => exact ⟨.abs, hw, rfl⟩
  | round _ hw => exact ⟨.round, hw, rfl⟩
  | roundTo _ _ hw => exact ⟨.round, hw, rfl⟩

theorem callTree?_eq_some_iff {w : String} {args : List Expr} {e : Expr} :
    callTree? w args = some e ↔ Calls w args e := by
  unfold callTree? callTree
  constructor
  · intro h
    split at h
    · rename_i f hf
      refine calls_of_tree (Callee.ofWord?_eq_some_iff.1 hf) ?_
      cases ht : f.tree args with
      | error r => rw [ht] at h; contradiction
      | ok e' => rw [ht] at h; exact congrArg Except.ok (Option.some.inj h)
    · contradiction
  · intro h
    obtain ⟨f, hw, ht⟩ := tree_of_calls h
    rw [Callee.ofWord?_eq_some_iff.2 hw]
    simp only [ht]
    rfl

end MetricBoard.Expression
