import Mathlib.Tactic.Ring
import MetricBoard.Number.Decimal

/-!
# Rows of digits

The value of a row of digits, digit by digit: what is behind counts less than one of what is in
front (`digitsValue_append`, `digitsValue_lt`), so that rows of one length compare as their values
(`digits_append_lt_iff`).
-/

namespace MetricBoard.Decimal

section

variable {ds : List Char}

theorem mul_tenTo_le_ofDigitChars (ds : List Char) (s : Nat) :
    s * 10 ^ ds.length ≤ Nat.ofDigitChars 10 ds s := by
  induction ds generalizing s with
  | nil => simp
  | cons d ds ih =>
    rw [Nat.ofDigitChars_cons, List.length_cons]
    refine le_trans ?_ (ih _)
    calc s * 10 ^ (ds.length + 1) = 10 * s * 10 ^ ds.length := by ring
      _ ≤ _ := Nat.mul_le_mul_right _ (Nat.le_add_right _ _)

theorem ofDigitChars_lt (h : ∀ d ∈ ds, d.isDigit = true) (s : Nat) :
    Nat.ofDigitChars 10 ds s < (s + 1) * 10 ^ ds.length := by
  induction ds generalizing s with
  | nil => simp
  | cons d ds ih =>
    obtain ⟨-, hle⟩ := Char.isDigit_iff_toNat.1 (h d List.mem_cons_self)
    rw [Nat.ofDigitChars_cons, List.length_cons]
    refine (ih (fun c hc => h c (List.mem_cons_of_mem _ hc)) _).trans_le ?_
    calc _ ≤ (s + 1) * 10 * 10 ^ ds.length := Nat.mul_le_mul_right _ (by simp at hle ⊢; omega)
      _ = (s + 1) * 10 ^ (ds.length + 1) := by ring

theorem digitsValue_eq_ofDigitChars (ds : List Char) :
    digitsValue ds = Nat.ofDigitChars 10 ds 0 := (Nat.ofDigitChars_eq_foldl ..).symm

theorem digitsValue_append (ds es : List Char) :
    digitsValue (ds ++ es) = digitsValue ds * 10 ^ es.length + digitsValue es := by
  simp only [digitsValue_eq_ofDigitChars]
  rw [Nat.ofDigitChars_append, Nat.ofDigitChars_eq_ofDigitChars_zero, Nat.mul_comm]

theorem digitsValue_cons (d : Char) (ds : List Char) :
    digitsValue (d :: ds) = (d.toNat - '0'.toNat) * 10 ^ ds.length + digitsValue ds := by
  rw [← List.singleton_append, digitsValue_append]
  simp [digitsValue]

theorem digitsValue_lt (h : ∀ d ∈ ds, d.isDigit = true) : digitsValue ds < 10 ^ ds.length := by
  have hlt := ofDigitChars_lt h 0
  rwa [Nat.zero_add, Nat.one_mul, ← digitsValue_eq_ofDigitChars] at hlt

end

/-! ## The order of rows of one length -/

/-- Two digits compare as their values, and the values tell them apart. -/
theorem lt_or_eq_or_gt_of_isDigit {d e : Char} (hd : d.isDigit = true) (he : e.isDigit = true) :
    d < e ∧ d.toNat - '0'.toNat < e.toNat - '0'.toNat ∨ d = e ∨
      e < d ∧ e.toNat - '0'.toNat < d.toNat - '0'.toNat := by
  have hd' := (Char.isDigit_iff_toNat.1 hd).1
  have he' := (Char.isDigit_iff_toNat.1 he).1
  have hlt (a b : Char) (h : a.toNat < b.toNat) : a < b := h
  rcases Nat.lt_trichotomy d.toNat e.toNat with h | h | h
  · exact .inl ⟨hlt _ _ h, by omega⟩
  · exact .inr (.inl (Char.toNat_inj.1 h))
  · exact .inr (.inr ⟨hlt _ _ h, by omega⟩)

/-- **Digits of a fixed width.** With texts behind them they compare as their values, and then as
those texts. -/
theorem digits_append_lt_iff {ds es xs ys : List Char} (hds : ∀ d ∈ ds, d.isDigit = true)
    (hes : ∀ e ∈ es, e.isDigit = true) (hlength : ds.length = es.length) :
    ds ++ xs < es ++ ys ↔
      digitsValue ds < digitsValue es ∨ digitsValue ds = digitsValue es ∧ xs < ys := by
  induction ds generalizing es with
  | nil =>
    obtain rfl := List.eq_nil_of_length_eq_zero hlength.symm
    simp
  | cons d ds ih =>
    obtain ⟨e, es, rfl⟩ := List.exists_cons_of_length_eq_add_one hlength.symm
    have hds' : ∀ c ∈ ds, c.isDigit = true := fun c hc => hds c (List.mem_cons_of_mem _ hc)
    have hes' : ∀ c ∈ es, c.isDigit = true := fun c hc => hes c (List.mem_cons_of_mem _ hc)
    have hlength' : ds.length = es.length := Nat.succ.inj hlength
    have hdlt : digitsValue ds < 10 ^ es.length := hlength' ▸ digitsValue_lt hds'
    have helt : digitsValue es < 10 ^ es.length := digitsValue_lt hes'
    rw [List.cons_append, List.cons_append, List.cons_lt_cons_iff, ih hds' hes' hlength',
      digitsValue_cons, digitsValue_cons, hlength']
    -- a difference of one in front outweighs all that is behind
    have hfront {m n : Nat} (h : m < n) :
        m * 10 ^ es.length + 10 ^ es.length ≤ n * 10 ^ es.length := by
      rw [← Nat.succ_mul]
      exact Nat.mul_le_mul_right _ h
    obtain ⟨hlt, h⟩ | rfl | ⟨hlt, h⟩ := lt_or_eq_or_gt_of_isDigit
      (hds d List.mem_cons_self) (hes e List.mem_cons_self)
    · have := hfront h
      exact iff_of_true (.inl hlt) (.inl (by omega))
    · simp
    · have := hfront h
      refine iff_of_false ?_ (by omega)
      rintro (hgt | ⟨rfl, -⟩)
      · exact Char.lt_irrefl _ (Char.lt_trans hlt hgt)
      · exact Char.lt_irrefl _ hlt

end MetricBoard.Decimal
