import MetricBoard.Connection.Row

/-!
# Which cell a result is read from

`StandsFor` is the rule for the number of a result: the first row counts, a column named `value`
goes before the order of the columns, and what is no finite number is zero. `scalar` keeps the rule
with one exception (`scalar_of_first_row`): where the row ends before the column named `value`, the
row's first cell is read in place of the cell that is missing.
-/

namespace MetricBoard

open Expression

/-- What a place of a row is read as: the finite number of its cell, and zero if there is no cell,
if the cell has no number, or if its number is not finite. -/
inductive ReadAs : Option Cell → Binary64 → Prop
  | finite {c : Cell} {x : Binary64} : c.number? = some x → x.isFinite = true → ReadAs (some c) x
  | missing : ReadAs none .zero
  | noNumber {c : Cell} : c.number? = none → ReadAs (some c) .zero
  | infinite {c : Cell} {x : Binary64} :
    c.number? = some x → x.isFinite = false → ReadAs (some c) .zero

theorem Cell.toFinite?_of_number? {c : Cell} {x : Binary64} (h : c.number? = some x) :
    c.toFinite? = if x.isFinite then some x else none := by
  rw [Cell.toFinite?, h, Option.filter_some]

theorem Cell.toFinite?_eq_none {c : Cell} (h : c.number? = none) : c.toFinite? = none := by
  rw [Cell.toFinite?, h, Option.filter_none]

theorem readAs_getD (o : Option Cell) : ReadAs o ((o.bind Cell.toFinite?).getD .zero) := by
  cases o with
  | none => exact .missing
  | some c =>
    rw [Option.bind_some]
    cases hn : c.number? with
    | none =>
      rw [Cell.toFinite?_eq_none hn]
      exact .noNumber hn
    | some x =>
      rw [Cell.toFinite?_of_number? hn]
      split
      · rename_i hf
        exact .finite hn hf
      · rename_i hf
        exact .infinite hn (by simpa using hf)

/-- A place of a row is read as one number. -/
theorem readAs_iff {o : Option Cell} {x : Binary64} :
    ReadAs o x ↔ x = (o.bind Cell.toFinite?).getD .zero := by
  refine ⟨fun h => ?_, fun h => h ▸ readAs_getD o⟩
  cases h with
  | finite hn hf => rw [Option.bind_some, Cell.toFinite?_of_number? hn, if_pos hf, Option.getD_some]
  | missing => rfl
  | noNumber hn => rw [Option.bind_some, Cell.toFinite?_eq_none hn, Option.getD_none]
  | infinite hn hf =>
    rw [Option.bind_some, Cell.toFinite?_of_number? hn, if_neg (by simp [hf]), Option.getD_none]

/-- The place of the first column named `value`, in any case of its letters. -/
def Row.named? (r : Row) : Option Nat :=
  r.columns.findIdx? fun name => Text.sameWord name resultColumn

/-- The number that a result stands for, going by the names of its columns. -/
structure StandsFor (rows : List Row) (x : Binary64) : Prop where
  empty : rows.head? = none → x = .zero
  named {r : Row} {k : Nat} : rows.head? = some r → r.named? = some k → ReadAs r.cells[k]? x
  first {r : Row} : rows.head? = some r → r.named? = none → ReadAs r.cells.head? x

/-- The cell of the column named `value` is read if there is one, and else the first cell. -/
theorem readAs_scalar (r : Row) (rows : List Row) :
    ReadAs ((r.named?.bind fun k => r.cells[k]?).or r.cells.head?) (scalar (r :: rows)) :=
  readAs_iff.2 rfl

/-- **The number of a result**: it depends on the first row only. It is what the rule asks for unless
that row has no cell for its column named `value` and a first cell that is not read as zero; for
such a row the first cell is read. -/
theorem scalar_of_first_row (rows : List Row) :
    (∀ rows', rows'.head? = rows.head? → scalar rows' = scalar rows) ∧
    (∀ r k, rows.head? = some r → r.named? = some k → r.cells[k]? = none →
      ReadAs r.cells.head? (scalar rows)) ∧
    (StandsFor rows (scalar rows) ↔
      ∀ r k, rows.head? = some r → r.named? = some k → r.cells[k]? = none →
        ReadAs r.cells.head? .zero) := by
  have hcongr : ∀ rows', rows'.head? = rows.head? → scalar rows' = scalar rows := by
    intro rows' h
    rw [scalar, scalar, h]
  cases rows with
  | nil => exact ⟨hcongr, by simp, by simp, fun _ => ⟨fun _ => rfl, by simp, by simp⟩⟩
  | cons r rows =>
    have hread := readAs_scalar r rows
    have hfirst : ∀ k, r.named? = some k → r.cells[k]? = none →
        ReadAs r.cells.head? (scalar (r :: rows)) := by
      intro k hk hc
      simpa [hk, hc] using hread
    refine ⟨hcongr, ?_, fun h => ?_, fun h => ?_⟩
    · rintro _ k ⟨⟩ hk hc
      exact hfirst k hk hc
    · rintro _ k ⟨⟩ hk hc
      have hzero : scalar (r :: rows) = .zero := by
        have hmissing := h.named rfl hk
        rw [hc] at hmissing
        exact readAs_iff.1 hmissing
      exact hzero ▸ hfirst k hk hc
    · refine ⟨by simp, ?_, ?_⟩
      · rintro _ k ⟨⟩ hk
        cases hc : r.cells[k]? with
        | some c => simpa [hk, hc] using hread
        | none =>
          have hzero : scalar (r :: rows) = .zero :=
            (readAs_iff.1 (hfirst k hk hc)).trans (readAs_iff.1 (h r k rfl hk hc)).symm
          rw [hzero]
          exact .missing
      · rintro _ ⟨⟩ hk
        simpa [hk] using hread

/-- A row of one cell whose second column is named `value` is read as its first cell. -/
theorem not_standsFor_scalar_short :
    ¬StandsFor [⟨["a", "value"], [.int 7]⟩] (scalar [⟨["a", "value"], [.int 7]⟩]) := by
  intro h
  have hread := readAs_iff.1 (h.named (k := 1) rfl (by decide +kernel))
  revert hread
  decide +kernel

end MetricBoard
