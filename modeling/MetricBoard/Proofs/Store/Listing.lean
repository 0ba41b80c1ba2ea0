import Mathlib.Data.List.Forall2
import Mathlib.Data.List.Nodup
import MetricBoard.Proofs.Moment.ReadBack
import MetricBoard.Proofs.Store.Rows

/-!
# The definitions as a list

To its callers the store is a list of definitions. Saving replaces the one with the same id in its
place or adds one at the end, a new catalog is the whole list, and recording a refresh applies it
to one definition (`Edit.onList`). The store numbers its rows instead, in two ways: what is saved
goes behind all others, and a new catalog is numbered anew. Sorted by their numbers the rows are
always those of the list (`Keeps`), and so any number of edits of a fresh store answers and leaves
what it does on the list (`edits_refine`).
-/

namespace MetricBoard

/-- The definition as it is read back: its value is finite and zero has no sign, and its time is
cut to microseconds. -/
def Definition.stored (d : Definition) : Definition :=
  { d with
    lastValue := Store.storedValue d.lastValue
    lastUpdated := d.lastUpdated.map Moment.stored }

namespace Store

/-! ## The list -/

/-- The definition in a new catalog: what the last refresh wrote stays with its id, and a newcomer
has zero, no error and no time. -/
def heir (old : List Definition) (d : Definition) : Definition :=
  match old.find? (·.id == d.id) with
  | some o =>
    { d with
      lastValue := o.lastValue
      lastError := o.lastError
      lastUpdated := o.lastUpdated }
  | none => { d with lastValue := .zero, lastError := none, lastUpdated := none }

/-- An edit of a list of definitions, and what it answers. A catalog in which an id is repeated and
a refresh of an id that is not there change nothing. -/
def Edit.onList (ds : List Definition) : Edit → Except AppError Answer × List Definition
  | save d =>
    (.ok .saved,
      if ∃ o ∈ ds, o.id = d.id then ds.map fun o => if o.id = d.id then d else o else ds ++ [d])
  | replaceCatalog new =>
    match repeated? [] new with
    | some id => (.error (.duplicateId id), ds)
    | none =>
      (.ok (.replaced
        { inserted := new.countP (·.id ∉ ds.map Definition.id)
          updated := new.countP (·.id ∈ ds.map Definition.id)
          removed := ds.countP (·.id ∉ new.map Definition.id) }),
        new.map (heir ds))
  | recordRefresh id w =>
    if ∃ d ∈ ds, d.id = id then
      (.ok (.recorded ⟨id, w.value.finiteOrZero, w.error, w.at_⟩),
        ds.map fun d => if d.id = id then d.apply w else d)
    else (.error (.unknownMetric id), ds)

/-- The answers to some edits, one after the other, and what they leave. -/
def answers {σ : Type} (step : Edit → σ → Except AppError Answer × σ) :
    List Edit → σ → List (Except AppError Answer) × σ
  | [], s => ([], s)
  | e :: es, s =>
    let (a, s') := step e s
    let (as, s'') := answers step es s'
    (a :: as, s'')

/-- The years of the moments that an edit writes have four digits. -/
def Edit.HasPlainYears : Edit → Prop
  | save d => ∀ m, d.lastUpdated = some m → m.HasPlainYear
  | replaceCatalog _ => True
  | recordRefresh _ w => w.at_.HasPlainYear

/-! ## Rows that keep a list -/

/-- A row keeps a definition, under some ordinal. -/
def DefinitionRow.Holds (r : DefinitionRow) (d : Definition) : Prop :=
  r = .ofDefinition r.ordinal d

/-- Rows keep a list of definitions: sorted by their ordinals, they are its rows. -/
def Keeps (rows : List DefinitionRow) (ds : List Definition) : Prop :=
  ∃ sorted : List DefinitionRow, rows.Perm sorted ∧ sorted.Pairwise (·.ordinal < ·.ordinal) ∧
    List.Forall₂ DefinitionRow.Holds sorted ds

section

variable {r : DefinitionRow} {d : Definition} {rows sorted : List DefinitionRow}
  {ds : List Definition}

theorem DefinitionRow.Holds.id_eq (h : r.Holds d) : r.id = d.id := by
  rw [h]
  rfl

theorem idsOf_eq (h : List.Forall₂ DefinitionRow.Holds sorted ds) :
    idsOf sorted = ds.map Definition.id := by
  induction h with
  | nil => rfl
  | cons hr _ ih => rw [idsOf, List.map_cons, List.map_cons, hr.id_eq, ← ih]

theorem Keeps.idsOf_perm (h : Keeps rows ds) : (idsOf rows).Perm (ds.map Definition.id) := by
  obtain ⟨sorted, hperm, -, hholds⟩ := h
  exact idsOf_eq hholds ▸ hperm.map _

theorem Keeps.map {f : DefinitionRow → DefinitionRow} {g : Definition → Definition}
    (h : Keeps rows ds) (hordinal : ∀ r, (f r).ordinal = r.ordinal)
    (hholds : ∀ r d, r.Holds d → (f r).Holds (g d)) : Keeps (rows.map f) (ds.map g) := by
  obtain ⟨sorted, hperm, hsorted, hkept⟩ := h
  refine ⟨sorted.map f, hperm.map f, ?_, ?_⟩
  · rw [List.pairwise_map]
    exact hsorted.imp fun hlt => by rwa [hordinal, hordinal]
  · rw [List.forall₂_map_left_iff, List.forall₂_map_right_iff]
    exact hkept.imp hholds

/-- A change of the row of an id is a change of its definition. -/
theorem Keeps.update {f : DefinitionRow → DefinitionRow} {g : Definition → Definition}
    (h : Keeps rows ds) (x : String) (hordinal : ∀ r, (f r).ordinal = r.ordinal)
    (hholds : ∀ r d, r.Holds d → (f r).Holds (g d)) :
    Keeps (rows.map fun r => if r.id == x then f r else r)
      (ds.map fun d => if d.id = x then g d else d) := by
  refine h.map (fun r => ?_) fun r d hr => ?_
  · split
    · exact hordinal r
    · rfl
  · have hid : (r.id == x) = true ↔ d.id = x := by rw [hr.id_eq, beq_iff_eq]
    by_cases hx : d.id = x
    · rw [if_pos hx, if_pos (hid.2 hx)]
      exact hholds r d hr
    · rw [if_neg hx, if_neg (hx ∘ hid.1)]
      exact hr

theorem Keeps.append {n : Int} (h : Keeps rows ds) (hn : ∀ r ∈ rows, r.ordinal < n)
    (d : Definition) : Keeps (rows ++ [.ofDefinition n d]) (ds ++ [d]) := by
  obtain ⟨sorted, hperm, hsorted, hkept⟩ := h
  refine ⟨sorted ++ [.ofDefinition n d], hperm.append_right _, ?_, ?_⟩
  · refine List.pairwise_append.2 ⟨hsorted, List.pairwise_singleton _ _, fun r hr r' hr' => ?_⟩
    rw [List.mem_singleton.1 hr']
    exact hn r (hperm.mem_iff.2 hr)
  · exact List.rel_append hkept (.cons rfl .nil)

end

theorem lt_nextOrdinal {rows : List DefinitionRow} {r : DefinitionRow} (h : r ∈ rows) :
    r.ordinal < nextOrdinal rows := by
  have hfold : ∀ (rows : List DefinitionRow) (n : Int),
      n ≤ rows.foldl (fun n r => max n (r.ordinal + 1)) n ∧
        ∀ r ∈ rows, r.ordinal < rows.foldl (fun n r => max n (r.ordinal + 1)) n := by
    intro rows
    induction rows with
    | nil => exact fun n => ⟨Int.le_refl n, by simp⟩
    | cons s rows ih =>
      intro n
      obtain ⟨hle, hlt⟩ := ih (max n (s.ordinal + 1))
      refine ⟨Int.le_trans (Int.le_max_left _ _) hle, fun r hr => ?_⟩
      rcases List.mem_cons.1 hr with rfl | hr
      · exact Int.lt_of_add_one_le (Int.le_trans (Int.le_max_right _ _) hle)
      · exact hlt r hr
  exact (hfold rows _).2 r h

/-! ## Reading the list -/

theorem le_trans' (r s t : DefinitionRow) (h : r.le s = true) (h' : s.le t = true) :
    r.le t = true := by
  simp only [DefinitionRow.le, Bool.or_eq_true, decide_eq_true_eq, Bool.and_eq_true,
    beq_iff_eq] at *
  rcases h with h | ⟨h, hid⟩ <;> rcases h' with h' | ⟨h', hid'⟩
  · exact .inl (Int.lt_trans h h')
  · exact .inl (h' ▸ h)
  · exact .inl (h ▸ h')
  · exact .inr ⟨h.trans h', String.le_trans hid hid'⟩

theorem le_total' (r s : DefinitionRow) : (r.le s || s.le r) = true := by
  simp only [DefinitionRow.le, Bool.or_eq_true, decide_eq_true_eq, Bool.and_eq_true, beq_iff_eq]
  rcases Int.lt_trichotomy r.ordinal s.ordinal with h | h | h
  · exact .inl (.inl h)
  · rcases String.le_total r.id s.id with hid | hid
    · exact .inl (.inr ⟨h, hid⟩)
    · exact .inr (.inr ⟨h.symm, hid⟩)
  · exact .inr (.inl h)

theorem listed_eq {rows sorted : List DefinitionRow} (hperm : rows.Perm sorted)
    (hsorted : sorted.Pairwise (·.ordinal < ·.ordinal)) : listed rows = sorted := by
  have hle : sorted.Pairwise fun r s => r.le s = true := by
    refine hsorted.imp fun hlt => ?_
    simp [DefinitionRow.le, hlt]
  have hordinals : (sorted.map DefinitionRow.ordinal).Nodup :=
    List.pairwise_map.2 (hsorted.imp Int.ne_of_lt)
  have hlisted : (listed rows).Perm sorted := (List.mergeSort_perm _ _).trans hperm
  refine hlisted.eq_of_pairwise (fun r s hr hs hrs hsr => ?_)
    (List.pairwise_mergeSort le_trans' le_total' rows) hle
  refine List.inj_on_of_nodup_map hordinals (hlisted.mem_iff.1 hr) hs ?_
  simp only [DefinitionRow.le, Bool.or_eq_true, decide_eq_true_eq, Bool.and_eq_true,
    beq_iff_eq] at hrs hsr
  omega

theorem code_ofWord? (t : Target) : Target.ofWord? t.code = some t := by
  have h : Text.upper (Text.trim t.code) = t.code := Text.upper_eq (by cases t <;> rfl)
  rw [Target.ofWord?, h]
  cases t <;> rfl

theorem definition_ofDefinition (n : Int) {d : Definition}
    (h : ∀ m, d.lastUpdated = some m → m.HasPlainYear) :
    (DefinitionRow.ofDefinition n d).definition = .ok d.stored := by
  obtain ⟨id, groupName, label, target, tableHint, expression, value, error, updated⟩ := d
  cases updated with
  | none =>
    simp only [DefinitionRow.definition, DefinitionRow.ofDefinition, code_ofWord?]
    rfl
  | some m =>
    simp only [DefinitionRow.definition, DefinitionRow.ofDefinition, code_ofWord?, Option.map_some,
      momentOf, Moment.ofStrict?_microText (h m rfl)]
    rfl

/-- The years of the moments of a list have four digits. -/
def PlainYears (ds : List Definition) : Prop :=
  ∀ d ∈ ds, ∀ m, d.lastUpdated = some m → m.HasPlainYear

theorem mapM_definition {sorted : List DefinitionRow} {ds : List Definition}
    (h : List.Forall₂ DefinitionRow.Holds sorted ds) (hplain : PlainYears ds) :
    sorted.mapM DefinitionRow.definition = .ok (ds.map Definition.stored) := by
  induction h with
  | nil => rfl
  | @cons r d sorted ds hr _ ih =>
    have hread : r.definition = .ok d.stored :=
      hr ▸ definition_ofDefinition _ (hplain d List.mem_cons_self)
    rw [List.mapM_cons, hread, ih fun d' hd' => hplain d' (List.mem_cons_of_mem _ hd')]
    rfl

theorem definitions_run {c : Content} {ds : List Definition} (h : Keeps c.rows ds)
    (hplain : PlainYears ds) :
    definitions.run c.tables = (.ok (ds.map Definition.stored), c.tables) := by
  obtain ⟨sorted, hperm, hsorted, hkept⟩ := h
  have hread : (DefinitionTable.withHints ⟨true, c.rows⟩ >>= fun rows =>
      (listed rows).mapM DefinitionRow.definition) = .ok (ds.map Definition.stored) := by
    change (listed c.rows).mapM DefinitionRow.definition = _
    rw [listed_eq hperm hsorted, mapM_definition hkept hplain]
  have hsession : definitions c.session = (.ok (ds.map Definition.stored), c.session) := by
    rw [definitions, readDefinitions_session, hread]
  have hrun : definitions.run c.tables =
      ((definitions c.session).1, (definitions c.session).2.tables) := rfl
  rw [hrun, hsession]
  rfl

/-! ## Edits -/

section

variable {c : Content} {ds : List Definition}

theorem Keeps.mem_iff (h : Keeps c.rows ds) {x : String} :
    x ∈ idsOf c.rows ↔ ∃ d ∈ ds, d.id = x := by
  rw [h.idsOf_perm.mem_iff, List.mem_map]

theorem Keeps.save (h : Keeps c.rows ds) (d : Definition) :
    Keeps (c.save d).rows
      (if ∃ o ∈ ds, o.id = d.id then ds.map fun o => if o.id = d.id then d else o
        else ds ++ [d]) := by
  by_cases hid : ∃ o ∈ ds, o.id = d.id
  · have hsaved : (c.save d).rows = c.rows.map fun r =>
        if r.id == d.id then .ofDefinition r.ordinal d else r :=
      upsert_of_mem (h.mem_iff.2 hid)
    rw [if_pos hid, hsaved]
    exact h.update d.id (fun _ => rfl) fun _ _ _ => rfl
  · have hsaved : (c.save d).rows = c.rows ++ [.ofDefinition (nextOrdinal c.rows) d] :=
      upsert_of_not_mem fun hmem => hid (h.mem_iff.1 hmem)
    rw [if_neg hid, hsaved]
    exact h.append (fun _ => lt_nextOrdinal) d

theorem Keeps.record (h : Keeps c.rows ds) (id : String) (w : Write) :
    Keeps (c.record id w).rows (ds.map fun d => if d.id = id then d.apply w else d) :=
  h.update id (fun _ => rfl) fun r d hr => by
    rw [DefinitionRow.Holds] at hr
    rw [hr]
    rfl

end

section

variable {c : Content} {ds : List Definition}

theorem rowOf?_holds {sorted : List DefinitionRow} (h : List.Forall₂ DefinitionRow.Holds sorted ds)
    (x : String) :
    rowOf? sorted x = none ∧ ds.find? (·.id == x) = none ∨
      ∃ r o, rowOf? sorted x = some r ∧ ds.find? (·.id == x) = some o ∧ r.Holds o := by
  induction h with
  | nil => exact .inl ⟨rfl, rfl⟩
  | @cons r d sorted ds hr _ ih =>
    by_cases hid : d.id = x
    · subst hid
      exact .inr ⟨r, d, hr.id_eq ▸ rowOf?_cons_self, List.find?_cons_of_pos (by simp), hr⟩
    · rwa [rowOf?_cons_of_ne (hr.id_eq ▸ hid), List.find?_cons_of_neg (by simpa using hid)]

theorem storedValue_zero : storedValue .zero = .zero := by decide

theorem heirRows_forall₂ {α : Type} {f : Definition → α} {R : DefinitionRow → α → Prop}
    {rows : List DefinitionRow} (h : ∀ n d, R (heirRow rows n d) (f d)) (n : Nat) (ds : List Definition) :
    List.Forall₂ R (heirRows rows n ds) (ds.map f) := by
  induction ds generalizing n with
  | nil => exact .nil
  | cons d ds ih => exact .cons (h n d) (ih (n + 1))

theorem heirRow_holds (h : Keeps c.rows ds) (hnodup : (ds.map Definition.id).Nodup) (n : Int)
    (d : Definition) : (heirRow c.rows n d).Holds (heir ds d) := by
  have hrows : (idsOf c.rows).Nodup := h.idsOf_perm.nodup_iff.2 hnodup
  obtain ⟨sorted, hperm, -, hkept⟩ := h
  unfold heirRow heir
  rw [rowOf?_eq_of_perm hperm hrows]
  rcases rowOf?_holds hkept d.id with ⟨hrow, hfind⟩ | ⟨r, o, hrow, hfind, hr⟩
  · rw [hrow, hfind]
    simp only [DefinitionRow.Holds, DefinitionRow.ofDefinition, storedValue_zero]
    rfl
  · rw [hrow, hfind, hr]
    rfl

theorem Keeps.replace (h : Keeps c.rows ds) (hnodup : (ds.map Definition.id).Nodup)
    {new : List Definition} (hnew : (new.map Definition.id).Nodup) :
    Keeps (c.replace new).rows (new.map (heir ds)) :=
  ⟨_, Content.replace_rows_perm (h.idsOf_perm.nodup_iff.2 hnodup) hnew,
    (heirRows_sorted c.rows 0 new).1, heirRows_forall₂ (heirRow_holds h hnodup) 0 new⟩

theorem Keeps.change_eq (h : Keeps c.rows ds) (new : List Definition) :
    c.change new =
      { inserted := new.countP (·.id ∉ ds.map Definition.id)
        updated := new.countP (·.id ∈ ds.map Definition.id)
        removed := ds.countP (·.id ∉ new.map Definition.id) } := by
  have hupdated : (new.map Definition.id).countP (c.rows.map DefinitionRow.id).contains =
      new.countP (·.id ∈ ds.map Definition.id) := by
    rw [List.countP_map]
    refine List.countP_congr fun d _ => ?_
    simp only [Function.comp_apply, List.contains_iff_mem, decide_eq_true_eq]
    exact h.idsOf_perm.mem_iff
  have hinserted : new.length = new.countP (·.id ∈ ds.map Definition.id) +
      new.countP (·.id ∉ ds.map Definition.id) := by
    rw [List.length_eq_countP_add_countP (p := fun d => decide (d.id ∈ ds.map Definition.id))]
    simp
  have hremoved : (gone new c.rows).length = ds.countP (·.id ∉ new.map Definition.id) := by
    rw [gone, ← List.countP_eq_length_filter, h.idsOf_perm.countP_eq, List.countP_map]
    refine List.countP_congr fun d _ => ?_
    simp
  rw [Content.change, hupdated, hremoved, hinserted, Nat.add_sub_cancel_left]

/-- An edit of the rows is the edit of the list that they keep. -/
theorem Edit.on_keeps (h : Keeps c.rows ds) (hnodup : (ds.map Definition.id).Nodup) (e : Edit) :
    (e.on c).1 = (e.onList ds).1 ∧ Keeps (e.on c).2.rows (e.onList ds).2 := by
  cases e with
  | save d => exact ⟨rfl, h.save d⟩
  | replaceCatalog new =>
    simp only [Edit.on, onList]
    cases hrepeated : repeated? [] new with
    | some id => exact ⟨rfl, h⟩
    | none =>
      exact ⟨by rw [h.change_eq], h.replace hnodup (repeated?_eq_none_iff.1 hrepeated).1⟩
  | recordRefresh id w =>
    have hhas : c.has id = true ↔ ∃ d ∈ ds, d.id = id := any_id_eq_true.trans h.mem_iff
    simp only [Edit.on, onList]
    by_cases hid : ∃ d ∈ ds, d.id = id
    · rw [if_pos hid, if_pos (hhas.2 hid)]
      exact ⟨rfl, h.record id w⟩
    · rw [if_neg hid, if_neg (hid ∘ hhas.1)]
      exact ⟨rfl, h⟩

theorem Edit.onList_plainYears (h : PlainYears ds) {e : Edit} (he : e.HasPlainYears) :
    PlainYears (e.onList ds).2 := by
  intro d hd m hm
  cases e with
  | save d' =>
    simp only [onList] at hd
    split at hd
    · obtain ⟨o, ho, rfl⟩ := List.mem_map.1 hd
      split at hm
      · exact he m hm
      · exact h o ho m hm
    · rcases List.mem_append.1 hd with hd | hd
      · exact h d hd m hm
      · exact he m (List.mem_singleton.1 hd ▸ hm)
  | replaceCatalog new =>
    simp only [onList] at hd
    split at hd
    · exact h d hd m hm
    · obtain ⟨d', hd', rfl⟩ := List.mem_map.1 hd
      unfold heir at hm
      split at hm
      · rename_i o hfind
        exact h o (List.mem_of_find?_eq_some hfind) m hm
      · cases hm
  | recordRefresh id w =>
    simp only [onList] at hd
    split at hd
    · obtain ⟨o, ho, rfl⟩ := List.mem_map.1 hd
      split at hm
      · exact Option.some.inj hm ▸ he
      · exact h o ho m hm
    · exact h d hd m hm

end

/-- Tables that keep a list: no id is in two rows, and its moments can be read back. -/
def Tables.KeepsList (t : Tables) (ds : List Definition) : Prop :=
  ∃ c : Content, t = c.tables ∧ Keeps c.rows ds ∧ (idsOf c.rows).Nodup ∧ PlainYears ds

theorem Tables.fresh_keepsList : fresh.KeepsList [] :=
  ⟨.empty, Content.tables_empty.symm, ⟨[], .nil, .nil, .nil⟩, List.nodup_nil,
    fun _ h => absurd h List.not_mem_nil⟩

/-- An edit of tables that keep a list is answered as on the list, and keeps what it leaves. -/
theorem Edit.work_run_keepsList {t : Tables} {ds : List Definition} (h : t.KeepsList ds) {e : Edit}
    (he : e.HasPlainYears) :
    (e.work.run t).1 = (e.onList ds).1 ∧ (e.work.run t).2.KeepsList (e.onList ds).2 := by
  obtain ⟨c, rfl, hkeeps, hnodup, hplain⟩ := h
  obtain ⟨hanswer, hkept⟩ := e.on_keeps hkeeps (hkeeps.idsOf_perm.nodup_iff.1 hnodup)
  have hrun : e.work.run c.tables = ((e.on c).1, (e.on c).2.tables) :=
    (Change.edit e).work_run_tables c
  rw [hrun]
  exact ⟨hanswer, _, rfl, hkept, e.on_nodup hnodup, onList_plainYears hplain he⟩

theorem answers_keepsList {es : List Edit} (h : ∀ e ∈ es, e.HasPlainYears) {t : Tables}
    {ds : List Definition} (hkeeps : t.KeepsList ds) :
    (answers (fun e t => e.work.run t) es t).1 = (answers (fun e ds => e.onList ds) es ds).1 ∧
      (answers (fun e t => e.work.run t) es t).2.KeepsList
        (answers (fun e ds => e.onList ds) es ds).2 := by
  induction es generalizing t ds with
  | nil => exact ⟨rfl, hkeeps⟩
  | cons e es ih =>
    obtain ⟨hanswer, hkept⟩ := Edit.work_run_keepsList hkeeps (h e List.mem_cons_self)
    obtain ⟨hanswers, hkept⟩ := ih (fun e' he' => h e' (List.mem_cons_of_mem _ he')) hkept
    exact ⟨congrArg₂ _ hanswer hanswers, hkept⟩

/-- **The store is an ordered list.** Whatever edits are made of a fresh store, with moments whose
years have four digits, they are answered as on the list, and the definitions are listed as the
list has them: values that are not finite as zero, times cut to microseconds. -/
theorem edits_refine (es : List Edit) (h : ∀ e ∈ es, e.HasPlainYears) :
    let store := answers (fun e t => e.work.run t) es Tables.fresh
    let list := answers (fun e ds => e.onList ds) es []
    store.1 = list.1 ∧
      definitions.run store.2 = (.ok (list.2.map Definition.stored), store.2) := by
  intro store list
  obtain ⟨hanswers, c, htables, hkeeps, -, hplain⟩ := answers_keepsList h Tables.fresh_keepsList
  refine ⟨hanswers, ?_⟩
  change definitions.run (answers _ es Tables.fresh).2 = _
  rw [htables]
  exact definitions_run hkeeps hplain

/-- A metric is saved and refreshed with an infinity, and a new catalog puts another one first. -/
def newFirst (at_ : Moment) : List Edit :=
  [.save orders, .recordRefresh "orders" ⟨.infinity false, some "late", at_⟩,
    .replaceCatalog
      [{ orders with id := "sales", lastValue := .one }, { orders with label := "n" }]]

/-- The survivor keeps what its refresh wrote, behind a newcomer that keeps nothing. -/
theorem edits_refine_newFirst :
    (∀ e ∈ newFirst ⟨0, 7, 1234567⟩, e.HasPlainYears) ∧
      (answers (fun e t => e.work.run t) (newFirst ⟨0, 7, 1234567⟩) Tables.fresh).1 =
        [.ok .saved, .ok (.recorded ⟨"orders", .zero, some "late", ⟨0, 7, 1234567⟩⟩),
          .ok (.replaced ⟨1, 1, 0⟩)] ∧
      (definitions.run
          (answers (fun e t => e.work.run t) (newFirst ⟨0, 7, 1234567⟩) Tables.fresh).2).1 =
        .ok [{ orders with id := "sales" },
          { orders with
            label := "n"
            lastError := some "late"
            lastUpdated := some ⟨0, 7, 1234000⟩ }] := by
  have hplain : ∀ e ∈ newFirst ⟨0, 7, 1234567⟩, e.HasPlainYears := by
    rw [newFirst, List.forall_mem_cons, List.forall_mem_cons, List.forall_mem_cons]
    exact ⟨fun _ h => (by cases h), ⟨by decide, by decide⟩, trivial,
      fun _ h => absurd h List.not_mem_nil⟩
  obtain ⟨hanswers, hlist⟩ := edits_refine (newFirst ⟨0, 7, 1234567⟩) hplain
  refine ⟨hplain, hanswers.trans rfl, ?_⟩
  rw [hlist]
  rfl

end Store

end MetricBoard
