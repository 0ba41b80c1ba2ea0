import MetricBoard.Proofs.Json.Range
import MetricBoard.Proofs.Metric.RoundTrip
import MetricBoard.Proofs.Store.Consistency
import MetricBoard.Proofs.Store.Listing

/-!
# What was stored is read back

The store keeps targets, times and reports as texts and parses them on the way out, and a single
row that cannot be parsed makes a whole list fail. Of the texts that the calls write, targets and
reports can always be parsed, and a time exactly if its year has four digits. So after any calls
the definitions and the history can be read just where all their times are in such years, and the
last report always (`readable_iff`). Nothing keeps other years out: they are written, and a list
with one of them is lost (`not_readable_far_future`).
-/

namespace MetricBoard

/-! ## Reports -/

theorem Outcome.exists_mapM_reread? {os : List Outcome} (h : ∀ o ∈ os, o.IsValid) :
    ∃ os', os.mapM reread? = some os' := by
  induction os with
  | nil => exact ⟨[], rfl⟩
  | cons o os ih =>
    rw [List.forall_mem_cons] at h
    obtain ⟨v, hv⟩ := Numeral.exists_toBinary64?_ofBinary64 h.1.finite
    obtain ⟨os', hos'⟩ := ih h.2
    have ho : o.reread? = some { o with value := v } := by
      rw [reread?, Binary64.reread?, hv]
      rfl
    exact ⟨{ o with value := v } :: os', by rw [List.mapM_cons, ho, hos']; rfl⟩

/-- A valid report is read back as some report, though its values may be others. -/
theorem Report.exists_ofText?_toText {r : Report} (h : r.IsValid) :
    ∃ r', ofText? r.toText = some r' := by
  obtain ⟨os, hos⟩ := Outcome.exists_mapM_reread? h.outcomes
  rw [ofText?_toText h, reread?, hos]
  exact ⟨_, rfl⟩

namespace Store

/-! ## Rows that were written -/

/-- A text tells one of some moments. -/
def Tells (p : Moment → Prop) (raw : String) : Prop := ∃ m, p m ∧ raw = m.microText

/-- A row as the calls write it: its target is a server's code, its time one of some moments. -/
structure DefinitionRow.IsWritten (p : Moment → Prop) (r : DefinitionRow) : Prop where
  target : ∃ t : Target, r.target = t.code
  lastUpdated : ∀ raw ∈ r.lastUpdated, Tells p raw

/-- What the calls that wrote some content leave in it. -/
structure Content.IsWritten (p : Moment → Prop) (c : Content) : Prop where
  rows : ∀ r ∈ c.rows, r.IsWritten p
  history : ∀ s ∈ c.history, Tells p s.recordedAt
  reports : ∀ row ∈ c.reports, ∃ r : Report, r.IsValid ∧ row.json = r.toText

/-- The moments that a call writes into the definitions or the history. -/
def Change.Writes : Change → Moment → Prop
  | .edit (.save d), m => d.lastUpdated = some m
  | .edit (.recordRefresh _ w), m => w.at_ = m
  | .edit (.replaceCatalog _), _ | .prune _, _ | .saveReport _, _ => False

section

variable {p q : Moment → Prop} {c : Content}

theorem Tells.mono (h : ∀ m, p m → q m) {raw : String} (hraw : Tells p raw) : Tells q raw := by
  obtain ⟨m, hm, rfl⟩ := hraw
  exact ⟨m, h m hm, rfl⟩

theorem Content.IsWritten.mono (h : ∀ m, p m → q m) (hc : c.IsWritten p) : c.IsWritten q where
  rows r hr := ⟨(hc.rows r hr).target, fun raw hraw => ((hc.rows r hr).lastUpdated raw hraw).mono h⟩
  history s hs := (hc.history s hs).mono h
  reports := hc.reports

theorem isWritten_placedRow {rows : List DefinitionRow} (h : ∀ r ∈ rows, r.IsWritten p) (n : Int)
    (d : Definition) : ∀ r ∈ placedRow n d rows, r.IsWritten p := by
  intro r hr
  obtain hr | rfl | ⟨s, hs, rfl⟩ := mem_upsert hr
  · exact h r hr
  · exact ⟨⟨d.target, rfl⟩, fun _ hraw => nomatch hraw⟩
  · exact ⟨⟨d.target, rfl⟩, (h s hs).lastUpdated⟩

theorem isWritten_placedRows {rows : List DefinitionRow} (h : ∀ r ∈ rows, r.IsWritten p) (n : Nat)
    (ds : List Definition) : ∀ r ∈ placedRows n ds rows, r.IsWritten p := by
  induction ds generalizing n rows with
  | nil => exact h
  | cons d ds ih => exact ih (isWritten_placedRow h n d) (n + 1)

/-- A call leaves what was written, and adds no other moments than its own. -/
theorem Content.IsWritten.on (h : c.IsWritten p) (x : Change) (hx : ∀ m, x.Writes m → p m)
    (hreport : ∀ r, x = .saveReport r → r.IsValid) : (x.on c).2.IsWritten p := by
  cases x with
  | edit e =>
    cases e with
    | save d =>
      refine ⟨fun r hr => ?_, h.history, h.reports⟩
      have hrow : ∀ n, (DefinitionRow.ofDefinition n d).IsWritten p := fun n =>
        ⟨⟨d.target, rfl⟩, fun raw hraw => by
          obtain ⟨m, hm, rfl⟩ := Option.map_eq_some_iff.1 hraw
          exact ⟨m, hx m hm, rfl⟩⟩
      obtain hr | rfl | ⟨s, -, rfl⟩ := mem_upsert hr
      · exact h.rows r hr
      · exact hrow _
      · exact hrow _
    | replaceCatalog ds =>
      simp only [Change.on, Edit.on]
      split
      · exact h
      · exact ⟨fun r hr => isWritten_placedRows h.rows 0 ds r (List.mem_filter.1 hr).1,
          fun s hs => h.history s (List.mem_filter.1 hs).1, h.reports⟩
    | recordRefresh id w =>
      simp only [Change.on, Edit.on]
      have hw : Tells p w.at_.microText := ⟨w.at_, hx _ rfl, rfl⟩
      split
      · refine ⟨fun r hr => ?_, fun s hs => ?_, h.reports⟩
        · obtain ⟨s, hs, rfl⟩ := List.mem_map.1 hr
          split
          · exact ⟨(h.rows s hs).target, fun raw hraw => Option.some.inj hraw ▸ hw⟩
          · exact h.rows s hs
        · rcases List.mem_append.1 hs with hs | hs
          · exact h.history s hs
          · exact List.mem_singleton.1 hs ▸ hw
      · exact h
  | prune cutoff =>
    exact ⟨h.rows, fun s hs => h.history s (List.mem_filter.1 hs).1,
      fun row hrow => h.reports row (List.mem_filter.1 hrow).1⟩
  | saveReport r =>
    rw [Change.on]
    split
    · exact h
    · refine ⟨h.rows, h.history, fun row hrow => ?_⟩
      rcases List.mem_append.1 hrow with hrow | hrow
      · exact h.reports row hrow
      · exact List.mem_singleton.1 hrow ▸ ⟨r, hreport r rfl, rfl⟩

end

/-- What any calls leave was written by them. -/
theorem exists_isWritten_after {xs : List Change} (h : ∀ r, .saveReport r ∈ xs → r.IsValid) :
    ∃ c : Content, Tables.after xs = c.tables ∧ c.IsWritten fun m => ∃ x ∈ xs, x.Writes m := by
  induction xs using List.reverseRecOn with
  | nil =>
    exact ⟨.empty, Content.tables_empty.symm, fun _ h => absurd h List.not_mem_nil,
      fun _ h => absurd h List.not_mem_nil, fun _ h => absurd h List.not_mem_nil⟩
  | append_singleton xs x ih =>
    obtain ⟨c, hc, hwritten⟩ := ih fun r hr => h r (List.mem_append_left _ hr)
    refine ⟨(x.on c).2, ?_, ?_⟩
    · rw [Tables.after_append_singleton, hc, x.work_run_tables]
    · refine (hwritten.mono ?_).on x (fun m hm => ⟨x, by simp, hm⟩) fun r hr => h r (by simp [hr])
      rintro m ⟨y, hy, hm⟩
      exact ⟨y, List.mem_append_left _ hy, hm⟩

/-! ## Reading -/

section

variable {ε α β : Type} {f : α → Except ε β}

theorem exists_mapM_eq_ok_iff {l : List α} :
    (∃ bs, l.mapM f = .ok bs) ↔ ∀ a ∈ l, ∃ b, f a = .ok b := by
  induction l with
  | nil => simp [pure, Except.pure]
  | cons a l ih =>
    rw [List.forall_mem_cons, ← ih, List.mapM_cons]
    cases f a with
    | error e => simp [bind, Except.bind]
    | ok b =>
      cases l.mapM f with
      | error e => simp [bind, Except.bind]
      | ok bs => simp [bind, Except.bind, pure, Except.pure]

end

/-- A call answers without an error. -/
def Work.Succeeds {α : Type} (work : Work α) (t : Tables) : Prop := ∃ a, (work.run t).1 = .ok a

/-- The definitions, each of them and every part of the history can be read. -/
structure Tables.IsReadable (t : Tables) : Prop where
  definitions : Store.definitions.Succeeds t
  definition? : ∀ id, (Store.definition? id).Succeeds t
  snapshots : ∀ id limit, (Store.snapshots id limit).Succeeds t

/-- The texts of the times that the definitions and the history keep. -/
def Tables.times (t : Tables) : List String :=
  t.rows.filterMap DefinitionRow.lastUpdated ++ t.history.map SnapshotRow.recordedAt

section

variable {p : Moment → Prop} {c : Content}

theorem exists_momentOf_iff {raw : String} :
    (∃ m, momentOf raw = .ok m) ↔ ∃ m, Moment.ofStrict? raw = some m := by
  rw [momentOf]
  cases Moment.ofStrict? raw <;> simp

/-- A row with the code of a server can be read exactly if its time can. -/
theorem DefinitionRow.exists_definition_iff {r : DefinitionRow}
    (h : ∃ t : Target, r.target = t.code) :
    (∃ d, r.definition = .ok d) ↔
      ∀ raw ∈ r.lastUpdated, ∃ m, Moment.ofStrict? raw = some m := by
  obtain ⟨target, htarget⟩ := h
  rw [DefinitionRow.definition, htarget, code_ofWord?]
  cases hupdated : r.lastUpdated with
  | none => simp [bind, Except.bind, pure, Except.pure]
  | some raw =>
    simp only [Option.mem_def, Option.some.injEq, forall_eq', ← exists_momentOf_iff]
    cases momentOf raw <;> simp [bind, Except.bind, pure, Except.pure, Except.map]

theorem exists_snapshot_iff {s : SnapshotRow} :
    (∃ x, s.snapshot = .ok x) ↔ ∃ m, Moment.ofStrict? s.recordedAt = some m := by
  rw [← exists_momentOf_iff, SnapshotRow.snapshot]
  cases momentOf s.recordedAt <;> simp [bind, Except.bind, pure, Except.pure]

theorem readDefinitions_succeeds_iff {α : Type} {f : DefinitionTable → Except AppError α} :
    (readDefinitions f).Succeeds c.tables ↔ ∃ a, f ⟨true, c.rows⟩ = .ok a := by
  have hrun : ((readDefinitions f).run c.tables).1 = (readDefinitions f c.session).1 := rfl
  rw [Work.Succeeds, hrun, readDefinitions_session]
  cases f ⟨true, c.rows⟩ <;> simp

theorem definitions_succeeds_iff :
    definitions.Succeeds c.tables ↔ ∀ r ∈ c.rows, ∃ d, r.definition = .ok d := by
  have hperm : (listed c.rows).Perm c.rows := List.mergeSort_perm _ _
  rw [definitions, readDefinitions_succeeds_iff]
  change (∃ ds, (listed c.rows).mapM DefinitionRow.definition = .ok ds) ↔ _
  rw [exists_mapM_eq_ok_iff]
  exact forall_congr' fun r => by rw [hperm.mem_iff]

theorem definition?_succeeds (h : ∀ r ∈ c.rows, ∃ d, r.definition = .ok d) (id : String) :
    (definition? id).Succeeds c.tables := by
  have hhints : DefinitionTable.withHints ⟨true, c.rows⟩ = .ok c.rows := rfl
  rw [definition?, readDefinitions_succeeds_iff]
  simp only [hhints, bind, Except.bind]
  cases hfind : c.rows.find? (·.id == id) with
  | none => exact ⟨_, rfl⟩
  | some r =>
    obtain ⟨d, hd⟩ := h r (List.mem_of_find?_eq_some hfind)
    exact ⟨some d, by simp only [hd]; rfl⟩

/-- The rows that the latest snapshots of a metric are read from. -/
def latestRows (history : List SnapshotRow) (id : String) (limit : Nat) : List SnapshotRow :=
  ((history.filter (·.metricId == id)).mergeSort fun r s => s.recordedAt ≤ r.recordedAt).take limit

theorem snapshots_session (id : String) (limit : Nat) :
    (snapshots id limit c.session).1 =
      (latestRows c.history id limit).mapM SnapshotRow.snapshot := by
  have hpresent : present c.tables.snapshots = .ok c.history := rfl
  rw [snapshots, statement_session, hpresent]
  simp only [bind, Except.bind, latestRows]
  cases List.mapM SnapshotRow.snapshot (List.take limit (List.mergeSort
    (List.filter (fun s => s.metricId == id) c.history)
      fun r s => decide (s.recordedAt ≤ r.recordedAt))) <;> rfl

theorem snapshots_succeeds_iff {id : String} {limit : Nat} :
    (snapshots id limit).Succeeds c.tables ↔
      ∀ s ∈ latestRows c.history id limit, ∃ x, s.snapshot = .ok x := by
  have hrun : ((snapshots id limit).run c.tables).1 = (snapshots id limit c.session).1 := rfl
  rw [Work.Succeeds, hrun, snapshots_session, exists_mapM_eq_ok_iff]

theorem mem_latestRows {history : List SnapshotRow} {s : SnapshotRow} (h : s ∈ history) :
    s ∈ latestRows history s.metricId history.length := by
  have hmem : s ∈ (history.filter (·.metricId == s.metricId)).mergeSort
      fun r s => s.recordedAt ≤ r.recordedAt :=
    (List.mergeSort_perm _ _).mem_iff.2 (List.mem_filter.2 ⟨h, by simp⟩)
  have hlength : ((history.filter (·.metricId == s.metricId)).mergeSort
      fun r s => s.recordedAt ≤ r.recordedAt).length ≤ history.length := by
    rw [List.length_mergeSort]
    exact List.length_filter_le _ _
  rwa [latestRows, List.take_of_length_le hlength]

theorem mem_of_mem_latestRows {history : List SnapshotRow} {s : SnapshotRow} {id : String}
    {limit : Nat} (h : s ∈ latestRows history id limit) : s ∈ history :=
  (List.mem_filter.1 ((List.mergeSort_perm _ _).mem_iff.1 (List.mem_of_mem_take h))).1

theorem isReadable_iff :
    c.tables.IsReadable ↔ (∀ r ∈ c.rows, ∃ d, r.definition = .ok d) ∧
      ∀ s ∈ c.history, ∃ x, s.snapshot = .ok x := by
  constructor
  · intro h
    refine ⟨definitions_succeeds_iff.1 h.definitions, fun s hs => ?_⟩
    exact snapshots_succeeds_iff.1 (h.snapshots s.metricId c.history.length) s (mem_latestRows hs)
  · rintro ⟨hrows, hhistory⟩
    exact ⟨definitions_succeeds_iff.2 hrows, definition?_succeeds hrows, fun id limit =>
      snapshots_succeeds_iff.2 fun s hs => hhistory s (mem_of_mem_latestRows hs)⟩

theorem mem_times {raw : String} : raw ∈ c.tables.times ↔
    (∃ r ∈ c.rows, r.lastUpdated = some raw) ∨ ∃ s ∈ c.history, s.recordedAt = raw := by
  change raw ∈ c.rows.filterMap DefinitionRow.lastUpdated ++
    c.history.map SnapshotRow.recordedAt ↔ _
  simp

theorem Content.IsWritten.tells (h : c.IsWritten p) {raw : String} (hraw : raw ∈ c.tables.times) :
    Tells p raw := by
  obtain ⟨r, hr, hupdated⟩ | ⟨s, hs, rfl⟩ := mem_times.1 hraw
  · exact (h.rows r hr).lastUpdated raw hupdated
  · exact h.history s hs

theorem Content.IsWritten.isReadable_iff (h : c.IsWritten p) :
    c.tables.IsReadable ↔ ∀ m : Moment, m.microText ∈ c.tables.times → m.HasPlainYear := by
  rw [Store.isReadable_iff]
  constructor
  · rintro ⟨hrows, hhistory⟩ m hm
    rw [← Moment.exists_ofStrict?_microText_iff]
    obtain ⟨r, hr, hupdated⟩ | ⟨s, hs, htime⟩ := mem_times.1 hm
    · exact (DefinitionRow.exists_definition_iff (h.rows r hr).target).1 (hrows r hr) _ hupdated
    · exact htime ▸ exists_snapshot_iff.1 (hhistory s hs)
  · intro hplain
    have hread : ∀ raw ∈ c.tables.times, ∃ m, Moment.ofStrict? raw = some m := by
      intro raw hraw
      obtain ⟨m, -, rfl⟩ := h.tells hraw
      exact Moment.exists_ofStrict?_microText_iff.2 (hplain m hraw)
    refine ⟨fun r hr => (DefinitionRow.exists_definition_iff (h.rows r hr).target).2 fun raw hraw => ?_, fun s hs => ?_⟩
    · exact hread raw (mem_times.2 (.inl ⟨r, hr, hraw⟩))
    · exact exists_snapshot_iff.2 (hread _ (mem_times.2 (.inr ⟨s, hs, rfl⟩)))

theorem latestRow?_mem {rows : List ReportRow} {row : ReportRow} (h : latestRow? rows = some row) :
    row ∈ rows := by
  induction rows generalizing row with
  | nil => cases h
  | cons r rows ih =>
    rw [latestRow?] at h
    split at h
    · rename_i s hs
      split at h
      · exact List.mem_cons_of_mem _ (Option.some.inj h ▸ ih hs)
      · exact Option.some.inj h ▸ List.mem_cons_self
    · exact Option.some.inj h ▸ List.mem_cons_self

theorem Content.IsWritten.latestReport_succeeds (h : c.IsWritten p) :
    latestReport.Succeeds c.tables := by
  have hpresent : present c.tables.reports = .ok c.reports := rfl
  have hrun : (latestReport.run c.tables).1 = (latestReport c.session).1 := rfl
  rw [Work.Succeeds, hrun, latestReport, statement_session, hpresent]
  simp only [bind, Except.bind]
  cases hrow : latestRow? c.reports with
  | none => exact ⟨none, rfl⟩
  | some row =>
    obtain ⟨r, hr, hjson⟩ := h.reports row (latestRow?_mem hrow)
    obtain ⟨r', hr'⟩ := Report.exists_ofText?_toText hr
    simp only [hjson, hr']
    exact ⟨some r', rfl⟩

end

/-- **What the store takes it can read back, but for some years.** After any calls with valid
reports, the last report can be read. The definitions and the history can be read exactly if every
time that they keep is in a year of four digits; and each of these times is one that a call wrote.
-/
theorem readable_iff (xs : List Change) (h : ∀ r, .saveReport r ∈ xs → r.IsValid) :
    let t := Tables.after xs
    latestReport.Succeeds t ∧
      (t.IsReadable ↔ ∀ m : Moment, m.microText ∈ t.times → m.HasPlainYear) ∧
      ∀ raw ∈ t.times, ∃ x ∈ xs, ∃ m, x.Writes m ∧ raw = m.microText := by
  obtain ⟨c, hc, hwritten⟩ := exists_isWritten_after h
  intro t
  have ht : t = c.tables := hc
  rw [ht]
  refine ⟨hwritten.latestReport_succeeds, hwritten.isReadable_iff, fun raw hraw => ?_⟩
  obtain ⟨m, ⟨x, hx, hm⟩, rfl⟩ := hwritten.tells hraw
  exact ⟨x, hx, m, hm, rfl⟩

/-- A metric is saved with a time, placed in a new catalog and refreshed, and a report is saved. -/
theorem readable_iff_sample :
    let xs : List Change :=
      [.edit (.save { orders with lastUpdated := some ⟨0, 7, 1234567⟩ }),
        .edit (.replaceCatalog [{ orders with id := "sales" }, orders]),
        .edit (.recordRefresh "sales" ⟨.one, some "late", ⟨2932896, 86399, 1999999999⟩⟩),
        .saveReport sampleReport]
    (Tables.after xs).IsReadable ∧ latestReport.Succeeds (Tables.after xs) := by
  intro xs
  have hreports : ∀ r, .saveReport r ∈ xs → r.IsValid := by
    intro r hr
    obtain rfl : r = sampleReport := by simpa [xs] using hr
    exact sampleReport_isValid
  obtain ⟨hlatest, hreadable, hwritten⟩ := readable_iff xs hreports
  have hread : ∀ raw ∈ (Tables.after xs).times, (Moment.ofStrict? raw).isSome = true := by
    decide
  refine ⟨hreadable.2 fun m hm => ?_, hlatest⟩
  exact Moment.exists_ofStrict?_microText_iff.1 (Option.isSome_iff_exists.1 (hread _ hm))

/-- A refresh is recorded at a moment that is in the year 10000 in universal time. Both calls
succeed, and from then on neither the definitions nor the history can be read. -/
theorem not_readable_far_future :
    let save := Change.edit (.save orders)
    let record := Change.edit (.recordRefresh "orders" ⟨.one, none, ⟨2932897, 3599, 0⟩⟩)
    let t := Tables.after [save, record]
    (save.work.run Tables.fresh).1 = .ok .saved ∧
      (record.work.run (Tables.after [save])).1 =
        .ok (.recorded ⟨"orders", .one, none, ⟨2932897, 3599, 0⟩⟩) ∧
      (definitions.run t).1 = .error refusal ∧
      ((definition? "orders").run t).1 = .error refusal ∧
      ((snapshots "orders" 1).run t).1 = .error refusal := by
  refine ⟨rfl, rfl, ?_, ?_, ?_⟩ <;> decide +kernel

end Store

end MetricBoard
