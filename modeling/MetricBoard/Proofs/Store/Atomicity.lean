import MetricBoard.Proofs.Store.Calls

/-!
# Calls that fail

A call on the store that fails leaves the tables as they were, whichever of its statements is
refused. Replacing the catalog and recording a refresh are transactions, and saving writes with its
last statement. Pruning is the exception, as it is neither: once its first statement is executed,
the history from before the time is gone, whatever becomes of the others. So a failed call has
changed nothing exactly if it is not a pruning that had removed something by then
(`Change.failed_iff`, `Change.prune_not_undone`).
-/

namespace MetricBoard.Store

variable {s s' : Session} {e : AppError}

/-! ## Edits and reports -/

theorem save_eq_error {d : Definition} (h : save d s = (.error e, s')) : s'.tables = s.tables := by
  rcases bind_eq_error h with hread | ⟨n, s₁, hread, hwrite⟩
  · exact (statement_eq_error hread).1
  · exact (statement_eq_error hwrite).1.trans (readDefinitions_eq_ok hread)

theorem Edit.work_eq_error {x : Edit} (h : x.work s = (.error e, s')) : s'.tables = s.tables := by
  cases x with
  | save d =>
    rcases bind_eq_error h with hsave | ⟨_, _, _, hreturn⟩
    · exact save_eq_error hsave
    · cases hreturn
  | replaceCatalog ds =>
    rcases bind_eq_error h with hreplace | ⟨_, _, _, hreturn⟩
    · exact transaction_eq_error hreplace
    · cases hreturn
  | recordRefresh id w =>
    rcases bind_eq_error h with hrecord | ⟨_, _, _, hreturn⟩
    · exact transaction_eq_error hrecord
    · cases hreturn

theorem placeAll_eq_ok {seen : List String} {n : Nat} {ds : List Definition} {u : Unit}
    (h : placeAll seen n ds s = (.ok u, s')) : repeated? seen ds = none := by
  induction ds generalizing seen n s with
  | nil => rfl
  | cons d ds ih =>
    rw [placeAll] at h
    split at h
    · cases h
    · obtain ⟨_, s₁, -, hrest⟩ := bind_eq_ok h
      rw [repeated?, if_neg ‹_›]
      exact ih hrest

theorem replaceCatalog_eq_ok {ds : List Definition} {c : CatalogChange}
    (h : replaceCatalog ds s = (.ok c, s')) : (ds.map Definition.id).Nodup := by
  obtain ⟨s₁, s₂, -, hwork, -⟩ := transaction_eq_ok h
  obtain ⟨existing, s₃, -, hwork⟩ := bind_eq_ok hwork
  obtain ⟨_, s₄, hplace, -⟩ := bind_eq_ok hwork
  exact (repeated?_eq_none_iff.1 (placeAll_eq_ok hplace)).1

theorem recordRefresh_eq_ok {id : String} {w : Write} {x : Snapshot}
    (h : recordRefresh id w s = (.ok x, s')) :
    ∃ d, s.tables.definitions = some d ∧ ∃ r ∈ d.rows, r.id = id := by
  obtain ⟨s₁, s₂, hs₁, hwork, -⟩ := transaction_eq_ok h
  obtain ⟨_, s₃, hwrite, -⟩ := bind_eq_ok hwork
  rw [writeRefresh, writeDefinitions] at hwrite
  obtain ⟨-, hrun, -⟩ := statement_eq_ok hwrite
  obtain ⟨d, hd, hrun⟩ := present_bind_eq_ok.1 hrun
  refine ⟨d, hs₁ ▸ hd, ?_⟩
  by_cases hid : d.rows.any (·.id == id) = true
  · simpa using hid
  · rw [if_neg hid] at hrun
    cases hrun

/-! ## Pruning -/

/-- By the time it fails, a pruning of tables has removed a snapshot or a report: its first
statement is executed and finds a snapshot from before the time, or its second one is executed too
and finds a report. -/
def PrunesPart (t : Tables) (refusals : List Bool) (cutoff : String) : Prop :=
  ∃ rows, t.snapshots = some rows ∧ refusals.head? ≠ some true ∧
    ((∃ r ∈ rows, r.recordedAt < cutoff) ∨
      ∃ reports, t.reports = some reports ∧ refusals.tail.head? ≠ some true ∧
        ∃ r ∈ reports, r.finishedAt < cutoff)

theorem prunesPart_iff {t : Tables} {refusals : List Bool} {rows : List SnapshotRow}
    {cutoff : String} (hrows : t.snapshots = some rows) (hexecuted : refusals.head? ≠ some true) :
    PrunesPart t refusals cutoff ↔ (∃ r ∈ rows, r.recordedAt < cutoff) ∨
      ∃ reports, t.reports = some reports ∧ refusals.tail.head? ≠ some true ∧
        ∃ r ∈ reports, r.finishedAt < cutoff := by
  constructor
  · rintro ⟨rows', hrows', -, hold⟩
    obtain rfl : rows = rows' := Option.some.inj (hrows.symm.trans hrows')
    exact hold
  · exact fun hold => ⟨rows, hrows, hexecuted, hold⟩

/-- The tables without the snapshots from before a time. -/
def Tables.withoutSnapshots (t : Tables) (rows : List SnapshotRow) (cutoff : String) : Tables :=
  { t with snapshots := some (rows.filter fun r => !(r.recordedAt < cutoff)) }

/-- The tables without the reports from before a time. -/
def Tables.withoutReports (t : Tables) (rows : List ReportRow) (cutoff : String) : Tables :=
  { t with reports := some (rows.filter fun r => !(r.finishedAt < cutoff)) }

theorem prune_eq_error {cutoff : String} (h : prune cutoff s = (.error e, s')) :
    s'.tables = s.tables ∧ (s.refusals.head? = some true ∨ s.tables.snapshots = none) ∨
      ∃ rows, s.tables.snapshots = some rows ∧ s.refusals.head? ≠ some true ∧
        (s'.tables = s.tables.withoutSnapshots rows cutoff ∧
            (s.refusals.tail.head? = some true ∨ s.tables.reports = none) ∨
          ∃ reports, s.tables.reports = some reports ∧ s.refusals.tail.head? ≠ some true ∧
            s'.tables =
              (s.tables.withoutSnapshots rows cutoff).withoutReports reports cutoff) := by
  rcases bind_eq_error h with h₁ | ⟨n, s₁, h₁, h⟩
  · obtain ⟨htables, hrefused⟩ := statement_eq_error h₁
    exact .inl ⟨htables, hrefused.imp_right eq_none_of_present_bind⟩
  obtain ⟨hexecuted, hrun, hrefusals⟩ := statement_eq_ok h₁
  obtain ⟨rows, hrows, hrun⟩ := present_bind_eq_ok.1 hrun
  have htables₁ : s₁.tables = s.tables.withoutSnapshots rows cutoff :=
    (Prod.ext_iff.1 (Except.ok.inj hrun)).2.symm
  have hreports₁ : s₁.tables.reports = s.tables.reports := by rw [htables₁]; rfl
  refine .inr ⟨rows, hrows, hexecuted, ?_⟩
  rcases bind_eq_error h with h₂ | ⟨m, s₂, h₂, h⟩
  · obtain ⟨htables, hrefused⟩ := statement_eq_error h₂
    rw [hrefusals, hreports₁] at hrefused
    exact .inl ⟨htables.trans htables₁, hrefused.imp_right eq_none_of_present_bind⟩
  obtain ⟨hexecuted₂, hrun, -⟩ := statement_eq_ok h₂
  rw [hreports₁] at hrun
  obtain ⟨reports, hreports, hrun⟩ := present_bind_eq_ok.1 hrun
  have htables₂ : s₂.tables = s₁.tables.withoutReports reports cutoff :=
    (Prod.ext_iff.1 (Except.ok.inj hrun)).2.symm
  refine .inr ⟨reports, hreports, hrefusals ▸ hexecuted₂, ?_⟩
  rcases bind_eq_error h with h₃ | ⟨_, s₃, h₃, hreturn⟩
  · exact (statement_eq_error h₃).1.trans (htables₂.trans (by rw [htables₁]))
  · cases hreturn

theorem Tables.withoutSnapshots_eq_self {t : Tables} {rows : List SnapshotRow} {cutoff : String}
    (h : t.snapshots = some rows) :
    t.withoutSnapshots rows cutoff = t ↔ ∀ r ∈ rows, ¬ r.recordedAt < cutoff := by
  obtain ⟨definitions, snapshots, reports, settings⟩ := t
  obtain rfl : snapshots = some rows := h
  simp [withoutSnapshots, List.filter_eq_self]

theorem Tables.withoutBoth_eq_self {t : Tables} {rows : List SnapshotRow} {reports : List ReportRow}
    {cutoff : String} (h : t.snapshots = some rows) (h' : t.reports = some reports) :
    (t.withoutSnapshots rows cutoff).withoutReports reports cutoff = t ↔
      (∀ r ∈ rows, ¬ r.recordedAt < cutoff) ∧ ∀ r ∈ reports, ¬ r.finishedAt < cutoff := by
  obtain ⟨definitions, snapshots, reports', settings⟩ := t
  obtain rfl : snapshots = some rows := h
  obtain rfl : reports' = some reports := h'
  simp [withoutSnapshots, withoutReports, List.filter_eq_self]

theorem tables_eq_iff_of_prune_eq_error {cutoff : String} (h : prune cutoff s = (.error e, s')) :
    s'.tables = s.tables ↔ ¬ PrunesPart s.tables s.refusals cutoff := by
  rcases prune_eq_error h with ⟨htables, hnot⟩ |
    ⟨rows, hrows, hexecuted, ⟨htables, hnot⟩ | ⟨reports, hreports, hexecuted₂, htables⟩⟩
  · refine iff_of_true htables ?_
    rintro ⟨rows, hrows, hexecuted, -⟩
    exact hnot.elim hexecuted fun hnone => by simp [hnone] at hrows
  · rw [htables, Tables.withoutSnapshots_eq_self hrows, prunesPart_iff hrows hexecuted, not_or]
    refine ⟨fun hold => ⟨?_, ?_⟩, fun hold r hr hlt => hold.1 ⟨r, hr, hlt⟩⟩
    · rintro ⟨r, hr, hlt⟩
      exact hold r hr hlt
    · rintro ⟨reports, hreports, hexecuted₂, -⟩
      exact hnot.elim hexecuted₂ fun hnone => by simp [hnone] at hreports
  · rw [htables, Tables.withoutBoth_eq_self hrows hreports, prunesPart_iff hrows hexecuted, not_or]
    simp only [hreports, Option.some.injEq, exists_eq_left', ne_eq, hexecuted₂, not_false_eq_true,
      true_and, not_exists, not_and]

/-! ## Calls -/

theorem saveReport_eq_error {r : Report} (h : saveReport r s = (.error e, s')) :
    s'.tables = s.tables :=
  (statement_eq_error h).1

namespace Change

/-- The call is a pruning that has removed something by the time it fails. -/
def HasPruned (t : Tables) (refusals : List Bool) : Change → Prop
  | prune cutoff => PrunesPart t refusals cutoff
  | edit _ | saveReport _ => False

/-- The call can never be answered: it gives a catalog in which an id is repeated, or records a
refresh of an id that no definition has. -/
def IsInvalid (t : Tables) : Change → Prop
  | edit (.replaceCatalog ds) => ¬ (ds.map Definition.id).Nodup
  | edit (.recordRefresh id _) =>
    ∀ d, t.definitions = some d → ∀ r ∈ d.rows, r.id ≠ id
  | edit (.save _) | prune _ | saveReport _ => False

theorem tables_eq_iff_of_work_eq_error {c : Change} (h : c.work s = (.error e, s')) :
    s'.tables = s.tables ↔ ¬ c.HasPruned s.tables s.refusals := by
  cases c with
  | edit x => exact iff_of_true (Edit.work_eq_error h) id
  | prune cutoff =>
    rcases bind_eq_error h with hprune | ⟨_, _, _, hreturn⟩
    · exact tables_eq_iff_of_prune_eq_error hprune
    · cases hreturn
  | saveReport r =>
    rcases bind_eq_error h with hsave | ⟨_, _, _, hreturn⟩
    · exact iff_of_true (saveReport_eq_error hsave) id
    · cases hreturn

theorem not_isInvalid_of_work_eq_ok {c : Change} {a : Answer} (h : c.work s = (.ok a, s')) :
    ¬ c.IsInvalid s.tables := by
  cases c with
  | edit x =>
    cases x with
    | save d => exact id
    | replaceCatalog ds =>
      obtain ⟨_, _, hreplace, -⟩ := bind_eq_ok h
      exact fun hrepeated => hrepeated (replaceCatalog_eq_ok hreplace)
    | recordRefresh id w =>
      obtain ⟨_, _, hrecord, -⟩ := bind_eq_ok h
      obtain ⟨d, hd, r, hr, hid⟩ := recordRefresh_eq_ok hrecord
      exact fun hnone => hnone d hd r hr hid
  | prune | saveReport => exact id

/-- **Failed calls.** Whatever the tables hold and whichever statements are refused, a call that
fails leaves the tables as they were, exactly if it is not a pruning that has removed something by
then. A repeated id and an id that no definition has make a call fail like this. -/
theorem failed_iff (c : Change) (t : Tables) (refusals : List Bool) :
    (∀ e s, c.work ⟨t, refusals⟩ = (.error e, s) →
        (s.tables = t ↔ ¬ c.HasPruned t refusals)) ∧
      (c.IsInvalid t → ∃ e s, c.work ⟨t, refusals⟩ = (.error e, s) ∧ s.tables = t) := by
  refine ⟨fun e s h => tables_eq_iff_of_work_eq_error h, fun hinvalid => ?_⟩
  rcases hwork : c.work ⟨t, refusals⟩ with ⟨r, s⟩
  cases r with
  | ok a => exact absurd hinvalid (not_isInvalid_of_work_eq_ok hwork)
  | error e =>
    refine ⟨e, s, rfl, (tables_eq_iff_of_work_eq_error hwork).2 ?_⟩
    cases c with
    | edit x => exact id
    | prune | saveReport => cases hinvalid

/-- The tables of a store that keeps a metric with a refresh from the year 1900. -/
def oldRefresh : Tables where
  definitions := some ⟨true, [.ofDefinition 0 orders]⟩
  snapshots := some [⟨"orders", .one, none, "1900-01-01T00:00:00.000000Z"⟩]
  reports := some []
  settings := some none

/-- Recording a refresh whose snapshot is refused, and a catalog that repeats an id. -/
theorem failed_iff_refused_snapshot :
    let record := Change.edit (.recordRefresh "orders" ⟨.one, none, .epoch⟩)
    let repeated := Change.edit (.replaceCatalog [orders, orders])
    record.work ⟨oldRefresh, [false, false, true]⟩ = (.error refusal, ⟨oldRefresh, []⟩) ∧
      (oldRefresh = oldRefresh ↔ ¬ record.HasPruned oldRefresh [false, false, true]) ∧
      repeated.IsInvalid oldRefresh ∧
      ∃ e s, repeated.work ⟨oldRefresh, []⟩ = (.error e, s) ∧ s.tables = oldRefresh := by
  intro record repeated
  have hrecord : record.work ⟨oldRefresh, [false, false, true]⟩ =
      (.error refusal, ⟨oldRefresh, []⟩) := rfl
  have hrepeated : repeated.IsInvalid oldRefresh := by
    change ¬ ["orders", "orders"].Nodup
    simp
  exact ⟨hrecord, (failed_iff record _ _).1 _ _ hrecord, hrepeated,
    (failed_iff repeated _ []).2 hrepeated⟩

/-- Pruning fails for want of the reports, and yet the history is gone. -/
theorem prune_not_undone :
    let t := { oldRefresh with reports := none }
    (prune "2000-01-01T00:00:00.000000Z").work ⟨t, []⟩ =
        (.error refusal, ⟨{ t with snapshots := some [] }, []⟩) ∧
      { t with snapshots := some [] } ≠ t := by
  refine ⟨?_, by decide⟩
  rfl

end Change

end MetricBoard.Store
