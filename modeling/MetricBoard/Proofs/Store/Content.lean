import MetricBoard.Proofs.Store.Calls

/-!
# The content of a store

A file that has been opened misses no table, so that what it holds is a list of rows for each
(`Content`). On such a file, when no statement is refused, every call comes to a function on the
content: `Change.on` is that function, and `Change.work_run_tables` says so.
-/

namespace MetricBoard.Store

/-- What the tables hold when none is missing and they are up to date. -/
structure Content where
  rows : List DefinitionRow
  history : List SnapshotRow
  reports : List ReportRow
  version : Option String

namespace Content

/-- The tables with some content. -/
def tables (c : Content) : Tables :=
  ⟨some ⟨true, c.rows⟩, some c.history, some c.reports, some c.version⟩

/-- The content of a fresh store. -/
def empty : Content := ⟨[], [], [], some "2"⟩

theorem tables_empty : empty.tables = Tables.fresh := by
  decide

end Content

/-! ## Rows -/

/-- The row with the refresh fields of another one. -/
def DefinitionRow.withRefreshOf (row r : DefinitionRow) : DefinitionRow :=
  { row with
    lastValue := r.lastValue
    lastError := r.lastError
    lastUpdated := r.lastUpdated }

/-- The row of a definition that was never refreshed. -/
def DefinitionRow.newcomer (ordinal : Int) (d : Definition) : DefinitionRow :=
  ⟨d.id, ordinal, d.groupName, d.label, d.target.code, d.tableHint, d.expression, .zero, none, none⟩

/-- The rows after a definition is saved. -/
def savedRows (d : Definition) (rows : List DefinitionRow) : List DefinitionRow :=
  let row := DefinitionRow.ofDefinition (nextOrdinal rows) d
  upsert (fun r => { row with ordinal := r.ordinal }) row rows

/-- The rows after a definition is put at its place. -/
def placedRow (ordinal : Int) (d : Definition) (rows : List DefinitionRow) : List DefinitionRow :=
  let row := DefinitionRow.newcomer ordinal d
  upsert row.withRefreshOf row rows

/-- The rows after definitions are put at their places. -/
def placedRows (ordinal : Nat) : List Definition → List DefinitionRow → List DefinitionRow
  | [], rows => rows
  | d :: ds, rows => placedRows (ordinal + 1) ds (placedRow ordinal d rows)

/-- The ids that a catalog removes. -/
def gone (ds : List Definition) (rows : List DefinitionRow) : List String :=
  (rows.map DefinitionRow.id).filter fun id => !(ds.map Definition.id).contains id

/-! ## Calls on the content -/

namespace Content

variable (c : Content)

/-- Whether a definition has an id. -/
def has (id : String) : Bool := c.rows.any (·.id == id)

/-- The content after a definition is saved. -/
def save (d : Definition) : Content := { c with rows := savedRows d c.rows }

/-- The content without some definitions and their history. -/
def without (ids : List String) : Content :=
  { c with
    rows := c.rows.filter (·.id ∉ ids)
    history := c.history.filter (·.metricId ∉ ids) }

/-- The content with a new catalog. -/
def replace (ds : List Definition) : Content :=
  { c with rows := placedRows 0 ds c.rows }.without (gone ds c.rows)

/-- The counts that a new catalog answers. -/
def change (ds : List Definition) : CatalogChange :=
  let updated := (ds.map Definition.id).countP (c.rows.map DefinitionRow.id).contains
  ⟨ds.length - updated, updated, (gone ds c.rows).length⟩

/-- The content after a refresh is recorded. -/
def record (id : String) (w : Write) : Content :=
  { c with
    rows := c.rows.map fun r => if r.id == id then r.recorded w else r
    history := c.history ++ [⟨id, storedValue w.value, w.error, w.at_.microText⟩] }

/-- The content without the history from before a time. -/
def prune (cutoff : String) : Content :=
  { c with
    history := c.history.filter fun r => !(r.recordedAt < cutoff)
    reports := c.reports.filter fun r => !(r.finishedAt < cutoff) }

/-- The content with one more report. -/
def saveReport (r : Report) : Content :=
  { c with reports := c.reports ++ [⟨r.id, r.finishedAt.microText, r.toText⟩] }

end Content

/-- An edit of the content, and what it answers. -/
def Edit.on (c : Content) : Edit → Except AppError Answer × Content
  | save d => (.ok .saved, c.save d)
  | replaceCatalog ds =>
    match repeated? [] ds with
    | some id => (.error (.duplicateId id), c)
    | none => (.ok (.replaced (c.change ds)), c.replace ds)
  | recordRefresh id w =>
    if c.has id then (.ok (.recorded ⟨id, w.value.finiteOrZero, w.error, w.at_⟩), c.record id w)
    else (.error (.unknownMetric id), c)

/-- A call on the content, and what it answers. -/
def Change.on (c : Content) : Change → Except AppError Answer × Content
  | edit e => e.on c
  | prune cutoff =>
    (.ok (.pruned
        ⟨c.history.countP (·.recordedAt < cutoff), c.reports.countP (·.finishedAt < cutoff)⟩),
      c.prune cutoff)
  | saveReport r =>
    if c.reports.any (·.id == r.id) then (.error refusal, c) else (.ok .saved, c.saveReport r)

/-! ## Calls on the tables -/

section

variable (c : Content)

/-- The session with some content in which no statement is refused. -/
def Content.session : Session := ⟨c.tables, []⟩

theorem save_session (d : Definition) :
    Store.save d c.session = (.ok (), (c.save d).session) := rfl

theorem place_session (ordinal : Int) (d : Definition) :
    place ordinal d c.session =
      (.ok (), { c with rows := placedRow ordinal d c.rows }.session) := rfl

theorem without_nil : c.without [] = c := by
  obtain ⟨rows, history, reports, version⟩ := c
  simp [Content.without]

theorem without_cons (id : String) (ids : List String) :
    (c.without [id]).without ids = c.without (id :: ids) := by
  simp [Content.without, List.filter_filter, Bool.and_comm]

theorem remove_session (id : String) :
    remove id c.session = (.ok (), (c.without [id]).session) := by
  have hrows : c.rows.filter (·.id != id) = (c.without [id]).rows :=
    List.filter_congr fun r _ => by rw [Bool.eq_iff_iff]; simp
  have hhistory : c.history.filter (·.metricId != id) = (c.without [id]).history :=
    List.filter_congr fun s _ => by rw [Bool.eq_iff_iff]; simp
  rw [Content.session, Content.session, Content.tables, Content.tables, ← hrows, ← hhistory]
  rfl

theorem forM_remove_session (ids : List String) :
    ids.forM remove c.session = (.ok (), (c.without ids).session) := by
  induction ids generalizing c with
  | nil =>
    rw [without_nil]
    rfl
  | cons id ids ih =>
    change (remove id >>= fun _ => ids.forM remove) c.session = _
    rw [bind_apply, remove_session]
    dsimp only
    rw [ih, without_cons]

theorem idle_session : statement (fun t => .ok ((), t)) c.session = (.ok (), c.session) := rfl

section

variable {α : Type} {work : Work α} {c d : Content}

theorem transaction_session {a : α} (h : work c.session = (.ok a, d.session)) :
    transaction work c.session = (.ok a, d.session) := by
  simp only [transaction, bind_apply, idle_session, h]
  rfl

theorem transaction_session_error {e : AppError} (h : work c.session = (.error e, d.session)) :
    transaction work c.session = (.error e, c.session) := by
  simp only [transaction, bind_apply, idle_session, h]
  rfl

end

theorem placeAll_session (seen : List String) (n : Nat) (ds : List Definition) :
    match repeated? seen ds with
    | none =>
      placeAll seen n ds c.session = (.ok (), { c with rows := placedRows n ds c.rows }.session)
    | some id =>
      ∃ c', placeAll seen n ds c.session = (.error (.duplicateId id), Content.session c') := by
  induction ds generalizing seen n c with
  | nil => rfl
  | cons d ds ih =>
    rw [repeated?, placeAll]
    by_cases hseen : seen.contains d.id = true
    · rw [if_pos hseen, if_pos hseen]
      exact ⟨c, rfl⟩
    · rw [if_neg hseen, if_neg hseen, bind_apply, place_session]
      exact ih _ _ _

theorem replaceCatalog_session (ds : List Definition) :
    Store.replaceCatalog ds c.session =
      match repeated? [] ds with
      | none => (.ok (c.change ds), (c.replace ds).session)
      | some id => (.error (.duplicateId id), c.session) := by
  have hplace := placeAll_session c [] 0 ds
  have hread : readDefinitions (fun t => .ok (t.rows.map DefinitionRow.id)) c.session =
      (.ok (c.rows.map DefinitionRow.id), c.session) := rfl
  split at hplace <;> rename_i hrepeated
  · refine transaction_session ?_
    rw [bind_apply, hread]
    dsimp only
    rw [bind_apply, hplace]
    dsimp only
    rw [bind_apply, forM_remove_session, List.length_map]
    rfl
  · obtain ⟨c', hplace⟩ := hplace
    refine transaction_session_error (d := c') ?_
    rw [bind_apply, hread]
    dsimp only
    rw [bind_apply, hplace]

/-- What a statement comes to that the store does not refuse. -/
theorem statement_session {α : Type} (run : Tables → Except AppError (α × Tables)) :
    statement run c.session =
      match run c.tables with
      | .ok (a, t) => (.ok a, ⟨t, []⟩)
      | .error e => (.error e, c.session) := rfl

theorem readDefinitions_session {α : Type} (f : DefinitionTable → Except AppError α) :
    readDefinitions f c.session =
      match f ⟨true, c.rows⟩ with
      | .ok a => (.ok a, c.session)
      | .error e => (.error e, c.session) := by
  have hrun : (do return (← f (← present c.tables.definitions), c.tables)) =
      f ⟨true, c.rows⟩ >>= fun a => pure (a, c.tables) := rfl
  rw [readDefinitions, statement_session, hrun]
  cases f ⟨true, c.rows⟩ <;> rfl

theorem writeDefinitions_session {α : Type}
    (f : DefinitionTable → Except AppError (α × DefinitionTable)) :
    writeDefinitions f c.session =
      match f ⟨true, c.rows⟩ with
      | .ok (a, d) => (.ok a, ⟨{ c.tables with definitions := some d }, []⟩)
      | .error e => (.error e, c.session) := by
  have hpresent : present c.tables.definitions = .ok ⟨true, c.rows⟩ := rfl
  rw [writeDefinitions, statement_session, hpresent]
  cases hf : f ⟨true, c.rows⟩ with
  | ok x =>
    simp only [bind, Except.bind, hf]
    rfl
  | error e => simp only [bind, Except.bind, hf]

theorem writeRefresh_session (id : String) (w : Write) :
    writeRefresh id w c.session =
      if c.has id then (.ok (), { c with rows := (c.record id w).rows }.session)
      else (.error (.unknownMetric id), c.session) := by
  rw [writeRefresh, writeDefinitions_session]
  by_cases h : c.has id = true
  · have hany : c.rows.any (·.id == id) = true := h
    rw [if_pos h]
    simp only [hany, if_true]
    rfl
  · have hany : ¬ c.rows.any (·.id == id) = true := h
    rw [if_neg h]
    simp only [hany, if_false, Bool.false_eq_true]

theorem recordRefresh_session (id : String) (w : Write) :
    Store.recordRefresh id w c.session =
      if c.has id then
        (.ok ⟨id, w.value.finiteOrZero, w.error, w.at_⟩, (c.record id w).session)
      else (.error (.unknownMetric id), c.session) := by
  have hwrite := writeRefresh_session c id w
  split <;> rename_i h
  · rw [if_pos h] at hwrite
    refine transaction_session ?_
    rw [bind_apply, hwrite]
    rfl
  · rw [if_neg h] at hwrite
    refine transaction_session_error (d := c) ?_
    rw [bind_apply, hwrite]

theorem prune_session (cutoff : String) :
    Store.prune cutoff c.session =
      (.ok ⟨c.history.countP (·.recordedAt < cutoff), c.reports.countP (·.finishedAt < cutoff)⟩,
        (c.prune cutoff).session) := rfl

theorem saveReport_session (r : Report) :
    Store.saveReport r c.session =
      if c.reports.any (·.id == r.id) then (.error refusal, c.session)
      else (.ok (), (c.saveReport r).session) := by
  simp only [Store.saveReport, statement, Content.session, Content.tables, present, bind,
    Except.bind]
  generalize hany : c.reports.any (·.id == r.id) = b
  cases b <;> rfl

theorem Edit.work_session (e : Edit) : e.work c.session = ((e.on c).1, (e.on c).2.session) := by
  cases e with
  | save d =>
    rw [work, bind_apply, save_session]
    rfl
  | replaceCatalog ds =>
    simp only [work, Edit.on, bind_apply, replaceCatalog_session]
    cases repeated? [] ds <;> rfl
  | recordRefresh id w =>
    simp only [work, Edit.on, bind_apply, recordRefresh_session]
    cases c.has id <;> rfl

theorem Change.work_session (x : Change) : x.work c.session = ((x.on c).1, (x.on c).2.session) := by
  cases x with
  | edit e => exact e.work_session c
  | prune cutoff =>
    rw [work, bind_apply, prune_session]
    rfl
  | saveReport r =>
    simp only [work, Change.on, bind_apply, saveReport_session]
    cases c.reports.any (·.id == r.id) <;> rfl

/-- A call on the tables is the call on their content. -/
theorem Change.work_run_tables (x : Change) :
    x.work.run c.tables = ((x.on c).1, (x.on c).2.tables) := by
  have hrun : x.work.run c.tables = ((x.work c.session).1, (x.work c.session).2.tables) := rfl
  rw [hrun, x.work_session c]
  rfl

end

end MetricBoard.Store
