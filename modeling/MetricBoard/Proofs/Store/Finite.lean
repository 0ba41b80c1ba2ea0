import MetricBoard.Proofs.Store.Rows
import MetricBoard.Refresh.Storage

/-!
# Numbers of the store

A call on the store may be given any number, and any of its statements may be refused. Whatever it
comes to, the numbers in the tables stay finite (`Change.preserves_isFinite`): work is put together from
statements, and what each statement keeps the whole of it keeps (`Work.Preserves`).
-/

namespace MetricBoard

theorem Store.storedValue_isFinite (x : Binary64) : (Store.storedValue x).isFinite = true := by
  unfold storedValue Binary64.withoutNegativeZero
  split
  · exact Binary64.zero_isFinite
  · exact x.finiteOrZero_isFinite

namespace Store

/-! ## What work keeps -/

/-- Whatever the work comes to, it leads from tables of a kind to tables of that kind. -/
def Work.Preserves {α : Type} (P : Tables → Prop) (x : Work α) : Prop :=
  ∀ s, P s.tables → P (x s).2.tables

namespace Work

variable {α β : Type} {P : Tables → Prop} {x : Work α} {f : α → Work β}

theorem preserves_pure (a : α) : Preserves P (pure a : Work α) := fun _ h => h

theorem preserves_throw (e : AppError) : Preserves P (throw e : Work α) := fun _ h => h

theorem Preserves.bind (hx : x.Preserves P) (hf : ∀ a, (f a).Preserves P) : Preserves P (x >>= f) := by
  intro s hs
  have hx := hx s hs
  rw [bind_apply]
  split <;> rename_i h <;> rw [h] at hx
  · exact hf _ _ hx
  · exact hx

theorem preserves_statement {run : Tables → Except AppError (α × Tables)}
    (h : ∀ t a t', P t → run t = .ok (a, t') → P t') : Preserves P (statement run) := by
  intro s hs
  unfold statement
  split
  · exact hs
  · split
    · exact h _ _ _ hs ‹_›
    · exact hs

/-- A transaction that fails leaves the tables as they were. -/
theorem Preserves.transaction (hx : x.Preserves P) : Preserves P (transaction x) := by
  have hnothing : Preserves P (statement fun t => .ok ((), t)) :=
    preserves_statement fun t _ _ ht h => by
      cases h
      exact ht
  intro s hs
  have hwhole := (hnothing.bind fun _ => hx.bind fun a => hnothing.bind fun _ => preserves_pure a) s hs
  unfold Store.transaction
  dsimp only
  split <;> rename_i h
  · rw [h] at hwhole
    exact hwhole
  · exact hs

theorem preserves_readDefinitions {f : DefinitionTable → Except AppError α} :
    Preserves P (readDefinitions f) := by
  intro s hs
  rcases h : readDefinitions f s with ⟨r, s'⟩
  cases r with
  | ok a => exact readDefinitions_eq_ok h ▸ hs
  | error e => exact (statement_eq_error h).1 ▸ hs

theorem preserves_forM {l : List α} {g : α → Work Unit} (h : ∀ a, (g a).Preserves P) :
    Preserves P (l.forM g) := by
  induction l with
  | nil => exact preserves_pure ()
  | cons a l ih => exact (h a).bind fun _ => ih

end Work

/-! ## Finite numbers -/

/-- All numbers in the tables are finite. -/
structure Tables.IsFinite (t : Tables) : Prop where
  definitions : ∀ d, t.definitions = some d → ∀ r ∈ d.rows, r.lastValue.isFinite = true
  snapshots : ∀ rows, t.snapshots = some rows → ∀ r ∈ rows, r.value.isFinite = true

theorem Tables.isFinite_fresh : Tables.fresh.IsFinite := by
  refine ⟨fun d hd r hr => ?_, fun rows hrows r hr => ?_⟩
  · cases hd
    cases hr
  · cases hrows
    cases hr

section

open Work

/-- A change of the definitions that writes finite numbers only. -/
theorem preserves_writeDefinitions {α : Type}
    {f : DefinitionTable → Except AppError (α × DefinitionTable)}
    (h : ∀ d a d', f d = .ok (a, d') → (∀ r ∈ d.rows, r.lastValue.isFinite = true) →
      ∀ r ∈ d'.rows, r.lastValue.isFinite = true) :
    Preserves Tables.IsFinite (writeDefinitions f) := by
  refine preserves_statement fun t a t' ht hrun => ?_
  obtain ⟨d, hd, hrun⟩ := present_bind_eq_ok.1 hrun
  cases hf : f d with
  | error e => rw [hf] at hrun; cases hrun
  | ok p =>
    rw [hf] at hrun
    cases hrun
    refine ⟨fun d' hd' => ?_, ht.snapshots⟩
    cases hd'
    exact h d p.1 p.2 hf (ht.definitions d hd)

theorem withHints_eq_ok {d : DefinitionTable} {rows : List DefinitionRow}
    (h : d.withHints = .ok rows) : rows = d.rows := by
  unfold DefinitionTable.withHints at h
  split at h <;> cases h
  rfl

theorem preserves_upsert (change : DefinitionRow → DefinitionRow) (row : DefinitionRow)
    (hrow : row.lastValue.isFinite = true)
    (hchange : ∀ r, r.lastValue.isFinite = true → (change r).lastValue.isFinite = true) :
    Preserves Tables.IsFinite (writeDefinitions fun t => do
      return ((), { t with rows := upsert change row (← t.withHints) })) := by
  refine preserves_writeDefinitions fun d a d' hd hrows r hr => ?_
  cases hhints : d.withHints with
  | error e => rw [hhints] at hd; cases hd
  | ok rows =>
    rw [hhints] at hd
    cases hd
    obtain rfl := withHints_eq_ok hhints
    obtain hr | rfl | ⟨s, hs, rfl⟩ := mem_upsert hr
    · exact hrows r hr
    · exact hrow
    · exact hchange s (hrows s hs)

theorem preserves_save (d : Definition) : Preserves Tables.IsFinite (save d) := by
  have hvalue : ∀ n, (DefinitionRow.ofDefinition n d).lastValue.isFinite = true :=
    fun _ => storedValue_isFinite d.lastValue
  refine preserves_readDefinitions.bind fun n => ?_
  let row := DefinitionRow.ofDefinition n d
  exact preserves_upsert (fun r => { row with ordinal := r.ordinal }) row (hvalue n) fun _ _ => hvalue n

theorem preserves_placeAll (seen : List String) (n : Nat) (ds : List Definition) :
    Preserves Tables.IsFinite (placeAll seen n ds) := by
  induction ds generalizing seen n with
  | nil => exact preserves_pure ()
  | cons d ds ih =>
    rw [placeAll]
    split
    · exact preserves_throw _
    · refine Preserves.bind (preserves_upsert _ _ ?_ fun r hr => ?_) fun _ => ih _ _
      · exact Binary64.zero_isFinite
      · exact hr

theorem preserves_remove (id : String) : Preserves Tables.IsFinite (remove id) := by
  refine preserves_statement fun t a t' ht hrun => ?_
  obtain ⟨d, hd, hrun⟩ := present_bind_eq_ok.1 hrun
  cases hrun
  refine ⟨fun d' hd' r hr => ?_, fun rows hrows r hr => ?_⟩
  · cases hd'
    exact ht.definitions d hd r (List.mem_filter.1 hr).1
  · obtain ⟨rows', hrows', rfl⟩ := Option.map_eq_some_iff.1 hrows
    exact ht.snapshots rows' hrows' r (List.mem_filter.1 hr).1

theorem preserves_replaceCatalog (ds : List Definition) :
    Preserves Tables.IsFinite (replaceCatalog ds) :=
  Preserves.transaction <| preserves_readDefinitions.bind fun _ => (preserves_placeAll [] 0 ds).bind fun _ =>
    (preserves_forM preserves_remove).bind fun _ => preserves_pure _

theorem preserves_writeRefresh (id : String) (w : Write) :
    Preserves Tables.IsFinite (writeRefresh id w) := by
  refine preserves_writeDefinitions fun d a d' hd hrows r hr => ?_
  split at hd <;> cases hd
  obtain ⟨s, hs, rfl⟩ := List.mem_map.1 hr
  split
  · exact storedValue_isFinite _
  · exact hrows s hs

theorem preserves_addSnapshot {row : SnapshotRow} (h : row.value.isFinite = true) :
    Preserves Tables.IsFinite (addSnapshot row) := by
  refine preserves_statement fun t a t' ht hrun => ?_
  obtain ⟨rows, hrows, hrun⟩ := present_bind_eq_ok.1 hrun
  cases hrun
  refine ⟨ht.definitions, fun rows' hrows' r hr => ?_⟩
  cases hrows'
  rcases List.mem_append.1 hr with hr | hr
  · exact ht.snapshots rows hrows r hr
  · exact List.mem_singleton.1 hr ▸ h

theorem preserves_recordRefresh (id : String) (w : Write) :
    Preserves Tables.IsFinite (recordRefresh id w) := by
  have hsnapshot : Preserves Tables.IsFinite
      (addSnapshot ⟨id, storedValue w.value, w.error, w.at_.microText⟩) :=
    preserves_addSnapshot (storedValue_isFinite w.value)
  exact Preserves.transaction <| (preserves_writeRefresh id w).bind fun _ =>
    hsnapshot.bind fun _ => preserves_pure _

theorem preserves_prune (cutoff : String) : Preserves Tables.IsFinite (prune cutoff) := by
  refine Preserves.bind (preserves_statement fun t a t' ht hrun => ?_) fun _ =>
    Preserves.bind (preserves_statement fun t a t' ht hrun => ?_) fun _ =>
    Preserves.bind (preserves_statement fun t a t' ht hrun => ?_) fun _ => preserves_pure _
  · obtain ⟨rows, hrows, hrun⟩ := present_bind_eq_ok.1 hrun
    cases hrun
    refine ⟨ht.definitions, fun rows' hrows' r hr => ?_⟩
    cases hrows'
    exact ht.snapshots rows hrows r (List.mem_filter.1 hr).1
  · obtain ⟨rows, -, hrun⟩ := present_bind_eq_ok.1 hrun
    cases hrun
    exact ⟨ht.definitions, ht.snapshots⟩
  · cases hrun
    exact ht

theorem preserves_saveReport (r : Report) : Preserves Tables.IsFinite (saveReport r) := by
  refine preserves_statement fun t a t' ht hrun => ?_
  obtain ⟨rows, -, hrun⟩ := present_bind_eq_ok.1 hrun
  split at hrun <;> cases hrun
  exact ⟨ht.definitions, ht.snapshots⟩

/-- **No call puts a number into the tables that is not finite**, whatever it is given and however
it ends. -/
theorem Change.preserves_isFinite (x : Change) : x.work.Preserves Tables.IsFinite := by
  cases x with
  | edit e =>
    cases e with
    | save d => exact (preserves_save d).bind fun _ => preserves_pure _
    | replaceCatalog ds => exact (preserves_replaceCatalog ds).bind fun _ => preserves_pure _
    | recordRefresh id w => exact (preserves_recordRefresh id w).bind fun _ => preserves_pure _
  | prune cutoff => exact (preserves_prune cutoff).bind fun _ => preserves_pure _
  | saveReport r => exact (preserves_saveReport r).bind fun _ => preserves_pure _

end

end Store

/-! ## The storage of batches -/

namespace Storage

variable {s : Storage} {P : Store.Tables → Prop} (refusals : List Bool)

theorem run_preserves {α : Type} {work : Store.Work α} (h : work.Preserves P) (hs : P s.tables) :
    P (s.run refusals work).2.tables := h ⟨s.tables, refusals⟩ hs

theorem load_preserves (hs : P s.tables) : P (s.load refusals).2.tables := by
  unfold load
  split
  · exact hs
  · exact run_preserves refusals Store.Work.preserves_readDefinitions hs

theorem record_isFinite (id : String) (w : Write) (hs : s.tables.IsFinite) :
    (s.record refusals id w).2.tables.IsFinite := by
  unfold record
  split
  · exact hs
  · exact run_preserves refusals
      ((Store.preserves_recordRefresh id w).bind fun _ => Store.Work.preserves_pure ()) hs

theorem keep_isFinite (r : Report) (hs : s.tables.IsFinite) :
    (s.keep refusals r).2.tables.IsFinite := by
  unfold keep
  split
  · exact run_preserves refusals (Store.preserves_saveReport r) hs
  · exact hs
  · exact hs

end Storage

end MetricBoard
