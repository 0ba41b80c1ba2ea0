import MetricBoard.Proofs.Refresh.History
import MetricBoard.Proofs.Store.Finite

/-!
# Numbers that a batch reports

A number that is not finite may come from a server, stand in a definition that is saved, or be
recorded by hand. None of them gets any further: in every history of an engine whose store is
changed by calls only (`Engine.Rules.byCalls`), the values and the snapshots in the store are
finite, and so are the outcomes of every report that a task comes to
(`Engine.Rules.History.values_are_finite`). On its way to a report an outcome is held by the metric
that is about to end, then by the batch, and then by what runs the batch, so that the invariant
speaks of the engine and of what each task holds (`World.IsFinite`).
-/

namespace MetricBoard

/-! ## Holders of outcomes -/

/-- Whether a value that work came to is of a kind. -/
def Ended.All {α : Type} (P : α → Prop) : Ended α → Prop
  | value a => P a
  | _ => True

/-- All values of the outcomes are finite. -/
def Report.IsFinite (r : Report) : Prop := ∀ o ∈ r.outcomes, o.value.isFinite = true

/-- The outcome that a metric is about to leave behind is finite. -/
def Metric.IsFinite : Metric → Prop
  | leavingTarget o | leavingOverall o | ending o => ∀ x ∈ o, x.value.isFinite = true
  | _ => True

/-- The report that was made is finite. -/
def BatchRun.IsFinite : BatchRun → Prop
  | reporting r => r.IsFinite
  | _ => True

/-- The report of the batch that is run inside is finite. -/
def CatalogRun.IsFinite : CatalogRun → Prop
  | loading _ => True
  | running r => r.IsFinite

/-- The report that was made is finite. -/
def RunOnce.IsFinite : RunOnce → Prop
  | start => True
  | running c => c.IsFinite
  | publishing r => r.IsFinite
  | leaving result => result.All fun o => ∀ r ∈ o, r.IsFinite

/-- The report of the run that is inside is finite. -/
def RefreshLoop.IsFinite : RefreshLoop → Prop
  | running _ r => r.IsFinite
  | _ => True

/-- The outcomes that are held are finite. -/
def Activity.IsFinite : Activity → Prop
  | metric _ _ m => m.IsFinite
  | batch r => r.IsFinite
  | catalog c => c.IsFinite
  | runOnce r => r.IsFinite
  | refreshLoop l => l.IsFinite
  | _ => True

/-- The report that a task came to is finite. -/
def Result.IsFinite : Result → Prop
  | reported result => result.All fun o => ∀ r ∈ o, r.IsFinite
  | _ => True

/-- The numbers of the store, of the batches and of the last report are finite. -/
structure Engine.IsFinite (e : Engine) : Prop where
  tables : e.storage.tables.IsFinite
  outcomes : ∀ k ∈ e.batches, ∀ o, some o ∈ k.outcomes → o.value.isFinite = true
  lastReport : ∀ r ∈ e.scheduler.lastReport, r.IsFinite

/-- The engine is finite after a step, and so is what the task holds then. -/
structure EngineStep.IsFinite {σ ρ : Type} (P : σ → Prop) (Q : ρ → Prop) (s : EngineStep σ ρ) :
    Prop where
  engine : s.engine.IsFinite
  next : s.next.All P Q

theorem EngineStep.IsFinite.within {σ τ ρ ρ' : Type} {P : σ → Prop} {Q : ρ → Prop} {P' : τ → Prop}
    {Q' : ρ' → Prop} {inner : σ → τ} {after : ρ → Next τ ρ'} {s : EngineStep σ ρ}
    (h : s.IsFinite P Q) (hi : ∀ x, P x → P' (inner x)) (ha : ∀ r, Q r → (after r).All P' Q') :
    (s.within inner after).IsFinite P' Q' := ⟨h.engine, h.next.within hi ha⟩

/-! ## Steps -/

section Steps

variable {out : Outside} {t : TaskId} {e : Engine}

theorem Batch.isFinite_report {k : Batch} (h : ∀ o, some o ∈ k.outcomes → o.value.isFinite = true)
    (id : String) (now : Moment) : (k.report id now).IsFinite := by
  intro o ho
  obtain ⟨i, hi⟩ := List.getElem?_of_mem ho
  rw [report, List.getElem?_zipWith_eq_some] at hi
  obtain ⟨d, o', -, ho', rfl⟩ := hi
  cases o' with
  | none => exact Binary64.zero_isFinite
  | some o => exact h o (List.mem_of_getElem? ho')

/-- A batch is changed in a way that adds no outcome but a finite one. -/
theorem Engine.IsFinite.onBatch (h : e.IsFinite) (b : Nat) {f : Batch → Batch}
    (hf : ∀ k, ∀ o, some o ∈ (f k).outcomes → some o ∈ k.outcomes ∨ o.value.isFinite = true) :
    (e.onBatch b f).IsFinite where
  tables := h.tables
  outcomes k hk o ho := by
    obtain ⟨i, hi⟩ := List.getElem?_of_mem hk
    rw [Engine.onBatch, List.getElem?_modify] at hi
    obtain ⟨k', hk', rfl⟩ := Option.map_eq_some_iff.1 hi
    have hmem := List.mem_of_getElem? hk'
    split at ho
    · exact (hf k' o ho).elim (h.outcomes k' hmem o) id
    · exact h.outcomes k' hmem o ho
  lastReport := h.lastReport

theorem Engine.IsFinite.of_eq {e' : Engine} (h : e.IsFinite)
    (htables : e'.storage.tables = e.storage.tables) (hbatches : e'.batches = e.batches)
    (hreport : e'.scheduler.lastReport = e.scheduler.lastReport) : e'.IsFinite where
  tables := htables ▸ h.tables
  outcomes := hbatches ▸ h.outcomes
  lastReport := hreport ▸ h.lastReport

theorem Metric.outcome_isFinite (d : Definition) (x : Except Failure Binary64) (elapsedMs : Nat)
    (accepted : Bool) : (outcome d x elapsedMs accepted).value.isFinite = true := by
  cases x with
  | ok v => exact v.finiteOrZero_isFinite
  | error f => exact Binary64.zero_isFinite

theorem Metric.step_isFinite {b i : Nat} {k : Batch} {d : Definition} {m : Metric}
    {s : EngineStep Metric Unit} (he : e.IsFinite) (hm : m.IsFinite)
    (h : m.step out t b i k d e = some s) : s.IsFinite IsFinite fun _ => True := by
  have hcancelled : ∀ x ∈ some (Outcome.cancelled d), x.value.isFinite = true := by
    rintro _ ⟨⟩
    exact Binary64.zero_isFinite
  have hpermits : ∀ f : Batch → Batch, (∀ k, (f k).outcomes = k.outcomes) →
      (e.onBatch b f).IsFinite :=
    fun f hf => he.onBatch b fun k o ho => .inl (hf k ▸ ho)
  cases does_of_step h with
  | cancel | turnBack => exact ⟨he, hcancelled⟩
  | ask | enterTarget => exact ⟨hpermits _ fun _ => rfl, trivial⟩
  | withdrawTarget | withdrawOverall => exact ⟨hpermits _ fun _ => rfl, hcancelled⟩
  | enterOverall => exact ⟨he, trivial⟩
  | begin =>
    refine ⟨he, ?_⟩
    unfold Metric.begin
    split <;> trivial
  | @compute _ _ s' =>
    refine ⟨he.of_eq rfl rfl rfl,
      (Next.all_true s'.next).within (fun _ _ => trivial) fun x _ => ?_⟩
    cases x with
    | value | failure => trivial
    | brokeDown => exact fun _ hx => by cases hx
  | record =>
    refine ⟨⟨Storage.record_isFinite out.refusals _ _ he.tables, he.outcomes, he.lastReport⟩, ?_⟩
    rintro _ ⟨⟩
    exact outcome_isFinite d _ _ _
  | leaveTarget | leaveOverall => exact ⟨hpermits _ fun _ => rfl, hm⟩
  | finish =>
    refine ⟨he.onBatch b fun k x hx => ?_, trivial⟩
    rcases List.mem_or_eq_of_mem_set hx with hx | hx
    · exact .inl hx
    · exact .inr (hm x hx.symm)

theorem BatchRun.step_isFinite {r : BatchRun} {s : EngineStep BatchRun (Ended Report)}
    (he : e.IsFinite) (hr : r.IsFinite) (h : r.step out e = some s) :
    s.IsFinite IsFinite (Ended.All Report.IsFinite) := by
  cases does_of_step h with
  | reject | overflow | lose => exact ⟨he, trivial⟩
  | begin =>
    refine ⟨⟨he.tables, fun k hk o ho => ?_, he.lastReport⟩, trivial⟩
    rcases List.mem_append.1 hk with hk | hk
    · exact he.outcomes k hk o ho
    · obtain rfl := List.mem_singleton.1 hk
      simp [Batch.start] at ho
  | report hk => exact ⟨he, Batch.isFinite_report (he.outcomes _ (List.mem_of_getElem? hk)) _ _⟩
  | keep => exact ⟨⟨Storage.keep_isFinite out.refusals _ he.tables, he.outcomes, he.lastReport⟩, hr⟩

theorem CatalogRun.step_isFinite {c : CatalogRun} {s : EngineStep CatalogRun (Ended Report)}
    (he : e.IsFinite) (hc : c.IsFinite) (h : c.step out e = some s) :
    s.IsFinite IsFinite (Ended.All Report.IsFinite) := by
  cases does_of_step h with
  | load | fail =>
    have hload := Storage.load_preserves out.refusals he.tables
    exact ⟨⟨hload, he.outcomes, he.lastReport⟩, trivial⟩
  | run hs => exact (BatchRun.step_isFinite he hc hs).within (fun _ hx => hx) fun _ hx => hx

theorem RunOnce.step_isFinite {r : RunOnce} {s : EngineStep RunOnce (Ended (Option Report))}
    (he : e.IsFinite) (hr : r.IsFinite) (h : r.step out t e = some s) :
    s.IsFinite IsFinite (Ended.All fun o => ∀ r ∈ o, r.IsFinite) := by
  cases r with
  | start =>
    obtain ⟨-, rfl⟩ | ⟨-, rfl⟩ := step_start h
    · exact ⟨he, fun _ hr => by cases hr⟩
    · exact ⟨he.of_eq rfl rfl rfl, trivial⟩
  | running c =>
    obtain ⟨s', hs', rfl⟩ := Option.map_eq_some_iff.1 h
    refine (CatalogRun.step_isFinite he hr hs').within (fun _ hx => hx) fun x hx => ?_
    cases x with
    | value r => exact hx
    | error | brokeDown => trivial
  | publishing r =>
    cases h
    have hsome : ∀ x ∈ some r, x.IsFinite := by
      rintro _ ⟨⟩
      exact hr
    exact ⟨⟨he.tables, he.outcomes, hsome⟩, hsome⟩
  | leaving result =>
    cases h
    exact ⟨he.of_eq rfl rfl rfl, hr⟩

theorem RefreshLoop.step_isFinite {l : RefreshLoop} {s : EngineStep RefreshLoop Unit}
    (he : e.IsFinite) (hl : l.IsFinite) (h : l.step out t e = some s) :
    s.IsFinite IsFinite fun _ => True := by
  have hwake : ∀ (tick : Nat) (e' : Engine) (w : Wake), e'.IsFinite →
      (wake out t tick e' w).IsFinite IsFinite fun _ => True := fun tick e' w he' => by
    cases w with
    | stop => exact ⟨he'.of_eq rfl rfl rfl, trivial⟩
    | tick | ring => exact ⟨he', trivial⟩
  cases does_of_step h with
  | idle | listen => exact ⟨he.of_eq rfl rfl rfl, trivial⟩
  | start => exact ⟨he, trivial⟩
  | take | awake => exact hwake _ _ _ (he.of_eq rfl rfl rfl)
  | heed => exact hwake _ e _ he
  | run hs =>
    obtain ⟨hengine, hnext⟩ := RunOnce.step_isFinite he hl hs
    unfold afterBatch
    split <;> rename_i hn <;> rw [hn] at hnext
    · exact ⟨hengine.of_eq rfl rfl rfl, trivial⟩
    · exact ⟨hengine, trivial⟩
    · exact ⟨hengine, hnext⟩

theorem Engine.IsFinite.retain (he : e.IsFinite) (out : Outside) (days : Nat) :
    (e.retain out days).2.IsFinite := by
  unfold Engine.retain
  split
  · exact he
  · rename_i cutoff _
    have hprune := Storage.run_preserves out.refusals (Store.preserves_prune cutoff) he.tables
    split <;> rename_i heq <;> rw [heq] at hprune <;>
      exact ⟨hprune, he.outcomes, he.lastReport⟩

theorem RetentionLoop.step_isFinite {l : RetentionLoop} {s : EngineStep RetentionLoop Unit}
    (he : e.IsFinite) (h : l.step out t e = some s) : s.engine.IsFinite := by
  cases does_of_step h with
  | start => exact he
  | stop => exact he.of_eq rfl rfl rfl
  | breakDown => exact (he.retain out _).of_eq rfl rfl rfl
  | prune => exact he.retain out _

theorem Stop.step_isFinite {x : Stop} {s : EngineStep Stop Unit} (he : e.IsFinite)
    (h : x.step e = some s) : s.engine.IsFinite := by
  cases does_of_step h with
  | fire => exact he.of_eq rfl rfl rfl
  | finish => exact he

/-- A step of a task leads from finite numbers to finite numbers. -/
theorem Activity.step_isFinite {a : Activity} {s : EngineStep Activity Result} (he : e.IsFinite)
    (ha : a.IsFinite) (h : a.step out t e = some s) : s.IsFinite IsFinite Result.IsFinite := by
  have hreported : ∀ x : Ended Report, x.All Report.IsFinite → (reported x).IsFinite :=
    fun x hx => by
      cases x with
      | value r =>
        rintro _ ⟨⟩
        exact hx
      | error | brokeDown => trivial
  cases a with
  | call c =>
    obtain ⟨s', -, rfl⟩ := Option.map_eq_some_iff.1 h
    exact ⟨he.of_eq rfl rfl rfl,
      (Next.all_true s'.next).within (fun _ _ => trivial) fun _ _ => trivial⟩
  | metric b i m =>
    obtain ⟨k, d, s', -, -, hs', rfl⟩ | rfl := step_metric h
    · exact (Metric.step_isFinite he ha hs').within (fun _ hx => hx) fun _ _ => trivial
    · exact ⟨he, trivial⟩
  | batch r =>
    obtain ⟨s', hs', rfl⟩ := Option.map_eq_some_iff.1 h
    exact (BatchRun.step_isFinite he ha hs').within (fun _ hx => hx) hreported
  | catalog c =>
    obtain ⟨s', hs', rfl⟩ := Option.map_eq_some_iff.1 h
    exact (CatalogRun.step_isFinite he ha hs').within (fun _ hx => hx) hreported
  | runOnce r =>
    obtain ⟨s', hs', rfl⟩ := Option.map_eq_some_iff.1 h
    exact (RunOnce.step_isFinite he ha hs').within (fun _ hx => hx) fun _ hx => hx
  | refreshLoop l =>
    obtain ⟨s', hs', rfl⟩ := Option.map_eq_some_iff.1 h
    exact (RefreshLoop.step_isFinite he ha hs').within (fun _ hx => hx) fun _ _ => trivial
  | retentionLoop l =>
    obtain ⟨s', hs', rfl⟩ := Option.map_eq_some_iff.1 h
    exact ⟨RetentionLoop.step_isFinite he hs',
      (Next.all_true s'.next).within (fun _ _ => trivial) fun _ _ => trivial⟩
  | stop x =>
    obtain ⟨s', hs', rfl⟩ := Option.map_eq_some_iff.1 h
    exact ⟨Stop.step_isFinite he hs',
      (Next.all_true s'.next).within (fun _ _ => trivial) fun _ _ => trivial⟩

end Steps

theorem Activity.isFinite_of_isEntry {a : Activity} (h : a.isEntry = true) : a.IsFinite := by
  unfold isEntry at h
  split at h <;> trivial

theorem Spawn.isFinite (p : Spawn) : p.activity.IsFinite := by
  cases p <;> trivial

/-! ## Histories -/

/-- An engine starts with finite numbers in its store, as those of a fresh store are; then the store
is changed by calls, of which any statement may be refused. -/
def Engine.Rules.byCalls : Engine.Rules where
  starts e := e.batches = [] ∧ e.scheduler.lastReport = none ∧ e.storage.tables.IsFinite
  changes e e' := e'.batches = e.batches ∧ e'.scheduler.lastReport = e.scheduler.lastReport ∧
    (e'.storage.tables = e.storage.tables ∨ ∃ (x : Store.Change) (refusals : List Bool),
      e'.storage.tables = (x.work ⟨e.storage.tables, refusals⟩).2.tables)
  batches_of_starts _ h := h.1
  batches_of_changes _ _ h := h.1

/-- The numbers of the engine are finite, and those that the tasks hold. -/
structure World.IsFinite (w : World) : Prop where
  engine : w.engine.IsFinite
  activities : ∀ t a, w.activity? t = some a → a.IsFinite

namespace World

variable {w w' : World} {out : Outside} {t : TaskId} {res : Option Result}

theorem isFinite_idle {e : Engine} (h : Engine.Rules.byCalls.starts e) :
    World.IsFinite ⟨e, []⟩ := by
  obtain ⟨hbatches, hreport, htables⟩ := h
  exact ⟨⟨htables, fun k hk => by simp [hbatches] at hk, fun r hr => by simp [hreport] at hr⟩,
    fun _ _ ha => by cases ha⟩

theorem IsFinite.change (hw : w.IsFinite) {e : Engine}
    (h : Engine.Rules.byCalls.changes w.engine e) : World.IsFinite { w with engine := e } := by
  obtain ⟨hbatches, hreport, htables | ⟨x, refusals, htables⟩⟩ := h
  · exact ⟨hw.engine.of_eq htables hbatches hreport, hw.activities⟩
  · exact ⟨⟨htables ▸ x.preserves_isFinite ⟨_, refusals⟩ hw.engine.tables,
      hbatches ▸ hw.engine.outcomes, hreport ▸ hw.engine.lastReport⟩, hw.activities⟩

theorem IsFinite.step (hw : w.IsFinite) (h : w.step out t = some (w', res)) :
    w'.IsFinite ∧ ∀ x ∈ res, x.IsFinite := by
  obtain ⟨a, s, ha, hs, rfl, rfl⟩ := step_eq_some h
  obtain ⟨hengine, hnext⟩ := Activity.step_isFinite hw.engine (hw.activities t a ha) hs
  refine ⟨⟨hengine, all_after (lt_of_activity? ha) hw.activities hnext Spawn.isFinite⟩, ?_⟩
  cases hn : s.next with
  | stage => exact fun x hx => by cases hx
  | done x =>
    rw [hn] at hnext
    rintro _ ⟨⟩
    exact hnext

end World

namespace Engine.Rules.History

variable {xs : List Move} {w : World}

/-- **No number that is not finite reaches the store or a report**, whatever the servers answer and
whatever is saved or recorded: the value of each definition and of each snapshot is finite, and
those of the outcomes of each report that a task comes to. -/
theorem values_are_finite (h : Engine.Rules.byCalls.History xs w) :
    (∀ d, w.engine.storage.tables.definitions = some d →
        ∀ r ∈ d.rows, r.lastValue.isFinite = true) ∧
      (∀ rows, w.engine.storage.tables.snapshots = some rows →
        ∀ r ∈ rows, r.value.isFinite = true) ∧
      ∀ x ∈ xs, ∀ r, x.result = some (.reported (.value (some r))) →
        ∀ o ∈ r.outcomes, o.value.isFinite = true := by
  obtain ⟨hw, hmoves⟩ := h.invariant (P := World.IsFinite) (fun _ => World.isFinite_idle)
    (fun _ _ ha hv => ⟨hv.engine, World.all_spawn hv.activities (Activity.isFinite_of_isEntry ha)⟩)
    (fun _ _ he hv => hv.change he) fun _ _ _ _ _ _ hstep hv => (hv.step hstep).1
  refine ⟨hw.engine.tables.definitions, hw.engine.tables.snapshots, fun x hx r hr => ?_⟩
  obtain ⟨hbefore, hstep⟩ := hmoves x hx
  exact (hbefore.step hstep).2 _ hr r rfl

/-! ### A batch of numbers that are not finite -/

/-- A metric whose value is infinite. -/
def unbounded (id : String) : Definition :=
  ⟨id, "", "", .relational, none, "COUNT(*) FROM t", .infinity true, none, none⟩

/-- An engine of which a call has changed the store. -/
def called (e : Engine) (x : Store.Change) : Engine :=
  { e with storage.tables := (x.work ⟨e.storage.tables, []⟩).2.tables }

/-- The calls save two metrics with an infinite value, and record another one of the first. -/
def spoilt : Engine :=
  [.save (unbounded "total"), .save (unbounded "count"),
    .recordRefresh "total" ⟨.infinity false, none, .epoch⟩].foldl
      (fun e x => called e (.edit x)) { router := .relationalOnly }

/-- The server answers the first metric with a number beyond all that are finite. -/
def overflowing : List Cue :=
  let steps (t n : Nat) : List Cue := List.replicate n (.move t (.answering none))
  let rows (t : Nat) (c : Cell) : Cue :=
    .move t (.answering (some (.rows [.ofPairs [("value", c)]])))
  List.flatten
    [[.begin (.batch (.start [unbounded "total", unbounded "count"] .never))], steps 0 1,
      steps 1 7, [.move 1 (.answering (some .connected))], steps 1 4,
      [rows 1 (.decimal "1e999")], steps 1 5, steps 2 9, [rows 2 (.int 7)], steps 2 5, steps 0 2]

/-- The report of the batch. -/
def overflowed : Report :=
  ⟨"", .epoch, .epoch, [⟨"total", .relational, true, .zero, none, none, 0, true⟩,
    ⟨"count", .relational, true, .ofInt 7, none, none, 0, true⟩]⟩

theorem history_spoilt : byCalls.History [] ⟨spoilt, []⟩ := by
  have hcall : ∀ {e : Engine} (x : Store.Change), byCalls.History [] ⟨e, []⟩ →
      byCalls.History [] ⟨called e x, []⟩ :=
    fun x h => h.change ⟨rfl, rfl, .inr ⟨x, [], rfl⟩⟩
  exact hcall _ (hcall _ (hcall _ (.idle ⟨rfl, rfl, Store.Tables.isFinite_fresh⟩)))

/-- Zero stands for each of the numbers that are not finite. -/
theorem values_are_finite_overflowing :
    let p := overflowing.foldl Cue.follow ([], ⟨spoilt, []⟩)
    (∃ x ∈ p.1, x.result = some (.reported (.value (some overflowed))) ∧
        ∀ o ∈ overflowed.outcomes, o.value.isFinite = true) ∧
      (∃ d, p.2.engine.storage.tables.definitions = some d ∧
        d.rows.map Store.DefinitionRow.lastValue = [.zero, .ofInt 7] ∧
        ∀ r ∈ d.rows, r.lastValue.isFinite = true) ∧
      ∃ rows, p.2.engine.storage.tables.snapshots = some rows ∧
        rows.map Store.SnapshotRow.value = [.zero, .zero, .ofInt 7] ∧
        ∀ r ∈ rows, r.value.isFinite = true := by
  intro p
  have h : byCalls.History p.1 p.2 :=
    follow (p := ([], ⟨spoilt, []⟩)) history_spoilt overflowing
  obtain ⟨hdefinitions, hsnapshots, hreports⟩ := values_are_finite h
  have hlast : p.1.getLast?.bind Move.result = some (.reported (.value (some overflowed))) := by
    decide +kernel
  obtain ⟨x, hx, hresult⟩ := Option.bind_eq_some_iff.1 hlast
  have hmem := List.mem_of_getLast? hx
  have hrows : p.2.engine.storage.tables.definitions.map
      (fun d => d.rows.map Store.DefinitionRow.lastValue) = some [.zero, .ofInt 7] := by
    decide +kernel
  have hhistory : p.2.engine.storage.tables.snapshots.map
      (List.map Store.SnapshotRow.value) = some [.zero, .zero, .ofInt 7] := by
    decide +kernel
  obtain ⟨d, hd, hd'⟩ := Option.map_eq_some_iff.1 hrows
  obtain ⟨rows, hr, hr'⟩ := Option.map_eq_some_iff.1 hhistory
  exact ⟨⟨x, hmem, hresult, hreports x hmem _ hresult⟩, ⟨d, hd, hd', hdefinitions d hd⟩,
    rows, hr, hr', hsnapshots rows hr⟩

end Engine.Rules.History

end MetricBoard
