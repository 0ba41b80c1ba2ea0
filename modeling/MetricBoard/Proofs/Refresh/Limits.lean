import MetricBoard.Proofs.Moment.ReadBack
import MetricBoard.Proofs.Refresh.History
import MetricBoard.Proofs.Store.Calls
import MetricBoard.Refresh.Setup

/-!
# The limits of a configuration

The settings of a configuration size what its engine makes while it runs: the permits of a batch,
the interval of the refresh loop, and the time before which the history is pruned. A batch breaks
down where there are too many permits, and a loop where there is no interval, or no moment that long
ago. In no history of an engine of an accepted configuration does that happen from 1970 to 9999 if,
and only if, both limits on a batch are at most `maxPermits` and the retention, counted back from
1970, does not leave the range of moments (`Config.runs_iff`).
-/

namespace MetricBoard

/-! ## Moments to prune from -/

namespace Moment

/-- Whether a moment lies in the years 1970 to 9999. -/
def IsCurrent (m : Moment) : Prop := 1970 ≤ m.date.year ∧ m.date.year ≤ 9999

theorem isCurrent_epoch : epoch.IsCurrent := by
  constructor <;> decide

theorem IsCurrent.day_nonneg {m : Moment} (h : m.IsCurrent) : 0 ≤ m.day := by
  obtain ⟨hmonth, hmonth', hday, hday'⟩ := Date.ofDay_exists m.day
  have htoDay := Date.toDay_ofDay m.day
  obtain ⟨hyear, -⟩ := h
  rw [date] at hyear
  generalize Date.ofDay m.day = d at *
  unfold Date.toDay at htoDay
  dsimp only at htoDay
  split at htoDay <;> omega

end Moment

/-- The most days that can be counted back from 1 January 1970. -/
def maxRetentionDays : Nat := 96465292

theorem Store.cutoff?_eq_none_iff {now : Moment} {days : Nat} :
    Store.cutoff? now days = none ↔ now.day + maxRetentionDays < days := by
  have hfirst : Moment.firstDay = -96465292 := by decide
  rw [cutoff?, Option.map_eq_none_iff, Moment.minusDays?, maxRetentionDays]
  split
  · exact iff_of_false (Option.some_ne_none _) (by omega)
  · exact iff_of_true rfl (by omega)

/-! ## Settings are kept -/

/-- Two engines run by the same settings. -/
structure Engine.SameSettings (e e' : Engine) : Prop where
  options : e'.options = e.options
  intervalMs : e'.scheduler.intervalMs = e.scheduler.intervalMs
  retentionDays : e'.scheduler.retentionDays = e.scheduler.retentionDays

section Settings

variable {out : Outside} {t : TaskId} {e : Engine}

theorem Engine.SameSettings.refl (e : Engine) : e.SameSettings e := ⟨rfl, rfl, rfl⟩

theorem Engine.SameSettings.trans {e₁ e₂ e₃ : Engine} (h : e₁.SameSettings e₂)
    (h' : e₂.SameSettings e₃) : e₁.SameSettings e₃ :=
  ⟨h'.options.trans h.options, h'.intervalMs.trans h.intervalMs,
    h'.retentionDays.trans h.retentionDays⟩

theorem Metric.step_sameSettings {b i : Nat} {k : Batch} {d : Definition} {m : Metric}
    {s : EngineStep Metric Unit} (h : m.step out t b i k d e = some s) :
    e.SameSettings s.engine := by
  rcases step_engine h with ⟨f, hs⟩ | ⟨r, hs⟩ | ⟨_, _, -, hs⟩ <;> rw [hs] <;>
    exact ⟨rfl, rfl, rfl⟩

theorem BatchRun.step_sameSettings {r : BatchRun} {s : EngineStep BatchRun (Ended Report)}
    (h : r.step out e = some s) : e.SameSettings s.engine := by
  cases does_of_step h <;> exact ⟨rfl, rfl, rfl⟩

theorem CatalogRun.step_sameSettings {r : CatalogRun} {s : EngineStep CatalogRun (Ended Report)}
    (h : r.step out e = some s) : e.SameSettings s.engine := by
  cases does_of_step h with
  | load | fail => exact ⟨rfl, rfl, rfl⟩
  | run hs => exact BatchRun.step_sameSettings hs

theorem RunOnce.step_sameSettings {r : RunOnce} {s : EngineStep RunOnce (Ended (Option Report))}
    (h : r.step out t e = some s) : e.SameSettings s.engine := by
  cases r with
  | start =>
    obtain ⟨-, rfl⟩ | ⟨-, rfl⟩ := step_start h <;> exact ⟨rfl, rfl, rfl⟩
  | running c =>
    obtain ⟨s', hs', rfl⟩ := Option.map_eq_some_iff.1 h
    exact CatalogRun.step_sameSettings hs'
  | publishing | leaving =>
    cases h
    exact ⟨rfl, rfl, rfl⟩

theorem RefreshLoop.step_sameSettings {l : RefreshLoop} {s : EngineStep RefreshLoop Unit}
    (h : l.step out t e = some s) : e.SameSettings s.engine := by
  have hwake : ∀ (tick : Nat) (e' : Engine) (w : Wake), e.SameSettings e' →
      e.SameSettings (wake out t tick e' w).engine := fun tick e' w he => by
    cases w with
    | stop => exact he.trans ⟨rfl, rfl, rfl⟩
    | tick | ring => exact he
  cases does_of_step h with
  | idle | start | listen => exact ⟨rfl, rfl, rfl⟩
  | take | heed | awake => exact hwake _ _ _ ⟨rfl, rfl, rfl⟩
  | run hs =>
    have hrun := RunOnce.step_sameSettings hs
    unfold afterBatch
    split
    · exact hrun.trans ⟨rfl, rfl, rfl⟩
    · exact hrun
    · exact hrun

theorem Engine.sameSettings_retain (out : Outside) (e : Engine) (days : Nat) :
    e.SameSettings (e.retain out days).2 := by
  unfold retain
  split
  · exact .refl e
  · split <;> exact ⟨rfl, rfl, rfl⟩

theorem RetentionLoop.step_sameSettings {l : RetentionLoop} {s : EngineStep RetentionLoop Unit}
    (h : l.step out t e = some s) : e.SameSettings s.engine := by
  have hretain := Engine.sameSettings_retain out e e.scheduler.retentionDays
  cases does_of_step h with
  | start => exact .refl e
  | stop => exact ⟨rfl, rfl, rfl⟩
  | breakDown => exact hretain.trans ⟨rfl, rfl, rfl⟩
  | prune => exact hretain

theorem Stop.step_sameSettings {x : Stop} {s : EngineStep Stop Unit} (h : x.step e = some s) :
    e.SameSettings s.engine := by
  cases does_of_step h <;> exact ⟨rfl, rfl, rfl⟩

/-- No task changes the settings. -/
theorem Activity.step_sameSettings {a : Activity} {s : EngineStep Activity Result}
    (h : a.step out t e = some s) : e.SameSettings s.engine := by
  cases a with
  | call c =>
    obtain ⟨s', -, rfl⟩ := Option.map_eq_some_iff.1 h
    exact ⟨rfl, rfl, rfl⟩
  | metric b i m =>
    obtain ⟨k, d, s', -, -, hs', rfl⟩ | rfl := step_metric h
    · exact Metric.step_sameSettings hs'
    · exact .refl e
  | batch r =>
    obtain ⟨s', hs', rfl⟩ := Option.map_eq_some_iff.1 h
    exact BatchRun.step_sameSettings hs'
  | catalog r =>
    obtain ⟨s', hs', rfl⟩ := Option.map_eq_some_iff.1 h
    exact CatalogRun.step_sameSettings hs'
  | runOnce r =>
    obtain ⟨s', hs', rfl⟩ := Option.map_eq_some_iff.1 h
    exact RunOnce.step_sameSettings hs'
  | refreshLoop l =>
    obtain ⟨s', hs', rfl⟩ := Option.map_eq_some_iff.1 h
    exact RefreshLoop.step_sameSettings hs'
  | retentionLoop l =>
    obtain ⟨s', hs', rfl⟩ := Option.map_eq_some_iff.1 h
    exact RetentionLoop.step_sameSettings hs'
  | stop x =>
    obtain ⟨s', hs', rfl⟩ := Option.map_eq_some_iff.1 h
    exact Stop.step_sameSettings hs'

end Settings

/-! ## What has not broken down -/

/-- Whether work came to something. -/
def Ended.Stands {α : Type} : Ended α → Prop
  | brokeDown => False
  | _ => True

/-- Whether a batch that is waited for is one of the first `n`. -/
def BatchRun.Stands (n : Nat) : BatchRun → Prop
  | joining b => b < n
  | _ => True

/-- Whether the batch that is run inside stands. -/
def CatalogRun.Stands (n : Nat) : CatalogRun → Prop
  | loading _ => True
  | running r => r.Stands n

/-- Whether the batch that is run inside stands, and has not broken down. -/
def RunOnce.Stands (n : Nat) : RunOnce → Prop
  | running c => c.Stands n
  | leaving result => result.Stands
  | _ => True

/-- Whether the run that is inside stands. -/
def RefreshLoop.Stands (n : Nat) : RefreshLoop → Prop
  | running _ r => r.Stands n
  | _ => True

/-- Whether nothing in an activity has broken down, where there are `n` batches. -/
def Activity.Stands (n : Nat) : Activity → Prop
  | batch r => r.Stands n
  | catalog c => c.Stands n
  | runOnce r => r.Stands n
  | refreshLoop l => l.Stands n
  | _ => True

/-- Whether an activity goes on until the scheduler is stopped. -/
def Activity.isEndless : Activity → Bool
  | refreshLoop _ | retentionLoop _ => true
  | _ => false

/-- Whether a result is not that of a batch that has broken down. -/
def Result.Stands : Result → Prop
  | reported r => r.Stands
  | _ => True

section Stands

variable {out : Outside} {t : TaskId} {e : Engine} {n n' : Nat} {a : Activity}

theorem Activity.stands_of_isEntry (h : a.isEntry = true) : a.Stands n := by
  unfold isEntry at h
  split at h <;> trivial

theorem Spawn.stands (p : Spawn) : p.activity.Stands n := by
  cases p <;> trivial

theorem BatchRun.Stands.mono {r : BatchRun} (h : r.Stands n) (hn : n ≤ n') : r.Stands n' := by
  cases r with
  | joining b => exact Nat.lt_of_lt_of_le h hn
  | start | reporting => trivial

theorem CatalogRun.Stands.mono {c : CatalogRun} (h : c.Stands n) (hn : n ≤ n') :
    c.Stands n' := by
  cases c with
  | loading => trivial
  | running r => exact BatchRun.Stands.mono h hn

theorem RunOnce.Stands.mono {r : RunOnce} (h : r.Stands n) (hn : n ≤ n') : r.Stands n' := by
  cases r with
  | running c => exact CatalogRun.Stands.mono h hn
  | leaving => exact h
  | start | publishing => trivial

theorem Activity.Stands.mono (h : a.Stands n) (hn : n ≤ n') : a.Stands n' := by
  cases a with
  | batch r => exact BatchRun.Stands.mono h hn
  | catalog c => exact CatalogRun.Stands.mono h hn
  | runOnce r => exact RunOnce.Stands.mono h hn
  | refreshLoop l =>
    cases l with
    | running tick r => exact RunOnce.Stands.mono h hn
    | start | looking | waiting => trivial
  | call | metric | retentionLoop | stop => trivial

/-- With permits to hand out, a batch does not break down. -/
theorem BatchRun.step_stands {admission : Admission}
    (hadmits : Admission.ofOptions? e.options = some admission) {r : BatchRun}
    (hr : r.Stands e.batches.length) {s : EngineStep BatchRun (Ended Report)}
    (h : r.step out e = some s) :
    s.next.All (Stands s.engine.batches.length) Ended.Stands := by
  cases does_of_step h with
  | reject | report | keep => trivial
  | overflow _ hnone => cases hadmits.symm.trans hnone
  | begin => simp [Next.All, Stands]
  | @lose b hnone =>
    have hb : b < e.batches.length := hr
    simp [List.getElem?_eq_getElem hb] at hnone

theorem CatalogRun.step_stands {admission : Admission}
    (hadmits : Admission.ofOptions? e.options = some admission) {c : CatalogRun}
    (hc : c.Stands e.batches.length) {s : EngineStep CatalogRun (Ended Report)}
    (h : c.step out e = some s) :
    s.next.All (Stands s.engine.batches.length) Ended.Stands := by
  cases does_of_step h with
  | load | fail => trivial
  | run hs =>
    exact (BatchRun.step_stands hadmits hc hs).within (fun _ hx => hx) fun _ hx => hx

theorem RunOnce.step_stands {admission : Admission}
    (hadmits : Admission.ofOptions? e.options = some admission) {r : RunOnce}
    (hr : r.Stands e.batches.length) {s : EngineStep RunOnce (Ended (Option Report))}
    (h : r.step out t e = some s) :
    s.next.All (Stands s.engine.batches.length) Ended.Stands := by
  cases r with
  | start =>
    obtain ⟨-, rfl⟩ | ⟨-, rfl⟩ := step_start h <;> trivial
  | running c =>
    obtain ⟨s', hs', rfl⟩ := Option.map_eq_some_iff.1 h
    refine (CatalogRun.step_stands hadmits hr hs').within (fun _ hx => hx) fun x hx => ?_
    cases x <;> exact hx
  | publishing r =>
    cases h
    trivial
  | leaving result =>
    cases h
    exact hr

/-- The loop that runs batches ends only if it is stopped, or has no interval. -/
theorem RefreshLoop.step_stands {admission : Admission}
    (hadmits : Admission.ofOptions? e.options = some admission) {l : RefreshLoop}
    (hl : l.Stands e.batches.length) {s : EngineStep RefreshLoop Unit}
    (h : l.step out t e = some s) :
    s.next.All (Stands s.engine.batches.length)
      fun _ => e.isFired .shutdown = true ∨ e.scheduler.intervalMs = 0 := by
  have hwake : ∀ (tick : Nat) (e' : Engine) (w : Wake), (w = .stop → e.isFired .shutdown = true) →
      (wake out t tick e' w).next.All (Stands (wake out t tick e' w).engine.batches.length)
        fun _ => e.isFired .shutdown = true ∨ e.scheduler.intervalMs = 0 := fun tick e' w hw => by
    cases w with
    | stop => exact Or.inl (hw rfl)
    | tick | ring => trivial
  cases does_of_step h with
  | idle hidle => exact Or.inr hidle
  | start | listen => trivial
  | take => exact hwake _ _ .ring Wake.noConfusion
  | heed hfind => exact hwake _ e _ fun hw => by simpa [hw, isThere] using List.find?_some hfind
  | awake hfind => exact hwake _ _ _ fun hw => by simpa [hw, hasCome] using List.find?_some hfind
  | run hs' =>
    have hs := RunOnce.step_stands hadmits hl hs'
    unfold afterBatch
    split <;> rename_i hn <;> rw [hn] at hs
    · exact hs.elim
    · trivial
    · exact hs

/-- The loop that prunes the history ends only if it is stopped, or there is no moment to prune
from. -/
theorem RetentionLoop.ends {l : RetentionLoop} {s : EngineStep RetentionLoop Unit}
    (h : l.step out t e = some s) (hdone : s.next = .done ()) :
    e.isFired .shutdown = true ∨ Store.cutoff? out.now e.scheduler.retentionDays = none := by
  cases does_of_step h with
  | stop hfired => exact .inl hfired
  | breakDown _ _ hretain =>
    simp only [Engine.retain] at hretain
    split at hretain
    · exact .inr ‹_›
    · split at hretain <;> cases hretain
  | start | prune => cases hdone

/-- No batch breaks down with a step of a task, and a loop ends only if it is stopped, or if it has
no interval or nothing to prune from. -/
theorem Activity.step_stands {admission : Admission}
    (hadmits : Admission.ofOptions? e.options = some admission)
    (ha : a.Stands e.batches.length) {s : EngineStep Activity Result}
    (h : a.step out t e = some s) :
    s.next.All (Stands s.engine.batches.length) fun r => r.Stands ∧
      (a.isEndless = true → e.isFired .shutdown = true ∨ e.scheduler.intervalMs = 0 ∨
        Store.cutoff? out.now e.scheduler.retentionDays = none) := by
  have hreported : ∀ x : Ended Report, x.Stands → (reported x).Stands := fun x hx => by
    cases x <;> exact hx
  cases a with
  | call c =>
    obtain ⟨s', -, rfl⟩ := Option.map_eq_some_iff.1 h
    exact (Next.all_true s'.next).within (fun _ _ => trivial) fun _ _ => ⟨trivial, Bool.noConfusion⟩
  | metric b i m =>
    obtain ⟨k, d, s', -, -, -, rfl⟩ | rfl := step_metric h
    · exact (Next.all_true s'.next).within (fun _ _ => trivial)
        fun _ _ => ⟨trivial, Bool.noConfusion⟩
    · exact ⟨trivial, Bool.noConfusion⟩
  | batch r =>
    obtain ⟨s', hs', rfl⟩ := Option.map_eq_some_iff.1 h
    exact (BatchRun.step_stands hadmits ha hs').within (fun _ hx => hx)
      fun x hx => ⟨hreported x hx, Bool.noConfusion⟩
  | catalog c =>
    obtain ⟨s', hs', rfl⟩ := Option.map_eq_some_iff.1 h
    exact (CatalogRun.step_stands hadmits ha hs').within (fun _ hx => hx)
      fun x hx => ⟨hreported x hx, Bool.noConfusion⟩
  | runOnce r =>
    obtain ⟨s', hs', rfl⟩ := Option.map_eq_some_iff.1 h
    exact (RunOnce.step_stands hadmits ha hs').within (fun _ hx => hx)
      fun x hx => ⟨hx, Bool.noConfusion⟩
  | refreshLoop l =>
    obtain ⟨s', hs', rfl⟩ := Option.map_eq_some_iff.1 h
    exact (RefreshLoop.step_stands hadmits ha hs').within (fun _ hx => hx)
      fun _ hx => ⟨trivial, fun _ => hx.imp_right .inl⟩
  | retentionLoop l =>
    obtain ⟨s', hs', rfl⟩ := Option.map_eq_some_iff.1 h
    have hends := RetentionLoop.ends hs'
    unfold EngineStep.within
    cases hn : s'.next with
    | stage => trivial
    | done => exact ⟨trivial, fun _ => (hends hn).imp_right .inr⟩
  | stop x =>
    obtain ⟨s', -, rfl⟩ := Option.map_eq_some_iff.1 h
    exact (Next.all_true s'.next).within (fun _ _ => trivial) fun _ _ => ⟨trivial, Bool.noConfusion⟩

end Stands

/-! ## Histories of a configuration -/

/-- An engine is made from the configuration, and keeps its settings. -/
def Config.rules (c : Config) : Engine.Rules where
  starts e := ∃ environment drivers tables, e = c.engine environment drivers tables
  changes e e' := e'.batches = e.batches ∧ e.SameSettings e'
  batches_of_starts _ := by
    rintro ⟨_, _, _, rfl⟩
    rfl
  batches_of_changes _ _ h := h.1

/-- Whether a step is the end of what should not end: a batch that has broken down, or a loop that
nobody has stopped. -/
def Move.BreaksDown (x : Move) : Prop :=
  x.result = some (.reported .brokeDown) ∨
    x.result.isSome = true ∧ (x.before.activity? x.task).any Activity.isEndless = true ∧
      x.before.engine.isFired .shutdown = false

/-- The engine runs by the settings of a configuration, and nothing has broken down. -/
structure World.Stands (c : Config) (w : World) : Prop where
  options : w.engine.options = c.refreshOptions
  intervalMs : w.engine.scheduler.intervalMs = c.intervalMs
  retentionDays : w.engine.scheduler.retentionDays = c.refresh.retentionDays
  activities : ∀ t a, w.activity? t = some a → a.Stands w.engine.batches.length

namespace World

variable {c : Config} {w w' : World} {out : Outside} {t : TaskId} {res : Option Result}

theorem BatchStep.length_le (h : w.BatchStep out t w') :
    w.engine.batches.length ≤ w'.engine.batches.length := by
  cases h with
  | metric _ _ _ hm =>
    obtain ⟨f, hf⟩ := Metric.step_batches hm
    rw [engine_after, hf, List.length_modify]
  | opening _ _ _ hbatches _ =>
    rw [engine_after, hbatches, List.length_append]
    exact Nat.le_add_right _ _
  | apart _ _ hbatches _ _ => rw [engine_after, hbatches]

theorem Stands.change (hw : w.Stands c) {e : Engine} (hbatches : e.batches = w.engine.batches)
    (he : w.engine.SameSettings e) : World.Stands c { w with engine := e } where
  options := he.options.trans hw.options
  intervalMs := he.intervalMs.trans hw.intervalMs
  retentionDays := he.retentionDays.trans hw.retentionDays
  activities u a ha := hbatches ▸ hw.activities u a ha

theorem Stands.begin (hw : w.Stands c) {a : Activity} (ha : a.isEntry = true) :
    (w.spawn [a]).Stands c where
  options := hw.options
  intervalMs := hw.intervalMs
  retentionDays := hw.retentionDays
  activities := all_spawn hw.activities (Activity.stands_of_isEntry ha)

/-- With permits to hand out, nothing breaks down with a step. -/
theorem Stands.step {admission : Admission}
    (hadmits : Admission.ofOptions? c.refreshOptions = some admission) (hw : w.Stands c)
    (hregular : w.Regular) (h : w.step out t = some (w', res)) : w'.Stands c := by
  have hlength := (hregular.batchStep h).length_le
  obtain ⟨a, s, ha, hs, rfl, -⟩ := step_eq_some h
  have hsettings := Activity.step_sameSettings hs
  have hnext := Activity.step_stands (hw.options ▸ hadmits) (hw.activities t a ha) hs
  exact ⟨hsettings.options.trans hw.options, hsettings.intervalMs.trans hw.intervalMs,
    hsettings.retentionDays.trans hw.retentionDays,
    all_after (lt_of_activity? ha) (fun u x hx => (hw.activities u x hx).mono hlength) hnext
      Spawn.stands⟩

/-- A step at which there is a moment to prune from does not break down. -/
theorem Stands.not_breaksDown {x : Move} {admission : Admission}
    (hadmits : Admission.ofOptions? c.refreshOptions = some admission) (hinterval : 0 < c.intervalMs)
    (hcutoff : Store.cutoff? x.outside.now c.refresh.retentionDays ≠ none)
    (hw : x.before.Stands c)
    (h : x.before.step x.outside x.task = some (x.after, x.result)) : ¬ x.BreaksDown := by
  obtain ⟨a, s, ha, hs, -, hres⟩ := step_eq_some h
  have hnext := Activity.step_stands (hw.options ▸ hadmits) (hw.activities _ a ha) hs
  rw [Move.BreaksDown, ha, hres]
  cases hn : s.next with
  | stage => simp [Next.result?]
  | done r =>
    rw [hn] at hnext
    obtain ⟨hr, hends⟩ := hnext
    rintro (hdown | ⟨-, hendless, hfired⟩)
    · cases hdown
      exact hr
    · rcases hends hendless with hstop | hzero | hnone
      · exact Bool.false_ne_true (hfired.symm.trans hstop)
      · rw [hw.intervalMs] at hzero
        omega
      · rw [hw.retentionDays] at hnone
        exact hcutoff hnone

end World

namespace Config

variable {c : Config}

theorem stands_idle {e : Engine} (h : c.rules.starts e) : World.Stands c ⟨e, []⟩ := by
  obtain ⟨_, _, _, rfl⟩ := h
  exact ⟨rfl, rfl, rfl, fun _ _ ha => by cases ha⟩

theorem intervalMs_pos (h : c.fault? = none) : 0 < c.intervalMs := by
  rw [fault?, Option.or_eq_none_iff, RefreshSettings.fault?] at h
  rw [intervalMs]
  split at h
  · cases h.1
  · omega

/-- The engine of a configuration with no server and a fresh store. -/
def bare (c : Config) : Engine := c.engine (fun _ => none) ⟨false, false⟩ .fresh

theorem history_bare : c.rules.History [] ⟨c.bare, []⟩ := .idle ⟨_, _, _, rfl⟩

/-- The first batch of an engine breaks down if its permits are too many. -/
theorem batch_breaksDown (h : Admission.ofOptions? c.refreshOptions = none) :
    ∃ xs w, c.rules.History xs w ∧ ∃ x ∈ xs, x.outside.now.IsCurrent ∧ x.BreaksDown := by
  have hbegun : c.rules.History [] (World.spawn ⟨c.bare, []⟩
      [.batch (.start [Store.orders] .never)]) := history_bare.begin rfl
  have hstep : (World.spawn ⟨c.bare, []⟩ [.batch (.start [Store.orders] .never)]).step
      (.answering none) 0 = some (⟨c.bare, [none]⟩, some (.reported .brokeDown)) := by
    have hvalid : Batch.validate [Store.orders] = .ok () := by decide
    have hoptions : c.bare.options = c.refreshOptions := rfl
    simp [World.step, World.activity?, World.spawn, Activity.step, BatchRun.step, hvalid, hoptions,
      h, EngineStep.within, Next.within, Activity.reported]
  exact ⟨_, _, hbegun.move hstep, _, List.mem_singleton_self _, Moment.isCurrent_epoch, Or.inl rfl⟩

/-- The loop that prunes the history breaks down at its first tick if it is to keep more days than
can be counted back. -/
theorem retention_breaksDown (h : maxRetentionDays < c.refresh.retentionDays) :
    ∃ xs w, c.rules.History xs w ∧ ∃ x ∈ xs, x.outside.now.IsCurrent ∧ x.BreaksDown := by
  have hbegun : c.rules.History [] ⟨c.bare, [some (.retentionLoop .start)]⟩ :=
    history_bare.begin rfl
  have hwaits : (World.mk c.bare [some (.retentionLoop .start)]).step (.answering none) 0 =
      some (⟨c.bare, [some (.retentionLoop (.waiting 0))]⟩, none) := rfl
  have hcutoff : Store.cutoff? .epoch c.bare.scheduler.retentionDays = none :=
    Store.cutoff?_eq_none_iff.2 (by
      change (0 : Int) + maxRetentionDays < (c.refresh.retentionDays : Int)
      omega)
  obtain ⟨e, hends⟩ : ∃ e, (World.mk c.bare [some (.retentionLoop (.waiting 0))]).step
      (.answering none) 0 = some (⟨e, [none]⟩, some .finished) := by
    have hfired : c.bare.isFired .shutdown = false := rfl
    have hnow : (Outside.answering none).now = .epoch := rfl
    simp [World.step, World.activity?, World.outside, Activity.step, RetentionLoop.step,
      Engine.retain, hfired, hnow, hcutoff, EngineStep.within, Next.within, RetentionLoop.finish]
  exact ⟨_, _, (hbegun.move hwaits).move hends, _,
    List.mem_append_right _ (List.mem_singleton_self _), Moment.isCurrent_epoch,
    Or.inr ⟨rfl, rfl, rfl⟩⟩

/-- **A configuration that is accepted can run exactly within its limits**: in no history of its
engine does anything break down from 1970 to 9999 if, and only if, the permits of a batch can be
handed out and the days to keep can be counted back. -/
theorem runs_iff (hc : c.fault? = none) :
    (∀ xs w, c.rules.History xs w → ∀ x ∈ xs, x.outside.now.IsCurrent → ¬ x.BreaksDown) ↔
      c.refresh.maxInFlight ≤ maxPermits ∧ c.refresh.relationalConcurrency ≤ maxPermits ∧
        c.refresh.retentionDays ≤ maxRetentionDays := by
  constructor
  · intro hruns
    have hpermits : ¬ Admission.ofOptions? c.refreshOptions = none := fun hnone => by
      obtain ⟨xs, w, h, x, hx, hcurrent, hdown⟩ := batch_breaksDown hnone
      exact hruns xs w h x hx hcurrent hdown
    have hdays : ¬ maxRetentionDays < c.refresh.retentionDays := fun hdays => by
      obtain ⟨xs, w, h, x, hx, hcurrent, hdown⟩ := retention_breaksDown hdays
      exact hruns xs w h x hx hcurrent hdown
    rw [Admission.ofOptions?_eq_none_iff, not_not] at hpermits
    exact ⟨hpermits.1, hpermits.2, Nat.le_of_not_lt hdays⟩
  · rintro ⟨hflight, hconcurrency, hdays⟩ xs w h x hx hcurrent
    obtain ⟨admission, hadmits⟩ := Option.ne_none_iff_exists'.1 fun hnone =>
      (Admission.ofOptions?_eq_none_iff (o := c.refreshOptions)).1 hnone ⟨hflight, hconcurrency⟩
    obtain ⟨hw, hstep⟩ := (h.invariant (P := World.Stands c) (fun _ => stands_idle)
      (fun _ _ ha hv => hv.begin ha) (fun _ _ he hv => hv.change he.1 he.2)
      fun _ _ _ _ _ hv hstep hw => hw.step hadmits hv hstep).2 x hx
    have hday := hcurrent.day_nonneg
    exact hw.not_breaksDown hadmits (intervalMs_pos hc)
      (fun hnone => by have := Store.cutoff?_eq_none_iff.1 hnone; omega) hstep

/-- Nothing breaks down under the default settings. -/
theorem runs_iff_default :
    ({} : Config).fault? = none ∧
      ∀ xs w, ({} : Config).rules.History xs w →
        ∀ x ∈ xs, x.outside.now.IsCurrent → ¬ x.BreaksDown :=
  ⟨by decide, (runs_iff (by decide)).2 (by decide)⟩

/-- A configuration that refreshes 2^61 metrics at a time is accepted, and its batches break down. -/
theorem not_runs_huge :
    ∃ c : Config, c.fault? = none ∧ c.refresh.maxInFlight = 2305843009213693952 ∧
      ∃ xs w, c.rules.History xs w ∧ ∃ x ∈ xs, x.outside.now.IsCurrent ∧ x.BreaksDown :=
  ⟨{ refresh := { maxInFlight := 2305843009213693952 } }, by decide, rfl,
    batch_breaksDown (by decide)⟩

end Config

end MetricBoard
