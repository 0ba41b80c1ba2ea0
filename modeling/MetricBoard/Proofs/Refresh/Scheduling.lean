import MetricBoard.Proofs.Refresh.Cancellation

/-!
# The batches of a scheduler follow each other

Whoever asks a scheduler for a batch, directly or through its loop, makes a run (`World.run?`). A
run that finds another one in progress is turned away at once; else it is in progress itself until
it leaves (`RunOnce.Does`). So one is at most, which is the one that the scheduler has noted, and
the last report is that of the batch that was the last to succeed (`Scheduled`,
`Service.scheduled`). As a run ends only when no metric of its batch is left, the batches do not
overlap either (`Operation.batch?_of_left`). All this is put together in
`Service.batches_take_turns`.
-/

namespace MetricBoard

/-! ## Runs -/

/-- The run that a loop is at. -/
def RefreshLoop.run? : RefreshLoop → Option RunOnce
  | running _ r => some r
  | _ => none

/-- The run of the scheduler that a task is at. -/
def Activity.run? : Activity → Option RunOnce
  | runOnce r => some r
  | refreshLoop l => l.run?
  | _ => none

/-- The run of the scheduler that a task is at. -/
def World.run? (w : World) (t : TaskId) : Option RunOnce := (w.activity? t).bind Activity.run?

namespace RunOnce

/-- Whether a run has not been turned away and is not over. -/
def isInProgress : RunOnce → Bool
  | start => false
  | _ => true

/-- A batch of the scheduler is cancelled by its shutdown, and ends with a report or an error. -/
def IsSound : RunOnce → Prop
  | running (.loading token) | running (.running (.start _ token)) => token = .shutdown
  | leaving (.value none) => False
  | _ => True

/-- What a run does with a step. -/
inductive Does (t : TaskId) (e : Engine) :
    RunOnce → EngineStep RunOnce (Ended (Option Report)) → Prop
  /-- It is turned away, as another one is in progress. -/
  | turnAway {u : TaskId} : e.scheduler.busy = some u →
    Does t e .start ⟨e, .done (.value none), []⟩
  | enter : e.scheduler.busy = none →
    Does t e .start ⟨e.onScheduler fun s => { s with busy := some t },
      .stage (.running (.loading .shutdown)), []⟩
  | work {c c' : CatalogRun} {e' : Engine} {ps : List Spawn} : e'.scheduler = e.scheduler →
    Does t e (.running c) ⟨e', .stage (.running c'), ps⟩
  /-- Its batch has made a report. -/
  | succeed {c : CatalogRun} {e' : Engine} {ps : List Spawn} {r : Report} :
    e'.scheduler = e.scheduler → Does t e (.running c) ⟨e', .stage (.publishing r), ps⟩
  /-- Its batch is rejected, or breaks down. -/
  | fail {c : CatalogRun} {e' : Engine} {ps : List Spawn} {res : Ended (Option Report)} :
    e'.scheduler = e.scheduler → (∀ o, res ≠ .value o) →
    Does t e (.running c) ⟨e', .stage (.leaving res), ps⟩
  | publish {r : Report} :
    Does t e (.publishing r) ⟨e.onScheduler fun s => { s with lastReport := some r },
      .stage (.leaving (.value (some r))), []⟩
  | leave {res : Ended (Option Report)} :
    Does t e (.leaving res) ⟨e.onScheduler fun s => { s with busy := none }, .done res, []⟩

variable {out : Outside} {t : TaskId} {e : Engine} {r : RunOnce}
  {s : EngineStep RunOnce (Ended (Option Report))}

theorem does_of_step (h : r.step out t e = some s) : Does t e r s := by
  cases r with
  | start =>
    obtain ⟨⟨u, hu⟩, rfl⟩ | ⟨hnone, rfl⟩ := step_start h
    · exact .turnAway hu
    · exact .enter hnone
  | running c =>
    obtain ⟨s', hs', rfl⟩ := Option.map_eq_some_iff.1 h
    have hoff := (CatalogRun.step_offside hs').scheduler
    cases hn : s'.next with
    | stage c' =>
      rw [EngineStep.within, hn]
      exact .work hoff
    | done y =>
      rw [EngineStep.within, hn]
      cases y with
      | value r => exact .succeed hoff
      | error fault => exact .fail hoff fun _ h => by cases h
      | brokeDown => exact .fail hoff fun _ h => by cases h
  | publishing r =>
    cases h
    exact .publish
  | leaving res =>
    cases h
    exact .leave

theorem step_isSound (h : r.step out t e = some s) (hr : r.IsSound) :
    s.next.All IsSound fun _ => True := by
  cases r with
  | start =>
    obtain ⟨-, rfl⟩ | ⟨-, rfl⟩ := step_start h
    · trivial
    · exact rfl
  | running c =>
    obtain ⟨s', hs', rfl⟩ := Option.map_eq_some_iff.1 h
    cases CatalogRun.does_of_step hs' with
    | load => exact hr
    | fail => trivial
    | run hs'' => cases BatchRun.does_of_step hs'' <;> trivial
  | publishing | leaving =>
    cases h
    trivial

end RunOnce

/-! ## Steps of runs, and other steps -/

/-- The step is one of the run that is inside. A loop whose run has broken down ends, which the
scheduler notes. -/
structure EngineStep.OfRun (s : EngineStep Activity Result)
    (s' : EngineStep RunOnce (Ended (Option Report))) : Prop where
  engine : s'.next ≠ .done .brokeDown → s.engine = s'.engine
  busy : s.engine.scheduler.busy = s'.engine.scheduler.busy
  lastReport : s.engine.scheduler.lastReport = s'.engine.scheduler.lastReport
  bell : s.engine.scheduler.bell = s'.engine.scheduler.bell
  spawns : s.spawns = s'.spawns
  next : s.next.stage?.bind Activity.run? = s'.next.stage?

/-- The scheduler knows of no other run in progress than before, and of no other report. -/
structure Scheduler.Agrees (s s' : Scheduler) : Prop where
  busy : s'.busy = s.busy
  lastReport : s'.lastReport = s.lastReport

theorem Scheduler.Agrees.of_eq {s s' : Scheduler} (h : s' = s) : s.Agrees s' := by
  subst h
  exact ⟨rfl, rfl⟩

namespace Activity

variable {out : Outside} {t : TaskId} {e : Engine} {a : Activity} {r : RunOnce}
  {s : EngineStep Activity Result}

theorem batch?_of_run? (h : a.run? = some r) : a.batch? = r.batch? := by
  cases a with
  | runOnce r' =>
    cases h
    rfl
  | refreshLoop l =>
    cases l with
    | running tick r' =>
      cases h
      rfl
    | _ => cases h
  | _ => cases h

theorem step_ofRun (ha : a.run? = some r) (h : a.step out t e = some s) :
    ∃ s', r.step out t e = some s' ∧ s.OfRun s' := by
  cases a with
  | runOnce r' =>
    cases ha
    obtain ⟨s', hs', rfl⟩ := Option.map_eq_some_iff.1 h
    refine ⟨s', hs', fun _ => rfl, rfl, rfl, rfl, rfl, ?_⟩
    rw [EngineStep.within, Next.stage?_within_done]
    cases s'.next <;> rfl
  | refreshLoop l =>
    cases l with
    | running tick r' =>
      cases ha
      obtain ⟨s₁, hs₁, rfl⟩ := Option.map_eq_some_iff.1 h
      obtain ⟨s', hs', rfl⟩ := Option.map_eq_some_iff.1 hs₁
      refine ⟨s', hs', ?_⟩
      unfold RefreshLoop.afterBatch
      split <;> rename_i hn
      · exact ⟨fun hne => absurd hn hne, rfl, rfl, rfl, rfl, by rw [hn]; rfl⟩
      · exact ⟨fun _ => rfl, rfl, rfl, rfl, rfl, by rw [hn]; rfl⟩
      · exact ⟨fun _ => rfl, rfl, rfl, rfl, rfl, by rw [hn]; rfl⟩
    | start | looking | waiting => cases ha
  | call | metric | batch | catalog | retentionLoop | stop => cases ha

end Activity

namespace RefreshLoop

variable {out : Outside} {t : TaskId} {e : Engine} {l : RefreshLoop}
  {s : EngineStep RefreshLoop Unit}

theorem agrees_wake (tick : Nat) {e' : Engine} (he : e.scheduler.Agrees e'.scheduler) (w : Wake) :
    e.scheduler.Agrees (wake out t tick e' w).engine.scheduler := by
  cases w <;> exact ⟨he.busy, he.lastReport⟩

theorem run?_wake (tick : Nat) (w : Wake) {r : RunOnce}
    (h : (wake out t tick e w).next.stage?.bind run? = some r) : r = .start := by
  cases w with
  | stop => cases h
  | tick | ring =>
    cases h
    rfl

/-- A loop that is at no run does not change what the scheduler knows of runs. -/
theorem step_aside (hl : l.run? = none) (h : l.step out t e = some s) :
    e.scheduler.Agrees s.engine.scheduler ∧ ∀ r, s.next.stage?.bind run? = some r → r = .start := by
  have hbell : ∀ f : Scheduler → Bell,
      e.scheduler.Agrees (e.onScheduler fun x => { x with bell := f x }).scheduler :=
    fun _ => ⟨rfl, rfl⟩
  cases does_of_step h with
  | idle | start => exact ⟨⟨rfl, rfl⟩, fun r hr => by cases hr⟩
  | take => exact ⟨agrees_wake _ (hbell _) .ring, fun _ => run?_wake _ .ring⟩
  | heed => exact ⟨agrees_wake _ (.of_eq rfl) _, fun _ => run?_wake _ _⟩
  | listen => exact ⟨hbell _, fun r hr => by cases hr⟩
  | awake => exact ⟨agrees_wake _ (hbell _) _, fun _ => run?_wake _ _⟩
  | run => cases hl

end RefreshLoop

section Steps

variable {out : Outside} {t : TaskId} {e : Engine}

theorem Engine.scheduler_retain (days : Nat) :
    (e.retain out days).2.scheduler = e.scheduler := by
  unfold retain
  split
  · rfl
  · split <;> rfl

theorem RetentionLoop.step_aside {l : RetentionLoop} {s : EngineStep RetentionLoop Unit}
    (h : l.step out t e = some s) :
    e.scheduler.Agrees s.engine.scheduler ∧ s.engine.scheduler.bell = e.scheduler.bell := by
  have hretain : (e.retain out e.scheduler.retentionDays).2.scheduler = e.scheduler :=
    Engine.scheduler_retain _
  have hfinish : ∀ e' : Engine, e'.scheduler = e.scheduler →
      e.scheduler.Agrees (finish t e').engine.scheduler ∧
        (finish t e').engine.scheduler.bell = e.scheduler.bell := fun e' he =>
    ⟨⟨(congrArg Scheduler.busy he :), (congrArg Scheduler.lastReport he :)⟩,
      (congrArg Scheduler.bell he :)⟩
  cases does_of_step h with
  | start => exact ⟨.of_eq rfl, rfl⟩
  | stop => exact hfinish e rfl
  | breakDown => exact hfinish _ hretain
  | prune => exact ⟨.of_eq hretain, congrArg Scheduler.bell hretain⟩

theorem Stop.step_aside {x : Stop} {s : EngineStep Stop Unit} (h : x.step e = some s) :
    e.scheduler.Agrees s.engine.scheduler ∧ s.engine.scheduler.bell = e.scheduler.bell := by
  cases does_of_step h with
  | fire => exact ⟨⟨rfl, rfl⟩, rfl⟩
  | finish => exact ⟨.of_eq rfl, rfl⟩

namespace Activity

variable {a : Activity} {s : EngineStep Activity Result}

/-- A step of a task that is no loop and at no run changes nothing of the scheduler that others
look at, and makes no run. -/
theorem step_offLoop (ha : a.run? = none) (hl : ∀ l, a ≠ .refreshLoop l)
    (h : a.step out t e = some s) :
    (e.scheduler.Agrees s.engine.scheduler ∧ s.engine.scheduler.bell = e.scheduler.bell) ∧
      ∀ a', s.next.stage? = some a' → a'.run? = none ∧ ∀ l, a' ≠ .refreshLoop l := by
  have hoff : s.engine.scheduler = e.scheduler →
      e.scheduler.Agrees s.engine.scheduler ∧ s.engine.scheduler.bell = e.scheduler.bell :=
    fun hs => ⟨.of_eq hs, congrArg Scheduler.bell hs⟩
  have hnext : ∀ {σ : Type} (f : σ → Activity) (x : Option σ),
      (∀ y, (f y).run? = none ∧ ∀ l, f y ≠ .refreshLoop l) →
        ∀ a', x.map f = some a' → a'.run? = none ∧ ∀ l, a' ≠ .refreshLoop l := by
    intro σ f x hf a' ha'
    obtain ⟨y, -, rfl⟩ := Option.map_eq_some_iff.1 ha'
    exact hf y
  cases a with
  | runOnce => cases ha
  | refreshLoop l => exact absurd rfl (hl l)
  | call c =>
    obtain ⟨s', -, rfl⟩ := Option.map_eq_some_iff.1 h
    refine ⟨hoff rfl, ?_⟩
    rw [Engine.afterRouter, Next.stage?_within_done]
    exact hnext call _ fun _ => ⟨rfl, fun _ => Activity.noConfusion⟩
  | metric b i m =>
    obtain ⟨k, d, s', -, -, hs', rfl⟩ | rfl := step_metric h
    · refine ⟨hoff (Metric.step_offside hs').scheduler, ?_⟩
      rw [EngineStep.within, Next.stage?_within_done]
      exact hnext (metric b i) _ fun _ => ⟨rfl, fun _ => Activity.noConfusion⟩
    · exact ⟨hoff rfl, fun _ ha' => by cases ha'⟩
  | batch r =>
    obtain ⟨s', hs', rfl⟩ := Option.map_eq_some_iff.1 h
    refine ⟨hoff (BatchRun.step_offside hs').scheduler, ?_⟩
    rw [EngineStep.within, Next.stage?_within_done]
    exact hnext batch _ fun _ => ⟨rfl, fun _ => Activity.noConfusion⟩
  | catalog c =>
    obtain ⟨s', hs', rfl⟩ := Option.map_eq_some_iff.1 h
    refine ⟨hoff (CatalogRun.step_offside hs').scheduler, ?_⟩
    rw [EngineStep.within, Next.stage?_within_done]
    exact hnext catalog _ fun _ => ⟨rfl, fun _ => Activity.noConfusion⟩
  | retentionLoop l =>
    obtain ⟨s', hs', rfl⟩ := Option.map_eq_some_iff.1 h
    refine ⟨RetentionLoop.step_aside hs', ?_⟩
    rw [EngineStep.within, Next.stage?_within_done]
    exact hnext retentionLoop _ fun _ => ⟨rfl, fun _ => Activity.noConfusion⟩
  | stop x =>
    obtain ⟨s', hs', rfl⟩ := Option.map_eq_some_iff.1 h
    refine ⟨Stop.step_aside hs', ?_⟩
    rw [EngineStep.within, Next.stage?_within_done]
    exact hnext stop _ fun _ => ⟨rfl, fun _ => Activity.noConfusion⟩

/-- A step of a task that is at no run does not change what the scheduler knows of runs. -/
theorem step_aside (ha : a.run? = none) (h : a.step out t e = some s) :
    e.scheduler.Agrees s.engine.scheduler ∧ ∀ r, s.next.stage?.bind run? = some r → r = .start := by
  cases a with
  | refreshLoop l =>
    obtain ⟨s', hs', rfl⟩ := Option.map_eq_some_iff.1 h
    obtain ⟨hagrees, hnext⟩ := RefreshLoop.step_aside ha hs'
    refine ⟨hagrees, fun r hr => hnext r ?_⟩
    rw [EngineStep.within, Next.stage?_within_done] at hr
    cases hn : s'.next.stage? with
    | none => simp [hn] at hr
    | some l' => simpa [hn, run?] using hr
  | runOnce => cases ha
  | call | metric | batch | catalog | retentionLoop | stop =>
    obtain ⟨⟨hagrees, -⟩, hnext⟩ := step_offLoop ha (fun _ => Activity.noConfusion) h
    refine ⟨hagrees, fun r hr => ?_⟩
    obtain ⟨a', ha', hr⟩ := Option.bind_eq_some_iff.1 hr
    rw [(hnext a' ha').1] at hr
    cases hr

end Activity

end Steps

theorem Spawn.run?_activity (p : Spawn) : p.activity.run? = none := by
  cases p <;> rfl

theorem Activity.run?_of_isEntry {a : Activity} (h : a.isEntry = true) :
    a.run? = none ∨ a.run? = some .start := by
  cases a with
  | runOnce r =>
    cases r with
    | start => exact .inr rfl
    | running | publishing | leaving => cases h
  | refreshLoop l =>
    cases l with
    | start => exact .inl rfl
    | looking | waiting | running => cases h
  | call | metric | batch | catalog | retentionLoop | stop => exact .inl rfl

namespace World

variable {w w' : World} {out : Outside} {t u : TaskId} {res : Option Result} {r : RunOnce}

/-- Whether a task has a batch of the scheduler in progress. -/
def inProgress (w : World) (t : TaskId) : Bool := (w.run? t).any RunOnce.isInProgress

theorem inProgress_iff : w.inProgress t = true ↔ ∃ r, w.run? t = some r ∧ r ≠ .start := by
  rw [inProgress, Option.any_eq_true]
  refine exists_congr fun r => and_congr_right fun _ => ?_
  cases r <;> simp [RunOnce.isInProgress]

theorem run?_eq_none (h : ∀ x ∈ w.tasks, x.bind Activity.run? = none) (t : TaskId) :
    w.run? t = none := by
  rw [run?, activity?]
  cases ht : w.tasks[t]? with
  | none => rfl
  | some x => exact h x (List.mem_of_getElem? ht)

theorem run?_spawn (a : Activity) (t : TaskId) :
    (w.spawn [a]).run? t = if t = w.tasks.length then a.run? else w.run? t := by
  rw [run?, activity?_spawn]
  split <;> rfl

theorem run?_of_le (h : w.tasks.length ≤ t) : w.run? t = none := by
  rw [run?, activity?_of_le h]
  rfl

/-- A step leaves the runs of other tasks alone. -/
theorem run?_step_of_ne (h : w.step out t = some (w', res)) (hu : u ≠ t) :
    w'.run? u = w.run? u := by
  obtain ⟨a, s, ha, -, rfl, -⟩ := step_eq_some h
  rw [run?, activity?_after _ _ _ (lt_of_activity? ha), if_neg hu]
  split
  · rfl
  · rename_i hlt
    rw [run?_of_le (Nat.le_of_not_lt hlt), Option.bind_eq_none_iff]
    intro a ha
    obtain ⟨p, -, rfl⟩ := List.mem_map.1 (List.mem_of_getElem? ha)
    exact p.run?_activity

theorem step_aside (h : w.step out t = some (w', res)) (ht : w.run? t = none) :
    w.engine.scheduler.Agrees w'.engine.scheduler ∧
      (w'.run? t = none ∨ w'.run? t = some .start) := by
  obtain ⟨a, s, ha, hs, rfl, -⟩ := step_eq_some h
  rw [run?, ha, Option.bind_some] at ht
  obtain ⟨hagrees, hnext⟩ := Activity.step_aside ht hs
  refine ⟨hagrees, ?_⟩
  rw [run?, activity?_after_self _ _ _ (lt_of_activity? ha)]
  cases hn : s.next.stage?.bind Activity.run? with
  | none => exact .inl rfl
  | some r => exact .inr (congrArg some (hnext r hn))

/-- A step of a task that is at a run is one of the run. -/
theorem step_ofRun (h : w.step out t = some (w', res)) (hr : w.run? t = some r) :
    ∃ s, r.step (w.outside out) t w.engine = some s ∧ w'.run? t = s.next.stage? ∧
      s.engine.scheduler.Agrees w'.engine.scheduler ∧
      w'.engine.scheduler.bell = s.engine.scheduler.bell ∧
      (s.next ≠ .done .brokeDown → w'.engine = s.engine) ∧
      w'.tasks.length = w.tasks.length + s.spawns.length := by
  obtain ⟨a, s, ha, hs, rfl, -⟩ := step_eq_some h
  rw [run?, ha, Option.bind_some] at hr
  obtain ⟨s', hs', hof⟩ := Activity.step_ofRun hr hs
  refine ⟨s', hs', ?_, ⟨hof.busy, hof.lastReport⟩, hof.bell, hof.engine, ?_⟩
  · rw [run?, activity?_after_self _ _ _ (lt_of_activity? ha), hof.next]
  · rw [length_after, List.length_map, hof.spawns]

end World

/-! ## What the scheduler knows -/

/-- The report of the batch that has succeeded with the step of a run from one stage to another. -/
def RunOnce.completes? : Option RunOnce → Option RunOnce → Option Report
  | some (running _), some (publishing r) => some r
  | _, _ => none

/-- The report of the batch that has succeeded with a step. -/
def Move.completes? (x : Move) : Option Report :=
  RunOnce.completes? (x.before.run? x.task) (x.after.run? x.task)

/-- The reports of the batches that have succeeded so far. -/
def completed (os : List Occurrence) : List Report := (movesOf os).filterMap Move.completes?

/-- The last report is that of the batch that has succeeded last, unless that is about to be
published; then it is that of the one before. -/
structure Reported (os : List Occurrence) (w : World) : Prop where
  publishing : ∀ t r, w.run? t = some (.publishing r) →
    ∃ rs, completed os = rs ++ [r] ∧ w.engine.scheduler.lastReport = rs.getLast?
  published : (∀ t r, w.run? t ≠ some (.publishing r)) →
    w.engine.scheduler.lastReport = (completed os).getLast?

/-- What a scheduler knows of its runs after all that has happened: the one that is in progress, and
the last report. -/
structure Scheduled (os : List Occurrence) (w : World) : Prop extends Reported os w where
  busy : ∀ t, w.engine.scheduler.busy = some t ↔ w.inProgress t = true
  sound : ∀ t r, w.run? t = some r → r.IsSound

namespace Scheduled

variable {os os' : List Occurrence} {w w' : World} {out : Outside} {t u : TaskId}
  {res : Option Result} {r : RunOnce}

theorem eq_of_inProgress (h : Scheduled os w) (ht : w.inProgress t = true)
    (hu : w.inProgress u = true) : t = u :=
  Option.some.inj (((h.busy t).2 ht).symm.trans ((h.busy u).2 hu))

theorem idle {e : Engine} (he : e.scheduler.IsNew) : Scheduled [] ⟨e, []⟩ where
  busy t := by
    have hbusy : e.scheduler.busy = none := by rw [he]
    simp [hbusy, World.inProgress, World.run?, World.activity?]
  sound t r hr := by cases hr
  publishing t r hr := by cases hr
  published _ := by
    have hlast : e.scheduler.lastReport = none := by rw [he]
    exact hlast

/-- The reports stay in order where no batch succeeds and none is published. -/
theorem reported_congr (h : Scheduled os w) (hos : completed os' = completed os)
    (hlast : w'.engine.scheduler.lastReport = w.engine.scheduler.lastReport)
    (hrun : ∀ t r, w'.run? t = some (.publishing r) ↔ w.run? t = some (.publishing r)) :
    Reported os' w' where
  publishing t r hr := by
    rw [hos, hlast]
    exact h.publishing t r ((hrun t r).1 hr)
  published hnone := by
    rw [hos, hlast]
    exact h.published fun t r hr => hnone t r ((hrun t r).2 hr)

/-- What is no step of a run leaves runs alone, but for new ones. -/
theorem aside (h : Scheduled os w) (hos : completed os' = completed os)
    (hagrees : w.engine.scheduler.Agrees w'.engine.scheduler)
    (hrun : ∀ t, w'.run? t = w.run? t ∨ w.run? t = none ∧ w'.run? t = some .start) :
    Scheduled os' w' := by
  have hreported : Reported os' w' := h.reported_congr hos hagrees.lastReport fun t r => by
    rcases hrun t with heq | ⟨hnone, hstart⟩
    · rw [heq]
    · simp [hnone, hstart]
  refine ⟨hreported, fun t => ?_, fun t r hr => ?_⟩
  · rw [hagrees.busy, h.busy, World.inProgress, World.inProgress]
    rcases hrun t with heq | ⟨hnone, hstart⟩
    · rw [heq]
    · rw [hnone, hstart]
      simp [RunOnce.isInProgress]
  · rcases hrun t with heq | ⟨-, hstart⟩
    · exact h.sound t r (heq ▸ hr)
    · rw [hstart] at hr
      cases hr
      trivial

section Run

variable {s : EngineStep RunOnce (Ended (Option Report))}
  (h : Scheduled os w) (hr : w.run? t = some r) (hdoes : r.Does t w.engine s)
  (hagrees : s.engine.scheduler.Agrees w'.engine.scheduler) (hself : w'.run? t = s.next.stage?)
  (hother : ∀ u, u ≠ t → w'.run? u = w.run? u)

include h hr hdoes hagrees hself hother

/-- A run that enters is the one in progress, until it leaves. -/
theorem busy_of_does (u : TaskId) :
    w'.engine.scheduler.busy = some u ↔ w'.inProgress u = true := by
  have hne : ∀ {v}, v ≠ t → w'.inProgress v = w.inProgress v := fun hv => by
    rw [World.inProgress, hother _ hv, World.inProgress]
  have hbefore : w.inProgress t = r.isInProgress := by
    rw [World.inProgress, hr, Option.any_some]
  have hafter : w'.inProgress t = s.next.stage?.any RunOnce.isInProgress := by
    rw [World.inProgress, hself]
  have hsame : s.engine.scheduler.busy = w.engine.scheduler.busy →
      r.isInProgress = s.next.stage?.any RunOnce.isInProgress →
      (w'.engine.scheduler.busy = some u ↔ w'.inProgress u = true) := by
    intro hbusy hstays
    rw [hagrees.busy, hbusy, h.busy]
    by_cases hu : u = t
    · rw [hu, hafter, hbefore, hstays]
    · rw [hne hu]
  cases hdoes with
  | turnAway hbusy => exact hsame rfl rfl
  | work he | succeed he | fail he => exact hsame (congrArg Scheduler.busy he) rfl
  | publish => exact hsame rfl rfl
  | enter hbusy =>
    rw [hagrees.busy]
    by_cases hu : u = t
    · simp [hu, hafter, Next.stage?, RunOnce.isInProgress, Engine.onScheduler]
    · have hidle : ¬ w.inProgress u = true := fun hin => by
        rw [(h.busy u).2 hin] at hbusy
        cases hbusy
      rw [hne hu]
      simp [hidle, Engine.onScheduler, Ne.symm hu]
  | leave =>
    rw [hagrees.busy]
    by_cases hu : u = t
    · simp [hu, hafter, Next.stage?, Engine.onScheduler]
    · have hidle : ¬ w.inProgress u = true := fun hin =>
        hu (h.eq_of_inProgress hin hbefore)
      rw [hne hu]
      simp [hidle, Engine.onScheduler]

/-- A report is published right after the batch has succeeded. -/
theorem reported_of_does
    (hos : completed os' =
      completed os ++ (RunOnce.completes? (some r) s.next.stage?).toList) :
    Reported os' w' := by
  have hquiet : s.engine.scheduler.lastReport = w.engine.scheduler.lastReport →
      completed os' = completed os → (∀ q, r ≠ .publishing q) →
      (∀ q, s.next.stage? ≠ some (.publishing q)) → Reported os' w' := by
    intro hlast hos hbefore hafter
    refine h.reported_congr hos (hagrees.lastReport.trans hlast) fun u q => ?_
    by_cases hu : u = t
    · rw [hu, hself, hr]
      exact iff_of_false (hafter q) fun heq => hbefore q (Option.some.inj heq)
    · rw [hother u hu]
  -- while the run is in progress no other one publishes anything
  have halone : r.isInProgress = true → ∀ u q, u ≠ t → w'.run? u ≠ some (.publishing q) := by
    intro hin u q hu hq
    rw [hother u hu] at hq
    refine hu (h.eq_of_inProgress ?_ ?_)
    · rw [World.inProgress, hq]
      rfl
    · rw [World.inProgress, hr]
      exact hin
  cases hdoes with
  | turnAway | enter | leave =>
    exact hquiet rfl (hos.trans (List.append_nil _)) (fun _ => RunOnce.noConfusion)
      fun _ hq => by cases hq
  | work he | fail he =>
    exact hquiet (congrArg Scheduler.lastReport he) (hos.trans (List.append_nil _))
      (fun _ => RunOnce.noConfusion) fun _ hq => by cases hq
  | @succeed c e' ps report he =>
    refine ⟨fun u q hq => ?_, fun hnone => absurd hself (hnone t report)⟩
    by_cases hu : u = t
    · rw [hu, hself] at hq
      cases hq
      refine ⟨completed os, hos, ?_⟩
      rw [hagrees.lastReport]
      refine (congrArg Scheduler.lastReport he).trans (h.published fun v q hv => ?_)
      by_cases hvt : v = t
      · rw [hvt, hr] at hv
        cases hv
      · exact halone rfl v q hvt ((hother v hvt).trans hv)
    · exact absurd hq (halone rfl u q hu)
  | @publish report =>
    refine ⟨fun u q hq => ?_, fun _ => ?_⟩
    · by_cases hu : u = t
      · rw [hu, hself] at hq
        cases hq
      · exact absurd hq (halone rfl u q hu)
    · obtain ⟨rs, hrs, -⟩ := h.publishing t report hr
      have hsame : completed os' = completed os := hos.trans (List.append_nil _)
      rw [hagrees.lastReport, hsame, hrs, List.getLast?_concat]
      rfl

end Run

theorem completed_concat (os : List Occurrence) (x : Move) :
    completed (os ++ [Occurrence.move x]) = completed os ++ x.completes?.toList := by
  rw [completed, movesOf_append, List.filterMap_append, completed]
  congr 1

theorem completed_concat_of_none {o : Occurrence} (h : o.move? = none) :
    completed (os ++ [o]) = completed os := by
  rw [completed, movesOf_append, movesOf_singleton_of_none h, List.append_nil, completed]

/-- **What a scheduler knows of its runs stays right with each step.** -/
theorem step (h : Scheduled os w) (hstep : w.step out t = some (w', res)) :
    Scheduled (os ++ [Occurrence.move ⟨w, t, out, w', res⟩]) w' := by
  have hother : ∀ u, u ≠ t → w'.run? u = w.run? u := fun u => World.run?_step_of_ne hstep
  have hos := completed_concat os ⟨w, t, out, w', res⟩
  cases hr : w.run? t with
  | none =>
    obtain ⟨hagrees, hself⟩ := World.step_aside hstep hr
    refine h.aside ?_ hagrees fun u => ?_
    · rw [hos, Move.completes?, hr]
      exact List.append_nil _
    · by_cases hu : u = t
      · rw [hu, hr]
        exact hself.imp id fun hstart => ⟨rfl, hstart⟩
      · exact .inl (hother u hu)
  | some r =>
    obtain ⟨s, hs, hself, hagrees, -⟩ := World.step_ofRun hstep hr
    have hdoes := RunOnce.does_of_step hs
    rw [Move.completes?, hr, hself] at hos
    refine ⟨h.reported_of_does hr hdoes hagrees hself hother hos,
      h.busy_of_does hr hdoes hagrees hself hother, fun u q hq => ?_⟩
    by_cases hu : u = t
    · have hsound := RunOnce.step_isSound hs (h.sound t r hr)
      rw [hu, hself] at hq
      cases hn : s.next with
      | stage q' =>
        rw [hn] at hq hsound
        cases hq
        exact hsound
      | done =>
        rw [hn] at hq
        cases hq
    · exact h.sound u q (hother u hu ▸ hq)

end Scheduled

/-- **A scheduler knows of its runs all through its service.** -/
theorem Service.scheduled {os : List Occurrence} {w : World} (h : Service os w) :
    Scheduled os w := by
  have hbegin : ∀ {os : List Occurrence} {w : World} {a : Activity}, a.isEntry = true →
      Scheduled os w → Scheduled os (w.spawn [a]) := fun {os w a} ha ih =>
    ih.aside rfl (.of_eq rfl) fun t => by
      rw [World.run?_spawn]
      split
      · rename_i ht
        rw [ht, World.run?_of_le (Nat.le_refl _)]
        exact (Activity.run?_of_isEntry ha).imp id fun hstart => ⟨rfl, hstart⟩
      · exact .inl rfl
  induction h with
  | idle _ _ hnew => exact .idle hnew
  | begin _ ha ih => exact hbegin ha ih
  | @start os w out _ ih =>
    have hloops : Scheduled os { w with engine := (w.engine.startLoops (w.outside out)).1 } :=
      ih.aside rfl ⟨rfl, rfl⟩ fun _ => .inl rfl
    rw [World.startLoops_eq]
    exact hbegin (a := .retentionLoop .start) rfl
      (hbegin (a := .refreshLoop .start) rfl hloops)
  | change _ _ he _ ih => exact ih.aside rfl (.of_eq he) fun _ => .inl rfl
  | trigger _ ih =>
    exact ih.aside (Scheduled.completed_concat_of_none rfl) ⟨rfl, rfl⟩ fun _ => .inl rfl
  | fire _ _ ih =>
    exact ih.aside (Scheduled.completed_concat_of_none rfl) (.of_eq rfl) fun _ => .inl rfl
  | move _ hstep ih => exact ih.step hstep

/-! ## Batches that are left -/

/-- No metric is added to a batch that there is. -/
theorem World.BatchStep.left_le {w w' : World} {out : Outside} {t : TaskId} {b : Nat} {k : Batch}
    (h : w.BatchStep out t w') (hk : w.engine.batches[b]? = some k) : w'.left b ≤ w.left b := by
  obtain ⟨k', hk', -⟩ := h.exists_batch hk
  rcases h.batch hk' with ⟨_, _, -, -, hleft⟩ | ⟨_, _, _, -, -, -, hleft⟩ | ⟨rfl, -⟩
  · exact Nat.le_of_eq hleft
  · exact Nat.le_of_lt (Nat.lt_of_succ_le (Nat.le_of_eq hleft))
  · exact absurd (List.getElem?_eq_some_iff.1 hk).1 (Nat.lt_irrefl _)

/-- The run that begins a batch joins its metrics. -/
theorem Move.batch?_of_opens? {x : Move} {b : Nat} {ds : List Definition} {r : RunOnce}
    (h : x.before.step x.outside x.task = some (x.after, x.result)) (ho : x.opens? = some (b, ds))
    (hr : x.before.run? x.task = some r) :
    (x.after.run? x.task).bind RunOnce.batch? = some (.joining b) := by
  obtain ⟨a, ha, hrun⟩ := Option.bind_eq_some_iff.1 hr
  obtain ⟨s, hs, hself, -⟩ := World.step_ofRun h hr
  unfold opens? at ho
  split at ho
  · rename_i ds token b hbefore hafter
    cases ho
    have hbatch : r.batch? = some (.start ds token) := by
      rw [← Activity.batch?_of_run? hrun, ← hbefore, ha, Option.bind_some]
    obtain ⟨s', hs', hin⟩ := RunOnce.step_inside hbatch hs
    obtain ⟨s'', hs'', -, hnext⟩ := step_batch? h hbefore
    obtain rfl : s' = s'' := Option.some.inj (hs'.symm.trans hs'')
    rw [hself, hin.next, ← hnext, hafter]
  · cases ho

namespace Operation

variable {xs : List Move} {w : World} {x : Move} {b : Nat} {ds : List Definition}

/-- A run does not leave its batch before all metrics have ended. -/
theorem batch?_of_left (h : Operation xs w) (hx : x ∈ xs) (ho : x.opens? = some (b, ds))
    (hrun : (x.before.run? x.task).isSome = true) (hleft : w.left b ≠ 0) :
    (w.run? x.task).bind RunOnce.batch? = some (.joining b) := by
  obtain ⟨r, hr⟩ := Option.isSome_iff_exists.1 hrun
  have hjoins : (∃ k, w.engine.batches[b]? = some k) ∧
      (w.left b ≠ 0 → (w.run? x.task).bind RunOnce.batch? = some (.joining b)) := by
    refine h.induction_from (P := fun v => (∃ k, v.engine.batches[b]? = some k) ∧
      (v.left b ≠ 0 → (v.run? x.task).bind RunOnce.batch? = some (.joining b))) hx
      (fun _ hstep => ?_) (fun v a ha ⟨hk, hjoin⟩ => ⟨hk, fun hleft => ?_⟩)
      (fun _ _ he ⟨hk, hjoin⟩ => ⟨he ▸ hk, hjoin⟩)
      fun v v' out t res hv hstep ⟨⟨k, hk⟩, hjoin⟩ => ?_
    · obtain ⟨k, hk, -⟩ := Move.begun_of_opens? hstep ho
      exact ⟨⟨k, hk⟩, fun _ => Move.batch?_of_opens? hstep ho hr⟩
    · rw [World.left_begin (Activity.place?_of_isEntry ha)] at hleft
      have hjoining := hjoin hleft
      rw [World.run?_spawn, if_neg fun heq => ?_]
      · exact hjoining
      · rw [World.run?_of_le (Nat.le_of_eq heq.symm)] at hjoining
        cases hjoining
    · obtain ⟨k', hk', -⟩ := (hv.batchStep hstep).exists_batch hk
      refine ⟨⟨k', hk'⟩, fun hleft => ?_⟩
      have hleft' : v.left b ≠ 0 := fun hzero =>
        hleft (Nat.le_zero.1 (hzero ▸ (hv.batchStep hstep).left_le hk))
      have hjoining := hjoin hleft'
      by_cases ht : x.task = t
      · subst ht
        obtain ⟨q, hq, hbatch⟩ := Option.bind_eq_some_iff.1 hjoining
        obtain ⟨s, hs, -⟩ := World.step_ofRun hstep hq
        obtain ⟨s', hs', -⟩ := RunOnce.step_inside hbatch hs
        simp only [BatchRun.step, hk] at hs'
        rw [if_neg fun hzero => hleft' ((hv.unfinished b k hk).symm.trans hzero)] at hs'
        cases hs'
      · rw [World.run?_step_of_ne hstep ht]
        exact hjoining
  exact hjoins.2 hleft

end Operation

/-- A step of a run that changes nothing but the run is part of no call. -/
theorem Move.aloof_of_run? {x : Move} {r : RunOnce} (hr : x.before.run? x.task = some r)
    (hengine : x.after.engine = x.before.engine)
    (htasks : x.after.tasks.length = x.before.tasks.length) : x.Aloof := by
  obtain ⟨a, ha, har⟩ := Option.bind_eq_some_iff.1 hr
  have hnone : a.place? = none ∧ a.request? = none := by
    cases a with
    | runOnce | refreshLoop => exact ⟨rfl, rfl⟩
    | call | metric | batch | catalog | retentionLoop | stop => cases har
  have hplace : x.before.place? x.task = none := by
    rw [World.place?, ha]
    exact hnone.1
  refine ⟨fun b i m hm => ?_, ?_, record?_eq_none hplace, by rw [hengine], by rw [hengine], htasks⟩
  · rw [World.place?, hm] at hplace
    cases hplace
  · rw [World.request?, ha]
    exact hnone.2

/-- Only a run that is made by itself may come to no report. -/
theorem Activity.exists_run_of_result {out : Outside} {t : TaskId} {e : Engine} {a : Activity}
    {s : EngineStep Activity Result} (h : a.step out t e = some s)
    (hres : s.next.result? = some (.reported (.value none))) :
    ∃ r s', a = .runOnce r ∧ r.step out t e = some s' ∧ s'.next = .done (.value none) := by
  have hno : ∀ {ρ : Type} {p : Prop} (f : ρ → Result) (x : Option ρ),
      (∀ y, f y ≠ .reported (.value none)) → x.map f = some (.reported (.value none)) → p := by
    intro ρ p f x hf hx
    obtain ⟨y, -, hy⟩ := Option.map_eq_some_iff.1 hx
    exact absurd hy (hf y)
  cases a with
  | runOnce r =>
    obtain ⟨s', hs', rfl⟩ := Option.map_eq_some_iff.1 h
    rw [EngineStep.within, Next.result?_within_done] at hres
    refine ⟨r, s', rfl, hs', ?_⟩
    cases hn : s'.next with
    | stage => simp [hn, Next.result?] at hres
    | done y =>
      rw [hn] at hres
      cases hres
      rfl
  | call c =>
    obtain ⟨s', -, rfl⟩ := Option.map_eq_some_iff.1 h
    rw [Engine.afterRouter, Next.result?_within_done] at hres
    exact hno _ _ (fun _ => Result.noConfusion) hres
  | metric b i m =>
    obtain ⟨k, d, s', -, -, -, rfl⟩ | rfl := step_metric h
    · rw [EngineStep.within, Next.result?_within_done] at hres
      exact hno _ _ (fun _ => Result.noConfusion) hres
    · cases hres
  | batch | catalog =>
    obtain ⟨s', -, rfl⟩ := Option.map_eq_some_iff.1 h
    rw [EngineStep.within, Next.result?_within_done] at hres
    refine hno _ _ (fun y => ?_) hres
    cases y <;> simp [reported]
  | refreshLoop | retentionLoop | stop =>
    obtain ⟨s', -, rfl⟩ := Option.map_eq_some_iff.1 h
    rw [EngineStep.within, Next.result?_within_done] at hres
    exact hno _ _ (fun _ => Result.noConfusion) hres

namespace Service

variable {os : List Occurrence} {w : World} {x : Move} {b : Nat} {ds : List Definition}

/-- A run does not begin a batch unless it is cancelled by the shutdown. -/
theorem token?_of_run? (h : Service os w) (hx : .move x ∈ os) (ho : x.opens? = some (b, ds))
    (hrun : (x.before.run? x.task).isSome = true) : x.token? = some .shutdown := by
  obtain ⟨ps, qs, -, hbefore, hstep⟩ := h.of_mem hx
  obtain ⟨r, hr⟩ := Option.isSome_iff_exists.1 hrun
  obtain ⟨a, ha, har⟩ := Option.bind_eq_some_iff.1 hr
  obtain ⟨token, -, -, -, -, -, hbatch, -⟩ := Move.opening_of_opens? hstep ho
  have hstart : r.batch? = some (.start ds token) := by
    rw [← Activity.batch?_of_run? har, ← hbatch, ha, Option.bind_some]
  have hsound := hbefore.scheduled.sound _ r hr
  rw [Move.token?, hbatch]
  cases r with
  | running c =>
    cases c with
    | running q =>
      cases hstart
      exact congrArg some hsound
    | loading => cases hstart
  | start | publishing | leaving => cases hstart

/-- A run that is made while another one is in progress is turned away and calls nobody. -/
theorem turned_away_or_enters (h : Service os w) (hx : .move x ∈ os)
    (hr : x.before.run? x.task = some .start) :
    (∃ u, u ≠ x.task ∧ x.before.inProgress u = true) ∧ x.after.run? x.task = none ∧
        x.after.engine = x.before.engine ∧ x.Aloof ∨
      (∀ u, x.before.inProgress u = false) ∧
        x.after.run? x.task = some (.running (.loading .shutdown)) := by
  obtain ⟨ps, qs, -, hbefore, hstep⟩ := h.of_mem hx
  obtain ⟨s, hs, hself, -, -, hengine, htasks⟩ := World.step_ofRun hstep hr
  have hbusy := hbefore.scheduled.busy
  cases RunOnce.does_of_step hs with
  | @turnAway u hu =>
    have hin := (hbusy u).1 hu
    have hsame : x.after.engine = x.before.engine := hengine fun hn => by cases hn
    refine .inl ⟨⟨u, fun heq => ?_, hin⟩, hself, hsame, Move.aloof_of_run? hr hsame htasks⟩
    rw [heq, World.inProgress, hr] at hin
    cases hin
  | enter hnone =>
    refine .inr ⟨fun u => ?_, hself⟩
    cases hin : x.before.inProgress u with
    | false => rfl
    | true =>
      rw [(hbusy u).2 hin] at hnone
      cases hnone

/-- Who is told that there is no report was turned away. -/
theorem run?_of_result (h : Service os w) (hx : .move x ∈ os)
    (hresult : x.result = some (.reported (.value none))) :
    x.before.run? x.task = some .start ∧ x.after.run? x.task = none := by
  obtain ⟨ps, qs, -, hbefore, hstep⟩ := h.of_mem hx
  obtain ⟨a, s, ha, hs, hafter, hres⟩ := World.step_eq_some hstep
  obtain ⟨r, s', rfl, hs', hn⟩ := Activity.exists_run_of_result hs (hres.symm.trans hresult)
  have hr : x.before.run? x.task = some r := by
    rw [World.run?, ha]
    rfl
  have hsound := hbefore.scheduled.sound _ r hr
  obtain ⟨s'', hs'', hself, -⟩ := World.step_ofRun hstep hr
  obtain rfl : s' = s'' := Option.some.inj (hs'.symm.trans hs'')
  rw [hn] at hself
  refine ⟨?_, hself⟩
  cases RunOnce.does_of_step hs' with
  | turnAway => exact hr
  | leave =>
    cases hn
    exact hsound.elim
  | enter | work | succeed | fail | publish => cases hn

/-- A run that leaves can do so at once, and then none is in progress. -/
theorem leaves (h : Service os w) {t : TaskId} {res : Ended (Option Report)}
    (hr : w.run? t = some (.leaving res)) (out : Outside) :
    ∃ w' res', w.step out t = some (w', res') ∧ (∀ u, w'.inProgress u = false) ∧
      w'.engine.scheduler.lastReport = w.engine.scheduler.lastReport := by
  obtain ⟨a, ha, har⟩ := Option.bind_eq_some_iff.1 hr
  cases hstep : w.step out t with
  | none =>
    have hstuck := World.step_eq_none ha hstep
    cases a with
    | runOnce r =>
      cases har
      cases hstuck
    | refreshLoop l =>
      cases l with
      | running tick r =>
        cases har
        cases hstuck
      | start | looking | waiting => cases har
    | call | metric | batch | catalog | retentionLoop | stop => cases har
  | some p =>
    obtain ⟨w', res'⟩ := p
    obtain ⟨s, hs, -, hagrees, -⟩ := World.step_ofRun hstep hr
    cases hs
    have hafter := (h.scheduled.step hstep).busy
    refine ⟨w', res', rfl, fun u => ?_, hagrees.lastReport⟩
    cases hin : w'.inProgress u with
    | false => rfl
    | true =>
      have hbusy := hagrees.busy.symm.trans ((hafter u).2 hin)
      cases hbusy

/-- A rejected batch leaves the last report as it is. -/
theorem lastReport_of_rejected (h : Service os w) (hx : .move x ∈ os) {c : CatalogRun}
    {res : Ended (Option Report)} (hr : x.before.run? x.task = some (.running c))
    (hr' : x.after.run? x.task = some (.leaving res)) :
    x.after.engine.scheduler.lastReport = x.before.engine.scheduler.lastReport := by
  obtain ⟨ps, qs, -, -, hstep⟩ := h.of_mem hx
  obtain ⟨s, hs, hself, hagrees, -⟩ := World.step_ofRun hstep hr
  rw [hr'] at hself
  rw [hagrees.lastReport]
  cases RunOnce.does_of_step hs with
  | fail he => exact congrArg Scheduler.lastReport he
  | work | succeed => cases hself

/-- What it means that the batches of a scheduler take turns. -/
structure TakesTurns (os : List Occurrence) (w : World) : Prop where
  /-- One run is in progress at most, which is the one that the scheduler has noted. -/
  unique : ∀ t u, w.inProgress t = true → w.inProgress u = true → t = u
  busy : ∀ t, w.inProgress t = true ↔ w.engine.scheduler.busy = some t
  /-- Of all the batches that runs have begun, one has metrics left at most. -/
  left : ∀ (x y : Move) b b' ds ds', .move x ∈ os → .move y ∈ os → x.opens? = some (b, ds) →
    y.opens? = some (b', ds') → (x.before.run? x.task).isSome = true →
      (y.before.run? y.task).isSome = true → w.left b ≠ 0 → w.left b' ≠ 0 → b = b'
  /-- A run is turned away only while another one is in progress, and then calls nobody. -/
  start : ∀ x : Move, .move x ∈ os → x.before.run? x.task = some .start →
    (∃ u, u ≠ x.task ∧ x.before.inProgress u = true) ∧ x.after.run? x.task = none ∧
        x.after.engine = x.before.engine ∧ x.Aloof ∨
      (∀ u, x.before.inProgress u = false) ∧
        x.after.run? x.task = some (.running (.loading .shutdown))
  /-- Who is told that there is no report was turned away. -/
  noReport : ∀ x : Move, .move x ∈ os → x.result = some (.reported (.value none)) →
    x.before.run? x.task = some .start ∧ x.after.run? x.task = none
  /-- The last report is that of the batch that has succeeded last, unless that is about to be
  published; then it is that of the one before. -/
  publishing : ∀ t r, w.run? t = some (.publishing r) →
    ∃ rs, completed os = rs ++ [r] ∧ w.engine.scheduler.lastReport = rs.getLast?
  published : (∀ t r, w.run? t ≠ some (.publishing r)) →
    w.engine.scheduler.lastReport = (completed os).getLast?
  /-- A batch that is rejected, or breaks down, leaves the last report as it is. -/
  rejected : ∀ (x : Move) c res, .move x ∈ os → x.before.run? x.task = some (.running c) →
    x.after.run? x.task = some (.leaving res) →
      x.after.engine.scheduler.lastReport = x.before.engine.scheduler.lastReport
  /-- A run whose batch is over, however it has ended, can leave at once, and then none is in
  progress. -/
  leaves : ∀ t res, w.run? t = some (.leaving res) → ∀ out, ∃ w' res',
    w.step out t = some (w', res') ∧ (∀ u, w'.inProgress u = false) ∧
      w'.engine.scheduler.lastReport = w.engine.scheduler.lastReport
  /-- A batch that a run begins after the shutdown was requested starts no metric. -/
  shutdown : ∀ (ps : List Occurrence) (x : Move) (qs : List Occurrence) b ds,
    os = ps ++ .move x :: qs → x.opens? = some (b, ds) →
    (x.before.run? x.task).isSome = true → ps.any (Occurrence.fires .shutdown) = true →
      (∀ i, ∀ y ∈ ownMoves b i (movesOf os), y.Aloof) ∧
      (∀ t i m, w.activity? t = some (.metric b i m) → m.isRefreshing = false) ∧
      ∀ (z : Move) r, .move z ∈ os → z.reports? = some (b, r) → r.outcomes = ds.map .cancelled

/-- **The batches of a scheduler take turns**, however it is used and whoever asks it for a batch,
and its last report never goes back. -/
theorem batches_take_turns (h : Service os w) : TakesTurns os w where
  unique t u := h.scheduled.eq_of_inProgress
  busy t := (h.scheduled.busy t).symm
  left x y b b' ds ds' hx hy hox hoy hrx hry hb hb' := by
    have hjoin := h.operation.batch?_of_left (mem_movesOf.2 hx) hox hrx hb
    have hjoin' := h.operation.batch?_of_left (mem_movesOf.2 hy) hoy hry hb'
    have hin : ∀ {t b}, (w.run? t).bind RunOnce.batch? = some (.joining b) →
        w.inProgress t = true := fun {t b} ht => by
      obtain ⟨r, hr, hbatch⟩ := Option.bind_eq_some_iff.1 ht
      rw [World.inProgress_iff]
      refine ⟨r, hr, fun hstart => ?_⟩
      rw [hstart] at hbatch
      cases hbatch
    rw [h.scheduled.eq_of_inProgress (hin hjoin) (hin hjoin'), hjoin'] at hjoin
    cases hjoin
    rfl
  start x := h.turned_away_or_enters
  noReport x := h.run?_of_result
  publishing := h.scheduled.publishing
  published := h.scheduled.published
  rejected x c res hx := h.lastReport_of_rejected hx
  leaves t res := h.leaves
  shutdown ps x qs b ds hos ho hrun hfired := by
    subst hos
    exact h.givenUp_of_fired ho hfired (h.token?_of_run? (by simp) ho hrun)

/-! ### Two runs and a late one -/

/-- A run is turned away while the first one is in progress; another one enters after the shutdown
was requested. -/
def overlapping : List Cue :=
  List.flatten
    [[.begin (.runOnce .start), .begin (.runOnce .start)], Cue.steps 0 1, Cue.steps 1 1,
      Cue.steps 0 2, Cue.steps 2 7, [.move 2 (.answering (some .connected))], Cue.steps 2 4,
      [.move 2 (.answering (some (.rows [.ofPairs [("value", .int 7)]])))], Cue.steps 2 5,
      Cue.steps 0 4, [.begin (.stop .start)], Cue.steps 3 1, [.begin (.runOnce .start)],
      Cue.steps 4 3, Cue.steps 5 2, Cue.steps 4 4]

/-- The first run has published the count, the second has no report, and in the batch of the last
one the metric is given up. -/
theorem batches_take_turns_overlapping :
    let os := (single.serve overlapping).1
    let w := (single.serve overlapping).2
    ((movesOf os).filter fun x => x.result = some (.reported (.value none))).map Move.task = [1] ∧
      (completed os).map (fun r => r.outcomes.map fun o => (o.success, o.errorKind)) =
        [[(true, none)], [(false, some .cancelled)]] ∧
      w.engine.scheduler.lastReport = (completed os).getLast? ∧ TakesTurns os w := by
  intro os w
  have hturns : TakesTurns os w :=
    batches_take_turns (Service.serve (e := single) rfl rfl rfl overlapping)
  have htasks : ∀ x ∈ w.tasks, x.bind Activity.run? = none := by decide +kernel
  refine ⟨by decide +kernel, by decide +kernel, ?_, hturns⟩
  apply hturns.published
  intro t r hr
  rw [World.run?_eq_none htasks t] at hr
  cases hr

end Service

end MetricBoard
