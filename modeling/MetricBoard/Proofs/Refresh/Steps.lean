import MetricBoard.Refresh.Activity

/-!
# What the steps of the engine's tasks do

What a step of a metric, of a batch or of the scheduler can do is said here once: `Does` lists the
steps with the conditions under which they are taken and what they come to, and `does_of_step` says
that there are no others. A step of a machine within another one is left to the inner machine.
-/

namespace MetricBoard

/-! ## Metrics -/

namespace Metric

/-- What a metric does with a step. -/
inductive Does (out : Outside) (t : TaskId) (b i : Nat) (k : Batch) (d : Definition) (e : Engine) :
    Metric → EngineStep Metric Unit → Prop
  | cancel : e.isFired k.token = true →
    Does out t b i k d e .start ⟨e, .stage (.ending (some (.cancelled d))), []⟩
  | ask : e.isFired k.token = false →
    Does out t b i k d e .start
      ⟨e.onBatch b fun k => k.onTarget d.target (·.request t), .stage .queuedTarget, []⟩
  | withdrawTarget : e.isFired k.token = true →
    Does out t b i k d e .queuedTarget
      ⟨e.onBatch b fun k => k.onTarget d.target (·.withdraw t),
        .stage (.ending (some (.cancelled d))), []⟩
  /-- The permit of the server is there; the other one is asked for. -/
  | enterTarget : e.isFired k.token = false →
    (k.admission.perTarget.get d.target).isHeldBy t = true →
    Does out t b i k d e .queuedTarget
      ⟨e.onBatch b fun k => k.onOverall (·.request t), .stage .queuedOverall, []⟩
  | withdrawOverall : e.isFired k.token = true →
    Does out t b i k d e .queuedOverall
      ⟨e.onBatch b fun k => (k.onOverall (·.withdraw t)).onTarget d.target (·.release t),
        .stage (.ending (some (.cancelled d))), []⟩
  | enterOverall : e.isFired k.token = false → k.admission.overall.isHeldBy t = true →
    Does out t b i k d e .queuedOverall ⟨e, .stage .admitted, []⟩
  | turnBack : e.isFired k.token = true →
    Does out t b i k d e .admitted ⟨e, .stage (.leavingTarget (some (.cancelled d))), []⟩
  | begin : e.isFired k.token = false →
    Does out t b i k d e .admitted ⟨e, .stage (begin e.options d out.ms), []⟩
  | compute {startedMs : Nat} {c : Compute} {s : RouterStep Compute ExecuteResult} :
    c.step t out.answer e.options.queryTimeoutMs e.router = some s →
    Does out t b i k d e (.computing startedMs c)
      (e.afterRouter (computing startedMs) (afterCompute startedMs) s)
  | record {startedMs : Nat} {x : Except Failure Binary64} :
    Does out t b i k d e (.recording startedMs x)
      ⟨{ e with storage := (e.storage.record out.refusals d.id (write x out.now)).2 },
        .stage (.leavingTarget (some (outcome d x (out.ms - startedMs)
          (isOk (e.storage.record out.refusals d.id (write x out.now)).1)))), []⟩
  | leaveTarget {o : Option Outcome} :
    Does out t b i k d e (.leavingTarget o)
      ⟨e.onBatch b fun k => k.onTarget d.target (·.release t), .stage (.leavingOverall o), []⟩
  | leaveOverall {o : Option Outcome} :
    Does out t b i k d e (.leavingOverall o)
      ⟨e.onBatch b fun k => k.onOverall (·.release t), .stage (.ending o), []⟩
  | finish {o : Option Outcome} :
    Does out t b i k d e (.ending o) ⟨e.onBatch b fun k => k.finish i o, .done (), []⟩

theorem does_of_step {out : Outside} {t : TaskId} {b i : Nat} {k : Batch} {d : Definition}
    {e : Engine} {m : Metric} {s : EngineStep Metric Unit} (h : m.step out t b i k d e = some s) :
    Does out t b i k d e m s := by
  cases m with
  | start =>
    simp only [step] at h
    split at h <;> rename_i hfired <;> cases h
    · exact .cancel hfired
    · exact .ask (Bool.eq_false_iff.2 hfired)
  | queuedTarget =>
    simp only [step] at h
    split at h <;> rename_i hfired
    · cases h
      exact .withdrawTarget hfired
    · split at h <;> cases h
      exact .enterTarget (Bool.eq_false_iff.2 hfired) ‹_›
  | queuedOverall =>
    simp only [step] at h
    split at h <;> rename_i hfired
    · cases h
      exact .withdrawOverall hfired
    · split at h <;> cases h
      exact .enterOverall (Bool.eq_false_iff.2 hfired) ‹_›
  | admitted =>
    simp only [step] at h
    split at h <;> rename_i hfired <;> cases h
    · exact .turnBack hfired
    · exact .begin (Bool.eq_false_iff.2 hfired)
  | computing startedMs c =>
    obtain ⟨s', hs', rfl⟩ := Option.map_eq_some_iff.1 h
    exact .compute hs'
  | recording startedMs x =>
    cases h
    exact .record
  | leavingTarget o =>
    cases h
    exact .leaveTarget
  | leavingOverall o =>
    cases h
    exact .leaveOverall
  | ending o =>
    cases h
    exact .finish

end Metric

/-- A task of a metric that is not there ends at once. -/
theorem Activity.step_metric {out : Outside} {t : TaskId} {e : Engine} {b i : Nat} {m : Metric}
    {s : EngineStep Activity Result} (h : (Activity.metric b i m).step out t e = some s) :
    (∃ k d s', e.batches[b]? = some k ∧ k.definitions[i]? = some d ∧
      m.step out t b i k d e = some s' ∧
        s = s'.within (.metric b i) fun _ => .done .finished) ∨
      s = ⟨e, .done .finished, []⟩ := by
  simp only [step] at h
  split at h
  · split at h
    · obtain ⟨s', hs', rfl⟩ := Option.map_eq_some_iff.1 h
      exact .inl ⟨_, _, s', ‹_›, ‹_›, hs', rfl⟩
    · cases h
      exact .inr rfl
  · cases h
    exact .inr rfl

/-! ## Batches -/

namespace BatchRun

/-- What the task of a batch does with a step. -/
inductive Does (out : Outside) (e : Engine) : BatchRun → EngineStep BatchRun (Ended Report) → Prop
  | reject {ds : List Definition} {token : Token} {fault : AppError} :
    Batch.validate ds = .error fault →
    Does out e (.start ds token) ⟨e, .done (.error fault), []⟩
  /-- There are more permits than a semaphore can have. -/
  | overflow {ds : List Definition} {token : Token} :
    Batch.validate ds = .ok () → Admission.ofOptions? e.options = none →
    Does out e (.start ds token) ⟨e, .done .brokeDown, []⟩
  | begin {ds : List Definition} {token : Token} {admission : Admission} :
    Batch.validate ds = .ok () → Admission.ofOptions? e.options = some admission →
    Does out e (.start ds token)
      ⟨{ e with batches := e.batches ++ [.start ds token out.now admission] },
        .stage (.joining e.batches.length),
        (List.range ds.length).map (Spawn.metric e.batches.length)⟩
  | report {b : Nat} {k : Batch} : e.batches[b]? = some k → k.unfinished = 0 →
    Does out e (.joining b) ⟨e, .stage (.reporting (k.report out.freshId out.now)), []⟩
  | lose {b : Nat} : e.batches[b]? = none → Does out e (.joining b) ⟨e, .done .brokeDown, []⟩
  | keep {r : Report} :
    Does out e (.reporting r)
      ⟨{ e with storage := (e.storage.keep out.refusals r).2 }, .done (.value r), []⟩

theorem does_of_step {out : Outside} {e : Engine} {r : BatchRun}
    {s : EngineStep BatchRun (Ended Report)} (h : r.step out e = some s) : Does out e r s := by
  cases r with
  | start ds token =>
    simp only [step] at h
    split at h
    · cases h
      exact .reject ‹_›
    · split at h <;> cases h
      · exact .overflow ‹_› ‹_›
      · exact .begin ‹_› ‹_›
  | joining b =>
    simp only [step] at h
    split at h
    · split at h <;> cases h
      exact .report ‹_› ‹_›
    · cases h
      exact .lose ‹_›
  | reporting r =>
    cases h
    exact .keep

end BatchRun

namespace CatalogRun

/-- What the task of a batch of the whole catalog does with a step. -/
inductive Does (out : Outside) (e : Engine) :
    CatalogRun → EngineStep CatalogRun (Ended Report) → Prop
  | load {token : Token} {ds : List Definition} : (e.storage.load out.refusals).1 = .ok ds →
    Does out e (.loading token)
      ⟨{ e with storage := (e.storage.load out.refusals).2 },
        .stage (.running (.start ds token)), []⟩
  | fail {token : Token} {fault : AppError} : (e.storage.load out.refusals).1 = .error fault →
    Does out e (.loading token)
      ⟨{ e with storage := (e.storage.load out.refusals).2 }, .done (.error fault), []⟩
  | run {r : BatchRun} {s : EngineStep BatchRun (Ended Report)} : r.step out e = some s →
    Does out e (.running r) (s.within .running Next.done)

theorem does_of_step {out : Outside} {e : Engine} {c : CatalogRun}
    {s : EngineStep CatalogRun (Ended Report)} (h : c.step out e = some s) : Does out e c s := by
  cases c with
  | loading token =>
    simp only [step] at h
    split at h <;> rename_i hload <;> cases h
    · have hdoes : Does out e (.loading token) _ := .load (congrArg Prod.fst hload)
      rwa [hload] at hdoes
    · have hdoes : Does out e (.loading token) _ := .fail (congrArg Prod.fst hload)
      rwa [hload] at hdoes
  | running r =>
    obtain ⟨s', hs', rfl⟩ := Option.map_eq_some_iff.1 h
    exact .run hs'

end CatalogRun

/-! ## The scheduler -/

/-- A run is turned away as another one is in progress, or it is the one in progress from now on. -/
theorem RunOnce.step_start {out : Outside} {t : TaskId} {e : Engine}
    {s : EngineStep RunOnce (Ended (Option Report))} (h : RunOnce.start.step out t e = some s) :
    (∃ u, e.scheduler.busy = some u) ∧ s = ⟨e, .done (.value none), []⟩ ∨
      e.scheduler.busy = none ∧ s = ⟨e.onScheduler fun s => { s with busy := some t },
        .stage (.running (.loading .shutdown)), []⟩ := by
  simp only [step] at h
  split at h <;> rename_i hbusy <;> cases h
  · exact .inl ⟨Option.isSome_iff_exists.1 hbusy, rfl⟩
  · exact .inr ⟨Option.not_isSome_iff_eq_none.1 hbusy, rfl⟩

namespace RefreshLoop

/-- What the loop that runs batches does with a step. -/
inductive Does (out : Outside) (t : TaskId) (e : Engine) :
    RefreshLoop → EngineStep RefreshLoop Unit → Prop
  /-- There is no interval. -/
  | idle : e.scheduler.intervalMs = 0 → Does out t e .start (finish t e)
  | start : e.scheduler.intervalMs ≠ 0 → Does out t e .start ⟨e, .stage (.looking out.ms), []⟩
  /-- The bell has been rung before the loop looked. -/
  | take {tick : Nat} : out.order.find? (isThere out e tick) = some .ring →
    Does out t e (.looking tick)
      (wake out t tick
        (e.onScheduler fun s => { s with bell := { s.bell with kept := false } }) .ring)
  | heed {tick : Nat} {w : Wake} : out.order.find? (isThere out e tick) = some w → w ≠ .ring →
    Does out t e (.looking tick) (wake out t tick e w)
  | listen {tick : Nat} : out.order.find? (isThere out e tick) = none →
    Does out t e (.looking tick)
      ⟨e.onScheduler fun s => { s with bell := s.bell.listen t }, .stage (.waiting tick), []⟩
  | awake {tick : Nat} {w : Wake} : out.order.find? (hasCome out t e tick) = some w →
    Does out t e (.waiting tick)
      (wake out t tick (e.onScheduler fun s =>
        { s with bell := if w = .ring then s.bell.notice t else s.bell.leave t }) w)
  | run {tick : Nat} {r : RunOnce} {s : EngineStep RunOnce (Ended (Option Report))} :
    r.step out t e = some s → Does out t e (.running tick r) (afterBatch t tick s)

theorem does_of_step {out : Outside} {t : TaskId} {e : Engine} {l : RefreshLoop}
    {s : EngineStep RefreshLoop Unit} (h : l.step out t e = some s) : Does out t e l s := by
  cases l with
  | start =>
    simp only [step] at h
    split at h <;> cases h
    · exact .idle ‹_›
    · exact .start ‹_›
  | looking tick =>
    simp only [step] at h
    split at h <;> rename_i hfind <;> cases h
    · exact .take hfind
    · rename_i hne
      exact .heed hfind hne
    · exact .listen hfind
  | waiting tick =>
    obtain ⟨w, hfind, rfl⟩ := Option.map_eq_some_iff.1 h
    exact .awake hfind
  | running tick r =>
    obtain ⟨s', hs', rfl⟩ := Option.map_eq_some_iff.1 h
    exact .run hs'

end RefreshLoop

namespace RetentionLoop

/-- What the loop that prunes the history does with a step. -/
inductive Does (out : Outside) (t : TaskId) (e : Engine) :
    RetentionLoop → EngineStep RetentionLoop Unit → Prop
  | start : Does out t e .start ⟨e, .stage (.waiting out.ms), []⟩
  | stop {tick : Nat} : e.isFired .shutdown = true → Does out t e (.waiting tick) (finish t e)
  | breakDown {tick : Nat} : e.isFired .shutdown = false → tick ≤ out.ms →
    (e.retain out e.scheduler.retentionDays).1 = .brokeDown →
    Does out t e (.waiting tick) (finish t (e.retain out e.scheduler.retentionDays).2)
  | prune {tick : Nat} : e.isFired .shutdown = false → tick ≤ out.ms →
    (e.retain out e.scheduler.retentionDays).1 ≠ .brokeDown →
    Does out t e (.waiting tick)
      ⟨(e.retain out e.scheduler.retentionDays).2,
        .stage (.waiting (tick + retentionIntervalMs)), []⟩

theorem does_of_step {out : Outside} {t : TaskId} {e : Engine} {l : RetentionLoop}
    {s : EngineStep RetentionLoop Unit} (h : l.step out t e = some s) : Does out t e l s := by
  cases l with
  | start =>
    cases h
    exact .start
  | waiting tick =>
    simp only [step] at h
    split at h <;> rename_i hfired
    · cases h
      exact .stop hfired
    · have hkept := Bool.eq_false_iff.2 hfired
      split at h
      · rename_i hms
        split at h <;> rename_i hretain <;> cases h
        · have hdoes : Does out t e (.waiting tick) _ :=
            .breakDown hkept hms (congrArg Prod.fst hretain)
          rwa [hretain] at hdoes
        · rename_i x _ hwhole
          have hne : (e.retain out e.scheduler.retentionDays).1 ≠ .brokeDown := by
            rw [hretain]
            exact hwhole
          have hdoes : Does out t e (.waiting tick) _ := .prune hkept hms hne
          rwa [hretain] at hdoes
      · cases h

end RetentionLoop

namespace Stop

/-- What a task that stops the scheduler does with a step. -/
inductive Does (e : Engine) : Stop → EngineStep Stop Unit → Prop
  | fire :
    Does e .start ⟨(e.fire .shutdown).onScheduler fun s => { s with started := [] },
      .stage (.joining e.scheduler.started), []⟩
  | finish {loops : List TaskId} : loops.any e.scheduler.alive.contains = false →
    Does e (.joining loops) ⟨e, .done (), []⟩

theorem does_of_step {e : Engine} {x : Stop} {s : EngineStep Stop Unit} (h : x.step e = some s) :
    Does e x s := by
  cases x with
  | start =>
    cases h
    exact .fire
  | joining loops =>
    simp only [step] at h
    split at h <;> rename_i hloops <;> cases h
    exact .finish (Bool.eq_false_iff.2 hloops)

end Stop

end MetricBoard
