import Mathlib.Data.List.Forall2
import MetricBoard.Proofs.Refresh.Cancellation

/-!
# What a batch answers

A report answers for some definitions if it has one outcome for each, in their order, with its id
and its server, and each outcome counts once (`Report.AnswersFor`). The report of a batch whose
metrics have ended answers for its definitions, whatever has become of the metrics
(`Operation.answersFor`).

The task of a batch (`World.Runs`) comes to nothing but such a report (`World.Runs.result`). While
it has not, it can go on itself, or a metric can, or one is being refreshed (`World.Runs.goesOn`).
-/

namespace MetricBoard

/-! ## Reports that answer for a batch -/

/-- An outcome of a metric has its id and its server, and is no success that was cancelled. -/
structure Outcome.IsOf (o : Outcome) (d : Definition) : Prop where
  id : o.id = d.id
  target : o.target = d.target
  isCancelled : o.success = true → o.isCancelled = false

/-- A report has one outcome for each definition, in their order, with its id and its server, and
each counts as a success, as a failure or as cancelled. -/
structure Report.AnswersFor (r : Report) (ds : List Definition) : Prop where
  outcomes : r.outcomes.map (fun o => (o.id, o.target)) = ds.map fun d => (d.id, d.target)
  counts : r.succeeded + r.failed + r.cancelled = ds.length

/-- The report that a task has come to. -/
def Result.report? : Result → Option Report
  | reported (.value r) => r
  | _ => none

/-- A task has come to a report that answers for some definitions. -/
def Result.AnswersFor (res : Result) (ds : List Definition) : Prop :=
  ∃ r, res.report? = some r ∧ r.AnswersFor ds

/-- No outcome counts twice. -/
theorem Outcome.countP_add_countP {os : List Outcome}
    (h : ∀ o ∈ os, o.success = true → o.isCancelled = false) :
    os.countP success + os.countP isFailed + os.countP isCancelled = os.length := by
  induction os with
  | nil => rfl
  | cons o os ih =>
    rw [List.forall_mem_cons] at h
    have hrest := ih h.2
    rw [List.countP_cons, List.countP_cons, List.countP_cons, List.length_cons, isFailed]
    cases hs : o.success with
    | true =>
      simp only [h.1 hs, Bool.not_true, Bool.false_and, Bool.false_eq_true, if_false, if_true]
      omega
    | false => cases o.isCancelled <;> simp <;> omega

theorem Report.AnswersFor.of_forall₂ {r : Report} {ds : List Definition}
    (h : List.Forall₂ Outcome.IsOf r.outcomes ds) : r.AnswersFor ds where
  outcomes := by
    generalize r.outcomes = os at h
    induction h with
    | nil => rfl
    | cons ho _ ih => rw [List.map_cons, List.map_cons, ho.id, ho.target, ih]
  counts := by
    rw [← h.length_eq]
    refine Outcome.countP_add_countP fun o ho => ?_
    obtain ⟨i, hi, rfl⟩ := List.getElem_of_mem ho
    exact (h.get hi (h.length_eq ▸ hi)).isCancelled

namespace Metric

variable {b i : Nat} {d : Definition} {token : Token} {xs : List Move} {o : Option Outcome}

theorem outcome_isOf (d : Definition) (x : Except Failure Binary64) (elapsedMs : Nat)
    (persisted : Bool) : (outcome d x elapsedMs persisted).IsOf d := by
  refine ⟨outcome_id .., outcome_target .., fun hs => ?_⟩
  cases x with
  | ok v => rfl
  | error f => cases hs

/-- Whatever has come of a metric, what is reported of it is an outcome of its own. -/
theorem Settled.isOf (h : Settled b i d token xs o) : (o.getD (.aborted d)).IsOf d := by
  cases h with
  | givenUp => exact ⟨rfl, rfl, fun hs => by cases hs⟩
  | brokenDown => exact ⟨rfl, rfl, fun hs => by cases hs⟩
  | refreshed _ hrefreshed =>
    obtain ⟨x, -, startedMs, result, accepted, -, -, rfl⟩ := hrefreshed
    exact outcome_isOf ..

end Metric

/-- **A batch answers for its definitions.** -/
theorem Operation.answersFor {xs : List Move} {w : World} (h : Operation xs w) {b : Nat} {k : Batch}
    (hk : w.engine.batches[b]? = some k) (hzero : k.unfinished = 0) (id : String) (now : Moment) :
    (k.report id now).AnswersFor k.definitions := by
  obtain ⟨hlength, hended⟩ := h.ended_of_unfinished hk hzero id now
  refine .of_forall₂ (List.forall₂_iff_get.2 ⟨hlength, fun i ho hd => ?_⟩)
  obtain ⟨o, hreported, hpath⟩ := hended i _ (List.getElem?_eq_getElem hd)
  rw [List.getElem?_eq_getElem ho] at hreported
  rw [List.get_eq_getElem, Option.some.inj hreported]
  exact hpath.settled.isOf

/-! ## The task of a batch -/

namespace World

variable {w w' : World} {out : Outside} {t u : TaskId} {b : Nat} {ds : List Definition}
  {token : Token} {res : Option Result} {o : RefreshOptions} {e : Engine}

/-- A task runs a batch, or has ended: it waits for the metrics, or keeps the report that was made
of them. -/
structure Runs (w : World) (u : TaskId) (b : Nat) (ds : List Definition) : Prop where
  lt : u < w.tasks.length
  batch : ∃ k, w.engine.batches[b]? = some k ∧ k.definitions = ds
  stage : ∀ a, w.activity? u = some a → a = .batch (.joining b) ∨
    ∃ r k, a = .batch (.reporting r) ∧ w.engine.batches[b]? = some k ∧ k.unfinished = 0 ∧
      r = k.report r.id r.finishedAt

/-- The world after task `u` has begun a batch. -/
def begun (w : World) (u : TaskId) (ds : List Definition) (token : Token) (now : Moment)
    (admission : Admission) : World :=
  w.after u { w.engine with batches := w.engine.batches ++ [.start ds token now admission] }
    (some (.batch (.joining w.engine.batches.length)))
    ((List.range ds.length).map fun i => .metric w.engine.batches.length i .start)

/-- The first step of the task of a batch: what is no batch is refused, and a batch begins, unless
it has too many permits. -/
theorem step_start (hu : w.activity? u = some (.batch (.start ds token))) (out : Outside) :
    w.step out u = some (
      match Batch.validate ds, Admission.ofOptions? w.engine.options with
      | .error fault, _ => (w.after u w.engine none [], some (.reported (.error fault)))
      | .ok (), none => (w.after u w.engine none [], some (.reported .brokeDown))
      | .ok (), some admission => (w.begun u ds token out.now admission, none)) := by
  have hout : (w.outside out).now = out.now := rfl
  simp only [step, hu, Option.bind_eq_bind, Option.bind_some, Activity.step, BatchRun.step]
  cases Batch.validate ds with
  | error fault => rfl
  | ok =>
    cases Admission.ofOptions? w.engine.options with
    | none => rfl
    | some admission =>
      simp [EngineStep.within, Next.within, begun, after, Function.comp_def, Spawn.activity, hout]

section Begun

variable (hu : w.activity? u = some (.batch (.start ds token))) (now : Moment)
  (admission : Admission)
include hu

theorem opens?_begun :
    Move.opens? ⟨w, u, out, w.begun u ds token now admission, res⟩ =
      some (w.engine.batches.length, ds) := by
  simp [Move.opens?, begun, hu, activity?_after_self _ _ _ (lt_of_activity? hu), Activity.batch?]

theorem Runs.begun :
    (w.begun u ds token now admission).Runs u w.engine.batches.length ds where
  lt := by
    rw [World.begun, length_after]
    exact Nat.lt_add_right _ (lt_of_activity? hu)
  batch := ⟨_, List.getElem?_concat_length, rfl⟩
  stage a ha := by
    rw [World.begun, activity?_after_self _ _ _ (lt_of_activity? hu)] at ha
    exact .inl (Option.some.inj ha).symm

end Begun

namespace Runs

theorem begin (h : w.Runs u b ds) (a : Activity) : (w.spawn [a]).Runs u b ds where
  lt := by
    rw [spawn, List.length_append]
    exact Nat.lt_add_right _ h.lt
  batch := h.batch
  stage a' ha := by
    rw [activity?_spawn, if_neg (Nat.ne_of_lt h.lt)] at ha
    exact h.stage a' ha

theorem change (h : w.Runs u b ds) (he : e.batches = w.engine.batches) :
    World.Runs { w with engine := e } u b ds where
  lt := h.lt
  batch := he ▸ h.batch
  stage := he ▸ h.stage

/-- A step of the task is the one that makes the report, or the one that keeps it. -/
theorem cases_step (h : w.Runs u b ds) (hstep : w.step out u = some (w', res)) :
    (∃ k, w.activity? u = some (.batch (.joining b)) ∧ w.engine.batches[b]? = some k ∧
      k.unfinished = 0 ∧ res = none ∧
      w' = w.after u w.engine
        (some (.batch (.reporting (k.report out.freshId out.now)))) []) ∨
    ∃ r k storage, w.activity? u = some (.batch (.reporting r)) ∧
      w.engine.batches[b]? = some k ∧ k.unfinished = 0 ∧ r = k.report r.id r.finishedAt ∧
      res = some (.reported (.value (some r))) ∧
      w' = w.after u { w.engine with storage := storage } none [] := by
  obtain ⟨a, s, ha, hs, rfl, rfl⟩ := step_eq_some hstep
  rcases h.stage a ha with rfl | ⟨r, k, rfl, hk, hzero, hr⟩
  · obtain ⟨k, hk, -⟩ := h.batch
    simp only [Activity.step, BatchRun.step, hk, Option.map_eq_some_iff] at hs
    obtain ⟨s', hs', rfl⟩ := hs
    split at hs' <;> cases hs'
    exact .inl ⟨k, ha, hk, ‹_›, rfl, rfl⟩
  · simp only [Activity.step, BatchRun.step, Option.map_eq_some_iff] at hs
    obtain ⟨s', hs', rfl⟩ := hs
    cases hs'
    exact .inr ⟨r, k, _, ha, hk, hzero, hr, rfl, rfl⟩

/-- **The task goes on to run its batch.** -/
theorem step (h : w.Runs u b ds) (hw : w.Regular) (hstep : w.step out t = some (w', res)) :
    w'.Runs u b ds := by
  obtain ⟨k, hk, hds⟩ := h.batch
  by_cases hut : t = u
  · subst hut
    rcases h.cases_step hstep with
      ⟨k', -, hk', hzero, -, rfl⟩ | ⟨r, k', storage, -, -, -, -, -, rfl⟩
    · refine ⟨by rw [length_after]; exact h.lt, h.batch, fun a ha => .inr ?_⟩
      rw [activity?_after_self _ _ _ h.lt] at ha
      exact ⟨_, k', (Option.some.inj ha).symm, hk', hzero, rfl⟩
    · refine ⟨by rw [length_after]; exact h.lt, h.batch, fun a ha => ?_⟩
      rw [activity?_after_self _ _ _ h.lt] at ha
      cases ha
  · have hbatch := hw.batchStep hstep
    obtain ⟨k', hk', hds', -⟩ := hbatch.exists_batch hk
    obtain ⟨a, s, ha, -, rfl, -⟩ := step_eq_some hstep
    have hsame := activity?_after_of_lt s.engine s.next.stage? (s.spawns.map Spawn.activity)
      (lt_of_activity? ha) h.lt (Ne.symm hut)
    refine ⟨by rw [length_after]; exact Nat.lt_add_right _ h.lt, ⟨k', hk', hds'.trans hds⟩,
      fun a' ha' => ?_⟩
    rw [hsame] at ha'
    rcases h.stage a' ha' with rfl | ⟨r, k₀, rfl, hk₀, hzero, hr⟩
    · exact .inl rfl
    · exact .inr ⟨r, k₀, rfl, hw.getElem?_of_unfinished hbatch hk₀ hzero, hzero, hr⟩

/-- The task comes to a report that answers for the batch. -/
theorem result (h : w.Runs u b ds) {xs : List Move} (hop : Operation xs w) {x : Result}
    (hstep : w.step out u = some (w', some x)) : x.AnswersFor ds := by
  obtain ⟨k, hk, rfl⟩ := h.batch
  rcases h.cases_step hstep with
    ⟨-, -, -, -, hres, -⟩ | ⟨r, k', -, -, hk', hzero, hr, hres, -⟩
  · cases hres
  · obtain rfl : k = k' := Option.some.inj (hk.symm.trans hk')
    obtain rfl := Option.some.inj hres
    exact ⟨r, rfl, hr ▸ hop.answersFor hk hzero ..⟩

/-- Until the task has ended, it can go on, or a metric of its batch has not ended. -/
theorem ready (h : w.Runs u b ds) (hw : w.Regular) (hadmits : w.Admits o b ds)
    (hu : w.activity? u ≠ none) :
    (∀ out, (w.step out u).isSome = true) ∨ ∃ t p, w.metricIn? b ds t = some p := by
  obtain ⟨a, ha⟩ := Option.ne_none_iff_exists'.1 hu
  rcases h.stage a ha with rfl | ⟨r, k, rfl, -⟩
  · obtain ⟨k, hk, -⟩ := h.batch
    rcases Nat.eq_zero_or_pos (w.left b) with hleft | hleft
    · refine .inl fun out => ?_
      have hzero : k.unfinished = 0 := (hw.unfinished b k hk).trans hleft
      simp [World.step, ha, Activity.step, BatchRun.step, hk, hzero, EngineStep.within, Next.within]
    · exact .inr (hadmits.exists_metricIn? hw hleft)
  · refine .inl fun out => ?_
    simp [World.step, ha, Activity.step, BatchRun.step, EngineStep.within, Next.within]

/-- Until the task has ended, it can go on, or a metric of its batch can, or one is being
refreshed. -/
theorem goesOn (h : w.Runs u b ds) (hw : w.Regular) (hadmits : w.Admits o b ds)
    (hu : w.activity? u ≠ none) :
    (∃ t, (t = u ∨ (w.metricIn? b ds t).isSome = true) ∧
        ∀ out, (w.step out t).isSome = true) ∨
      ∃ t p, w.metricIn? b ds t = some p ∧ p.2.isRefreshing = true := by
  rcases h.ready hw hadmits hu with hstep | ⟨t, p, hp⟩
  · exact .inl ⟨u, .inl rfl, hstep⟩
  · obtain ⟨t', q, hq, hrefreshing | hstep⟩ :=
      hadmits.exists_ready 2 hp fun _ _ _ _ _ => Nat.le_add_left ..
    · exact .inr ⟨t', q, hq, hrefreshing⟩
    · exact .inl ⟨t', .inr (by rw [hq]; rfl), hstep⟩

end Runs

end World

end MetricBoard
