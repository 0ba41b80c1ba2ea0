import MetricBoard.Proofs.Refresh.Alone

/-!
# All of a batch or nothing

What is no batch is refused at once, and nothing has been touched by then; what is one is answered
for as a whole (`Operation.answers_for_whole_batch`), however the engine is operated meanwhile,
whenever the batch is cancelled and whichever of its metrics break down. There is one exception: a
batch with more permits than can be handed out breaks down itself, before it has begun
(`Operation.not_answered_huge`).
-/

namespace MetricBoard

/-- Definitions that are no batch: there are none, or one has no id, or two have the same. -/
def Batch.IsMalformed (ds : List Definition) : Prop :=
  ds = [] ∨ (∃ d ∈ ds, Text.isBlankText d.id = true) ∨ ¬(ds.map Definition.id).Nodup

theorem Batch.not_isMalformed_iff {ds : List Definition} :
    ¬IsMalformed ds ↔ validate ds = .ok () := by
  rw [validate_eq_ok_iff, IsMalformed]
  simp only [not_or, not_exists, not_and, not_not, Bool.not_eq_true, ne_eq]

namespace Operation

variable {xs ps qs : List Move} {w : World} {x y : Move} {ds : List Definition} {token : Token}

/-! ## Later steps of a task -/

/-- What has happened before a later step is an operation as well. -/
theorem of_mem_later (h : Operation (ps ++ x :: qs) w) (hy : y ∈ qs) :
    ∃ qs', Operation (ps ++ x :: qs') y.before ∧
      y.before.step y.outside y.task = some (y.after, y.result) := by
  obtain ⟨qs', rs, rfl⟩ := List.append_of_mem hy
  rw [← List.cons_append, ← List.append_assoc] at h
  exact ⟨qs', h.of_append⟩

/-- A task that has ended takes no further step. -/
theorem task_ne_of_ended (h : Operation (ps ++ x :: qs) w)
    (hnone : x.after.activity? x.task = none) (hy : y ∈ qs) : y.task ≠ x.task := by
  intro htask
  obtain ⟨qs', hop, hstep⟩ := h.of_mem_later hy
  have hended : x.task < y.before.tasks.length ∧ y.before.activity? x.task = none := by
    refine hop.induction_from
      (P := fun v => x.task < v.tasks.length ∧ v.activity? x.task = none) (x := x) (by simp)
      (fun _ hx => ?_) (fun v a _ hv => ?_) (fun _ _ _ hv => hv) fun v v' out t res _ ht hv => ?_
    · obtain ⟨a, s, ha, -, hafter, -⟩ := World.step_eq_some hx
      refine ⟨?_, hnone⟩
      rw [hafter, World.length_after]
      exact Nat.lt_add_right _ (World.lt_of_activity? ha)
    · rw [World.activity?_spawn, if_neg hv.1.ne, World.spawn, List.length_append]
      exact ⟨Nat.lt_add_right _ hv.1, hv.2⟩
    · obtain ⟨a, s, ha, -, rfl, -⟩ := World.step_eq_some ht
      have hne : x.task ≠ t := fun heq => by
        rw [← heq, hv.2] at ha
        cases ha
      rw [World.length_after,
        World.activity?_after_of_lt _ _ _ (World.lt_of_activity? ha) hv.1 hne]
      exact ⟨Nat.lt_add_right _ hv.1, hv.2⟩
  obtain ⟨a, -, ha, -⟩ := World.step_eq_some hstep
  rw [htask, hended.2] at ha
  cases ha

/-- A batch that has begun is run by its task from then on. -/
theorem runs (h : Operation xs w) (hx : x ∈ xs)
    (hu : x.before.activity? x.task = some (.batch (.start ds token))) {admission : Admission}
    (hafter : x.after = x.before.begun x.task ds token x.outside.now admission) :
    w.Runs x.task x.before.engine.batches.length ds :=
  h.induction_from (P := fun v => v.Runs x.task x.before.engine.batches.length ds) hx
    (fun _ _ => hafter ▸ .begun hu x.outside.now admission)
    (fun _ a _ hv => hv.begin a) (fun _ _ he hv => hv.change he)
    fun _ _ _ _ _ hw hstep hv => hv.step hw hstep

/-! ## All or nothing -/

/-- **A batch is answered for as a whole, or nothing is touched.** A batch is asked for, and its
task takes its first step; whatever else is done with the engine before and after:

* the task comes to an error exactly if the definitions are malformed, and then it has ended with
  that step, which has asked no server and changed nothing in the engine;
* if they are not, and there are not too many permits, it comes to nothing but a report that answers
  for all of them. Until it has, it can go on, or a metric of its batch can, or one is being
  refreshed. If the router is at rest and nobody else does anything, it comes to that report,
  however its tasks follow one another, whatever they are answered, and whenever it is cancelled;
* if there are too many permits, it breaks down with its first step, and nothing is touched. -/
theorem answers_for_whole_batch (h : Operation (ps ++ x :: qs) w)
    (hu : x.before.activity? x.task = some (.batch (.start ds token))) :
    let o := x.before.engine.options
    let b := x.before.engine.batches.length
    let untouched := x.before.request? x.task = none ∧
      x.after = x.before.after x.task x.before.engine none []
    ((∃ y ∈ x :: qs, y.task = x.task ∧ ∃ fault, y.result = some (.reported (.error fault))) ↔
      Batch.IsMalformed ds) ∧
    (Batch.IsMalformed ds → untouched) ∧
    (¬Batch.IsMalformed ds →
      if o.maxInFlight ≤ maxPermits ∧ o.relationalConcurrency ≤ maxPermits then
        (∀ y ∈ x :: qs, y.task = x.task → ∀ res, y.result = some res → res.AnswersFor ds) ∧
        (w.activity? x.task ≠ none →
          (∃ t, (t = x.task ∨ (w.metricIn? b ds t).isSome = true) ∧
            ∀ out, (w.step out t).isSome = true) ∨
          ∃ t p, w.metricIn? b ds t = some p ∧ p.2.isRefreshing = true) ∧
        (x.before.engine.router.AtRest → (∀ t, t ≠ x.task → x.before.activity? t = none) →
          x.before.Ends x.task token fun res => res.AnswersFor ds)
      else x.result = some (.reported .brokeDown) ∧ untouched) := by
  intro o b untouched
  obtain ⟨hbefore, hstep⟩ := h.of_append
  have hstart := World.step_start hu x.outside
  have hrequest : x.before.request? x.task = none := by
    rw [World.request?, hu]
    rfl
  rw [hstep] at hstart
  cases hvalid : Batch.validate ds with
  | error fault =>
    have hmalformed : Batch.IsMalformed ds := by
      by_contra hno
      rw [Batch.not_isMalformed_iff, hvalid] at hno
      cases hno
    rw [hvalid] at hstart
    obtain ⟨hafter, hres⟩ := Prod.mk.inj (Option.some.inj hstart)
    exact ⟨iff_of_true ⟨x, List.mem_cons_self, rfl, fault, hres⟩ hmalformed,
      fun _ => ⟨hrequest, hafter⟩, fun hno => (hno hmalformed).elim⟩
  | ok =>
    have hwhole : ¬Batch.IsMalformed ds := Batch.not_isMalformed_iff.2 hvalid
    rw [hvalid] at hstart
    cases hadmission : Admission.ofOptions? x.before.engine.options with
    | none =>
      rw [hadmission] at hstart
      obtain ⟨hafter, hres⟩ := Prod.mk.inj (Option.some.inj hstart)
      refine ⟨iff_of_false ?_ hwhole, fun hmalformed => (hwhole hmalformed).elim, fun _ => ?_⟩
      · rintro ⟨y, hy, htask, fault, hfault⟩
        rcases List.mem_cons.1 hy with rfl | hy
        · rw [hres] at hfault
          cases hfault
        · refine h.task_ne_of_ended ?_ hy htask
          rw [hafter, World.activity?_after_self _ _ _ (World.lt_of_activity? hu)]
      · rw [if_neg (Admission.ofOptions?_eq_none_iff.1 hadmission)]
        exact ⟨hres, hrequest, hafter⟩
    | some admission =>
      have hpermits : o.maxInFlight ≤ maxPermits ∧ o.relationalConcurrency ≤ maxPermits := by
        by_contra hno
        rw [Admission.ofOptions?_eq_none_iff.2 hno] at hadmission
        cases hadmission
      rw [hadmission] at hstart
      obtain ⟨hafter, hres⟩ := Prod.mk.inj (Option.some.inj hstart)
      have hanswers : ∀ y ∈ x :: qs, y.task = x.task → ∀ res, y.result = some res →
          res.AnswersFor ds := by
        intro y hy htask res hy_res
        rcases List.mem_cons.1 hy with rfl | hy
        · rw [hres] at hy_res
          cases hy_res
        · obtain ⟨qs', hop, hystep⟩ := h.of_mem_later hy
          rw [htask, hy_res] at hystep
          exact (hop.runs (by simp) hu hafter).result hop hystep
      refine ⟨iff_of_false ?_ hwhole, fun hmalformed => (hwhole hmalformed).elim, fun _ => ?_⟩
      · rintro ⟨y, hy, htask, fault, hfault⟩
        obtain ⟨r, hr, -⟩ := hanswers y hy htask _ hfault
        cases hr
      · rw [if_pos hpermits]
        have hx : x ∈ ps ++ x :: qs := by simp
        have hopens : x.opens? = some (b, ds) := by
          have hbegun : Move.opens? ⟨x.before, x.task, x.outside,
              x.before.begun x.task ds token x.outside.now admission, x.result⟩ = some (b, ds) :=
            World.opens?_begun hu x.outside.now admission
          rwa [← hafter] at hbegun
        refine ⟨hanswers, (h.runs hx hu hafter).goesOn h.regular (h.admits hx hopens),
          fun hrest hothers => ?_⟩
        exact World.ends hbefore hu hothers hrest hvalid (by rw [hadmission]; rfl)

/-! ### A batch of which little is left -/

/-- Two metrics that are counted. -/
def twoCounts : List Definition :=
  [counting "known" "COUNT(*) FROM t", counting "late" "COUNT(*) FROM t"]

/-- The driver breaks down under the first metric, and the batch is cancelled before the second one
begins. -/
def brokenOff : List Engine.Cue :=
  List.flatten
    [[.begin (.batch (.start twoCounts (.named "stop"))), .move 0 none], steps 1 7,
      [.move 1 (some .connected)], steps 1 4, [.fire (.named "stop"), .move 1 (some .brokeDown)],
      steps 1 4, steps 2 2, steps 0 2]

/-- Neither metric is counted, and both are answered for; and so it goes whatever happens. -/
theorem answers_for_whole_batch_brokenOff :
    ∃ r, (∃ y ∈ (picky.enact brokenOff).1, y.result.bind Result.report? = some r) ∧
      r.outcomes.map (fun o => (o.id, o.success, o.errorKind)) =
        [("known", false, some .unknown), ("late", false, some .cancelled)] ∧
      r.AnswersFor twoCounts ∧
      (World.mk picky [some (.batch (.start twoCounts (.named "stop")))]).Ends 0 (.named "stop")
        fun res => res.AnswersFor twoCounts := by
  obtain ⟨x, qs, hxs⟩ : ∃ x qs, (picky.enact brokenOff).1 = x :: qs :=
    List.exists_cons_of_ne_nil (by decide +kernel)
  have hhead : (picky.enact brokenOff).1.head?.map (fun x => (x.before, x.task)) =
      some (⟨picky, [some (.batch (.start twoCounts (.named "stop")))]⟩, 0) := by
    decide +kernel
  have htold : [("known", false, some ErrorKind.unknown), ("late", false, some .cancelled)] ∈
      ((picky.enact brokenOff).1.filterMap fun y => y.result.bind Result.report?).map
        fun r => r.outcomes.map fun o => (o.id, o.success, o.errorKind) := by
    decide +kernel
  have htasks : ∀ y ∈ (picky.enact brokenOff).1,
      (y.result.bind Result.report?).isSome = true → y.task = 0 := by
    decide +kernel
  obtain ⟨r, hr, houtcomes⟩ := List.mem_map.1 htold
  obtain ⟨y, hy, hyr⟩ := List.mem_filterMap.1 hr
  have hy_task := htasks y hy (by rw [hyr]; rfl)
  have hop := Operation.enact (e := picky) rfl brokenOff
  rw [hxs] at hop hhead
  rw [← List.nil_append (x :: qs)] at hop
  obtain ⟨hbefore, htask⟩ := Prod.mk.inj (Option.some.inj hhead)
  have hbatch : x.before.activity? x.task =
      some (.batch (.start twoCounts (.named "stop"))) := by
    rw [hbefore, htask]
    rfl
  obtain ⟨-, -, hwhole⟩ := answers_for_whole_batch hop hbatch
  have hvalid : ¬Batch.IsMalformed twoCounts := Batch.not_isMalformed_iff.2 (by decide)
  have hpermits : x.before.engine.options.maxInFlight ≤ maxPermits ∧
      x.before.engine.options.relationalConcurrency ≤ maxPermits := by
    rw [hbefore]
    decide
  have hall := hwhole hvalid
  rw [if_pos hpermits, hbefore, htask] at hall
  obtain ⟨hanswers, -, hends⟩ := hall
  obtain ⟨res, hres, hreport⟩ := Option.bind_eq_some_iff.1 hyr
  obtain ⟨r', hr', hanswersFor⟩ := hanswers y (hxs ▸ hy) hy_task res hres
  obtain rfl : r = r' := Option.some.inj (hreport.symm.trans hr')
  refine ⟨r, ⟨y, hy, hyr⟩, houtcomes, hanswersFor, hends ?_ fun t ht => ?_⟩
  · exact .of_new rfl rfl
  · cases t with
    | zero => exact absurd rfl ht
    | succ t => rfl

/-- A batch that may refresh 2^61 metrics at a time breaks down, though it is one metric that can be
counted. -/
theorem not_answered_huge :
    ∃ e : Engine, e.options.maxInFlight = 2305843009213693952 ∧
      ¬Batch.IsMalformed [counting "known" "COUNT(*) FROM t"] ∧
      ∃ xs w, Operation xs w ∧ ∃ x ∈ xs,
        x.before.activity? x.task =
          some (.batch (.start [counting "known" "COUNT(*) FROM t"] .never)) ∧
        x.result = some (.reported .brokeDown) := by
  let e : Engine := { picky with options := { maxInFlight := 2305843009213693952 } }
  let cues : List Engine.Cue :=
    [.begin (.batch (.start [counting "known" "COUNT(*) FROM t"] .never)), .move 0 none]
  refine ⟨e, rfl, Batch.not_isMalformed_iff.2 (by decide), (e.enact cues).1,
    (e.enact cues).2, .enact rfl cues, ?_⟩
  decide

end Operation

end MetricBoard
