import MetricBoard.Proofs.Refresh.Answers

/-!
# A batch that is left alone

A batch that begins while the router is at rest, and that nobody else gets in the way of, has all
locks to itself (`World.Alone`). However its tasks follow one another, whatever they are answered,
also where a driver breaks down, and whenever the token of the batch is fired, some task can go on,
and in the end the batch has come to its report (`World.Ends`, `World.Alone.ends`): the locks are
asked for in one order, so that not all tasks wait (`World.exists_free`), and each step brings some
task nearer to its end (`World.LoneStep.rank_lt`).
-/

namespace MetricBoard

/-! ## The connections that a metric names -/

namespace Compute

variable {t : TaskId} {ans : Option Answer} {limitMs : Nat} {r : Router} {c : Compute}
  {s : RouterStep Compute ExecuteResult}

/-- The call on the router that a computation is at. -/
def call : Compute → Call
  | acquiring _ a => .acquire a
  | executing x => .execute x

theorem standing_call (c : Compute) (l : Lock) : c.call.current.standing l = c.standing l := by
  cases c with
  | acquiring => rfl
  | executing x => cases x <;> rfl

theorem step_refers (h : c.step t ans limitMs r = some s) (hc : c.call.current.Refers r)
    (hr : r.Coherent) :
    s.next.All (fun c' => c'.call.current.Refers s.router) fun _ => True := by
  cases c with
  | acquiring sql a =>
    obtain ⟨s', hs', rfl⟩ := Option.map_eq_some_iff.1 h
    refine (Acquire.step_refers hs' hc hr).within (fun _ ha => ha) fun x hx => ?_
    cases x with
    | ok c => exact hx c rfl
    | error e => trivial
  | executing x =>
    obtain ⟨s', hs', rfl⟩ := Option.map_eq_some_iff.1 h
    have hcall : (Call.execute x).step t ans r =
        some (s'.within .execute fun y => .done (.executed y)) := by rw [Call.step, hs']; rfl
    simp only [RouterStep.within] at hcall ⊢
    cases hn : s'.next with
    | stage x' =>
      rw [hn] at hcall
      exact Call.refers_of_step hcall hc hr rfl
    | done y => trivial

end Compute

namespace Metric

variable {out : Outside} {t : TaskId} {b i : Nat} {k : Batch} {d : Definition} {e : Engine}
  {m : Metric} {s : EngineStep Metric Unit}

/-- The connections that a metric names are there. -/
def Refers (r : Router) : Metric → Prop
  | computing _ c => c.call.current.Refers r
  | _ => True

theorem Refers.mono {r r' : Router} (h : m.Refers r) (hr : r.Extends r') : m.Refers r' := by
  cases m with
  | computing => exact Call.Refers.mono h hr
  | _ => trivial

theorem begin_refers (options : RefreshOptions) (d : Definition) (ms : Nat) (r : Router) :
    (begin options d ms).Refers r := by
  unfold begin
  split <;> trivial

theorem step_refers (h : m.step out t b i k d e = some s) (hm : m.Refers e.router)
    (hr : e.router.Coherent) : s.next.All (Refers s.engine.router) fun _ => True := by
  cases does_of_step h with
  | begin => exact begin_refers ..
  | compute hs =>
    refine (Compute.step_refers hs hm hr).within (fun _ hc => hc) fun x _ => ?_
    cases x <;> trivial
  | _ => trivial

/-- A metric has asked only for turns on connections that it names. -/
theorem target?_of_standing {target : Target} {c : ConnectionId} {r : Router}
    (h : m.standing target (.turn c) ≠ .away) (hm : m.Refers r) :
    ∃ u, r.target? c = some u := by
  cases m with
  | computing startedMs x =>
    change x.standing (.turn c) ≠ .away at h
    rw [← x.standing_call] at h
    exact Call.target?_of_standing h hm
  | _ => exact absurd rfl h

end Metric

/-! ## Not all tasks wait -/

namespace World

variable {w w' : World} {out : Outside} {t u : TaskId} {b i : Nat} {ds : List Definition}
  {token : Token} {res : Option Result} {o : RefreshOptions}

/-- A task waits for no lock. -/
def IsFree (w : World) (b : Nat) (ds : List Definition) (t : TaskId) : Prop :=
  ∀ l s, w.standingIn b ds l t = .queued → w.engine.semaphore? b l = some s → t ∈ s.holders

/-- Of the metrics that wait for locks, the last in the order of the locks waits behind one that
does not wait. -/
theorem exists_free
    (hlocks : ∀ l, ∃ n, 0 < n ∧ LockOk n (w.standingIn b ds l) (w.engine.semaphore? b l)) (n : Nat)
    {p : Target × Metric} (hp : w.metricIn? b ds t = some p)
    (hwait : ∀ l s, w.standingIn b ds l t = .queued → w.engine.semaphore? b l = some s →
      t ∉ s.holders → 3 ≤ l.level + n) :
    ∃ t' q, w.metricIn? b ds t' = some q ∧ w.IsFree b ds t' := by
  induction n generalizing t p with
  | zero =>
    refine ⟨t, p, hp, fun l s hl hs => ?_⟩
    by_contra ht
    have hlevel := hwait l s hl hs ht
    cases l <;> simp [Lock.level] at hlevel
  | succ n ih =>
    by_cases hfree : w.IsFree b ds t
    · exact ⟨t, p, hp, hfree⟩
    · simp only [IsFree, not_forall] at hfree
      obtain ⟨l, s, hl, hs, ht⟩ := hfree
      obtain ⟨limit, hpos, hlock⟩ := hlocks l
      obtain ⟨htracks, -, rfl⟩ := hlock s hs
      obtain ⟨v, hv⟩ := htracks.exists_holder hpos (by rw [hl]; exact Standing.noConfusion) ht
      have huses := htracks.uses_of_mem hv
      rw [standingIn] at huses
      cases hq : w.metricIn? b ds v with
      | none => exact absurd (by rw [hq]; rfl) huses
      | some q =>
        rw [hq, Option.elim_some] at huses
        refine ih hq fun l' s' hl' hs' hv' => ?_
        rw [standingIn, hq, Option.elim_some] at hl'
        have hne : l ≠ l' := by
          rintro rfl
          exact hv' (Option.some.inj (hs.symm.trans hs') ▸ hv)
        have hlt := Metric.level_lt huses hl' hne
        have hle := hwait l s hl hs ht
        omega

/-- A metric that waits for no lock can go on when it is answered. -/
theorem isSome_step_of_isFree (hadmits : w.Admits o b ds) {p : Target × Metric}
    (hp : w.metricIn? b ds t = some p) (hfree : w.IsFree b ds t)
    (hans : Answered (w.request? t) out.answer) : (w.step out t).isSome = true := by
  obtain ⟨i, d, ha, hd, htarget⟩ := metricIn?_eq_some hp
  obtain ⟨k, hk, rfl⟩ := hadmits.batch
  refine Option.isSome_iff_ne_none.2 fun hstuck => ?_
  have hnone := step_eq_none ha hstuck
  simp only [Activity.step, hk, hd, Option.map_eq_none_iff] at hnone
  rw [request?, ha] at hans
  obtain ⟨l, s, hl, hs, ht⟩ := Metric.blocked hk hans hnone
  exact ht (hfree l s (by rw [standingIn_of_activity? ha hd]; exact hl) hs)

/-! ## A batch alone -/

/-- A batch has begun and nobody else does anything: there are the task that runs it, its metrics,
and tasks that close connections. The locks are in the hands of the metrics that stand inside. -/
structure Alone (w : World) (u : TaskId) (o : RefreshOptions) (b : Nat) (ds : List Definition) :
    Prop where
  runs : w.Runs u b ds
  admits : w.Admits o b ds
  others : ∀ t a, t ≠ u → w.activity? t = some a →
    (∃ i m, a = .metric b i m) ∨ ∃ c, a = .call (.closing c)
  coherent : w.engine.router.Coherent
  refers : ∀ t p, w.metricIn? b ds t = some p → p.2.Refers w.engine.router
  locks : ∀ l, o.permits? l = none →
    LockOk 1 (w.standingIn b ds l) (w.engine.semaphore? b l)

/-- What a step is to a batch that is alone. -/
inductive LoneStep (w : World) (u : TaskId) (b : Nat) (ds : List Definition) (out : Outside)
    (t : TaskId) : World → Prop
  | metric {i : Nat} {m : Metric} {k : Batch} {d : Definition} {s : EngineStep Metric Unit} :
    w.activity? t = some (.metric b i m) → w.engine.batches[b]? = some k → ds[i]? = some d →
    m.step (w.outside out) t b i k d w.engine = some s →
    LoneStep w u b ds out t (w.after t s.engine (s.next.stage?.map (.metric b i))
      (s.spawns.map Spawn.activity))
  /-- No metric takes a step, and at most the storage is changed. -/
  | aside {a : Activity} {e : Engine} {x : Option Activity} :
    w.activity? t = some a → a.place? = none → e.router = w.engine.router →
    e.batches = w.engine.batches → x.bind Activity.place? = none →
    x.elim 0 Activity.rank < a.rank → (t ≠ u → x = none) →
    LoneStep w u b ds out t (w.after t e x [])

/-- Each step brings a task nearer to its end. -/
theorem LoneStep.rank_lt (h : w.LoneStep u b ds out t w') : w'.rank < w.rank := by
  cases h with
  | @metric i m k d s ha hk hd hm =>
    have hspawns : ∀ p ∈ s.spawns, (Activity.rank ∘ Spawn.activity) p = 1 := by
      intro p hp
      obtain ⟨c, rfl⟩ := Metric.step_spawns hm p hp
      rfl
    have hnext : (s.next.stage?.map (Activity.metric b i)).elim 0 Activity.rank =
        s.next.rank Metric.rank := by
      cases s.next <;> rfl
    refine World.rank_after_lt ha _ ?_
    rw [hnext, List.map_map, List.map_congr_left hspawns]
    simpa [Activity.rank] using Metric.step_rank hm
  | aside ha _ _ _ _ hlt => exact World.rank_after_lt ha _ (by simpa using hlt)

namespace Alone

theorem loneStep (h : w.Alone u o b ds) (hw : w.Regular) (hstep : w.step out t = some (w', res)) :
    w.LoneStep u b ds out t w' := by
  by_cases hut : t = u
  · subst hut
    rcases h.runs.cases_step hstep with
      ⟨k, ha, -, -, -, rfl⟩ | ⟨r, k, storage, ha, -, -, -, -, rfl⟩
    · exact .aside ha rfl rfl rfl rfl Nat.one_lt_two fun hne => (hne rfl).elim
    · exact .aside ha rfl rfl rfl rfl Nat.one_pos fun _ => rfl
  · obtain ⟨a, s, ha, hs, hw', -⟩ := step_eq_some hstep
    rcases h.others t a hut ha with ⟨i, m, rfl⟩ | ⟨c, rfl⟩
    · obtain ⟨k, hk, rfl⟩ := h.admits.batch
      obtain ⟨k', hk', hi⟩ := hw.known t b i (by rw [place?, ha]; rfl)
      obtain rfl : k = k' := Option.some.inj (hk.symm.trans hk')
      have hd := List.getElem?_eq_getElem hi
      simp only [Activity.step, hk, hd, Option.map_eq_some_iff] at hs
      obtain ⟨s', hs', rfl⟩ := hs
      rw [hw', EngineStep.within, Next.stage?_within_done]
      exact .metric ha hk hd hs'
    · simp only [Activity.step, Call.step, Option.map_eq_some_iff] at hs
      obtain ⟨s', hs', rfl⟩ := hs
      split at hs' <;> cases hs'
      rw [hw']
      exact .aside ha rfl rfl rfl rfl Nat.one_pos fun _ => rfl

/-- **A batch that is alone stays alone.** -/
theorem step (h : w.Alone u o b ds) (hw : w.Regular) (hstep : w.step out t = some (w', res)) :
    w'.Alone u o b ds := by
  have hruns := h.runs.step hw hstep
  have hadmits := h.admits.step (hw.batchStep hstep)
  cases h.loneStep hw hstep with
  | @metric i m k d s ha hk hd hm =>
    have ht := lt_of_activity? ha
    have hmoves := (Metric.step_moves hm).router
    have hm' := h.refers t _ (metricIn?_of_activity? ha hd)
    have hspawns : ∀ a ∈ s.spawns.map Spawn.activity, ∃ c, a = .call (.closing c) := by
      intro a ha
      obtain ⟨p, hp, rfl⟩ := List.mem_map.1 ha
      obtain ⟨c, rfl⟩ := Metric.step_spawns hm p hp
      exact ⟨c, rfl⟩
    refine ⟨hruns, hadmits, fun v a hv hva => ?_, hmoves.coherent h.coherent, fun v p hp => ?_,
      fun l hl => ?_⟩
    · rcases activity?_of_after ht hva with ⟨-, hx⟩ | ⟨-, hold⟩ | hnew
      · obtain ⟨m', -, rfl⟩ := Option.map_eq_some_iff.1 hx
        exact .inl ⟨i, m', rfl⟩
      · exact h.others v a hv hold
      · exact .inr (hspawns a hnew)
    · by_cases hvt : v = t
      · subst hvt
        rw [metricIn?_after_self ht] at hp
        have hnext := Metric.step_refers hm hm' h.coherent
        cases hn : s.next with
        | done => simp [hn, Next.stage?] at hp
        | stage m' =>
          rw [hn] at hnext hp
          obtain rfl : (d.target, m') = p := by
            simpa [Next.stage?, Activity.metricIn?, hd] using hp
          exact hnext
      · rw [metricIn?_after_of_ne ht (fun a ha => ?_) hvt] at hp
        · exact (h.refers v p hp).mono hmoves.extends
        · obtain ⟨c, rfl⟩ := hspawns a ha
          rfl
    · refine lockOk_metric ha hk hd hm (fun hturn => ⟨rfl, fun v => ?_⟩) (h.locks l hl)
      by_contra haway
      rw [standingIn] at haway
      cases hp : w.metricIn? b ds v with
      | none => exact haway (by rw [hp]; rfl)
      | some p =>
        rw [hp, Option.elim_some, hturn] at haway
        obtain ⟨target, htarget⟩ := Metric.target?_of_standing haway (h.refers v p hp)
        exact Nat.lt_irrefl _ (Router.target?_lt htarget)
  | @aside a e x ha hplace hrouter hbatches hx _ hend =>
    have ht := lt_of_activity? ha
    have hsame : ∀ v, (w.after t e x []).metricIn? b ds v = w.metricIn? b ds v := by
      intro v
      by_cases hvt : v = t
      · rw [hvt, metricIn?_after_self ht, metricIn?_bind_of_place? hx, metricIn?, ha,
          Option.bind_some, metricIn?_of_place? hplace]
      · exact metricIn?_after_of_ne ht (by simp) hvt
    refine ⟨hruns, hadmits, fun v a' hv hva => ?_, hrouter ▸ h.coherent, fun v p hp => ?_,
      fun l hl => (h.locks l hl).congr (fun v => standingIn_congr (hsame v)) ?_⟩
    · rcases activity?_of_after ht hva with ⟨rfl, hnext⟩ | ⟨-, hold⟩ | hnew
      · rw [hend hv] at hnext
        cases hnext
      · exact h.others v a' hv hold
      · cases hnew
    · rw [hsame] at hp
      exact hrouter ▸ h.refers v p hp
    · cases l with
      | slot | turn => rw [engine_after, Engine.semaphore?, Engine.semaphore?, hrouter]
      | permit target => cases target <;> cases hl
      | overall => cases hl

/-- The world outside fires a token. -/
theorem fire (h : w.Alone u o b ds) (token : Token) :
    World.Alone { w with engine := w.engine.fire token } u o b ds :=
  ⟨h.runs.change rfl, h.admits.change rfl, h.others, h.coherent, h.refers, h.locks⟩

theorem exists_lock (h : w.Alone u o b ds) (l : Lock) :
    ∃ n, 0 < n ∧ LockOk n (w.standingIn b ds l) (w.engine.semaphore? b l) := by
  have hmax : ∀ n, 0 < max 1 n := fun n => Nat.lt_of_lt_of_le Nat.one_pos (Nat.le_max_left ..)
  cases l with
  | permit target =>
    cases target with
    | relational => exact ⟨_, hmax _, h.admits.locks _ _ rfl⟩
    | fileDatabase => exact ⟨1, Nat.one_pos, h.admits.locks _ _ rfl⟩
  | overall => exact ⟨_, hmax _, h.admits.locks _ _ rfl⟩
  | slot | turn => exact ⟨1, Nat.one_pos, h.locks _ rfl⟩

/-- Some task can go on when it is answered, until the batch has ended. -/
theorem exists_step (h : w.Alone u o b ds) (hw : w.Regular) (hu : w.activity? u ≠ none) :
    ∃ t, ∀ out : Outside, Answered (w.request? t) out.answer → (w.step out t).isSome = true := by
  rcases h.runs.ready hw h.admits hu with hstep | ⟨t, p, hp⟩
  · exact ⟨u, fun out _ => hstep out⟩
  · obtain ⟨t', q, hq, hfree⟩ := exists_free h.exists_lock 3 hp fun _ _ _ _ _ => Nat.le_add_left ..
    exact ⟨t', fun out => isSome_step_of_isFree h.admits hq hfree⟩

/-- When a batch begins on a router at rest, and there is no other task, it is alone. -/
theorem begun (hw : w.Regular) (hu : w.activity? u = some (.batch (.start ds token)))
    (hothers : ∀ t, t ≠ u → w.activity? t = none) (hrest : w.engine.router.AtRest)
    {admission : Admission}
    (hstep : w.step out u = some (w.begun u ds token out.now admission, none)) :
    (w.begun u ds token out.now admission).Alone u w.engine.options w.engine.batches.length ds := by
  have ht := lt_of_activity? hu
  have hopens : Move.opens? ⟨w, u, out, w.begun u ds token out.now admission, none⟩ =
      some (w.engine.batches.length, ds) := opens?_begun hu out.now admission
  have hruns := Runs.begun hu out.now admission
  generalize hw' : w.begun u ds token out.now admission = w' at hstep hopens hruns ⊢
  have hact : ∀ t a, w'.activity? t = some a → t = u ∧ a = .batch (.joining w.engine.batches.length) ∨
      ∃ i, a = .metric w.engine.batches.length i .start := by
    intro t a ha
    rw [← hw'] at ha
    rcases activity?_of_after ht ha with ⟨rfl, hx⟩ | ⟨hne, hold⟩ | hnew
    · exact .inl ⟨rfl, (Option.some.inj hx).symm⟩
    · rw [hothers t hne] at hold
      cases hold
    · obtain ⟨i, -, rfl⟩ := List.mem_map.1 hnew
      exact .inr ⟨i, rfl⟩
  have hmetric : ∀ t p, w'.metricIn? w.engine.batches.length ds t = some p → p.2 = .start := by
    intro t p hp
    obtain ⟨i, d, ha, -⟩ := metricIn?_eq_some hp
    rcases hact t _ ha with ⟨-, heq⟩ | ⟨j, heq⟩
    · cases heq
    · exact (Activity.metric.inj heq).2.2
  refine ⟨hruns, .opened (x := ⟨w, u, out, w', none⟩) hw hstep hopens,
    fun t a hne ha => ?_, ?_, fun t p hp => ?_, fun l hl => ?_⟩
  · rcases hact t a ha with ⟨rfl, -⟩ | ⟨i, rfl⟩
    · exact absurd rfl hne
    · exact .inl ⟨i, _, rfl⟩
  · rw [← hw']
    exact hrest.coherent
  · rw [hmetric t p hp]
    trivial
  · refine .of_away (fun t => ?_) fun s hs => ?_
    · rw [standingIn]
      cases hp : w'.metricIn? w.engine.batches.length ds t with
      | none => rfl
      | some p =>
        rw [Option.elim_some, hmetric t p hp]
        cases l with
        | permit target => cases target <;> cases hl
        | overall => cases hl
        | slot | turn => rfl
    · rw [← hw'] at hs
      cases l with
      | permit target => cases target <;> cases hl
      | overall => cases hl
      | slot target => exact hrest.eq_lock (l := .slot target) hs
      | turn c => exact hrest.eq_lock (l := .turn c) hs

end Alone

/-! ## Steps come to an end -/

/-- Whatever steps are taken from a world on, in whatever order and with whatever answers, and
whenever a token is fired, some task can go on until task `u` has ended, which it does in the end,
with a result that has a property. -/
inductive Ends (u : TaskId) (token : Token) (P : Result → Prop) : World → Prop
  | intro {w : World} :
    (∃ t, ∀ out : Outside, Answered (w.request? t) out.answer → (w.step out t).isSome = true) →
    (∀ out w' x, w.step out u = some (w', some x) → P x) →
    (∀ out t w' res, w.step out t = some (w', res) → (t = u → res = none) →
      Ends u token P w') →
    (w.engine.isFired token = false → Ends u token P { w with engine := w.engine.fire token }) →
    Ends u token P w

/-- A world in which a task ends if the token has been fired, and once it is, is one in which the
task ends. -/
theorem ends_of_fired {P : Result → Prop} {Q : World → Prop} (hw : Q w)
    (hfire : ∀ v, Q v → Q { v with engine := v.engine.fire token })
    (hends : ∀ v, Q v →
      (v.engine.isFired token = false → Ends u token P { v with engine := v.engine.fire token }) →
      Ends u token P v) : Ends u token P w := by
  refine hends w hw fun _ => hends _ (hfire w hw) fun hunfired => ?_
  rw [Engine.isFired, Engine.fire, List.contains_cons, beq_self_eq_true, Bool.true_or] at hunfired
  cases hunfired

/-- However its steps follow one another, a batch that is alone ends with a report that answers for
it. -/
theorem Alone.ends {xs : List Move} (h : w.Alone u o b ds) (hop : Operation xs w)
    (hu : w.activity? u ≠ none) (token : Token) :
    w.Ends u token fun res => res.AnswersFor ds := by
  induction hn : w.rank using Nat.strong_induction_on generalizing w xs with
  | _ n ih =>
    refine ends_of_fired (Q := fun v => v.Alone u o b ds ∧ (∃ xs, Operation xs v) ∧
      v.activity? u ≠ none ∧ v.rank = n) ⟨h, ⟨xs, hop⟩, hu, hn⟩ ?_ ?_
    · rintro v ⟨hv, ⟨xs, hop⟩, hu, hn⟩
      exact ⟨hv.fire token, ⟨xs, hop.change rfl⟩, hu, hn⟩
    · rintro v ⟨hv, ⟨xs, hop⟩, hu, hn⟩ hfire
      refine .intro (hv.exists_step hop.regular hu) (fun _ _ _ h => hv.runs.result hop h)
        (fun out t v' res hstep hres => ?_) hfire
      refine ih _ (hn ▸ (hv.loneStep hop.regular hstep).rank_lt) (hv.step hop.regular hstep)
        (hop.move hstep) (activity?_ne_none_of_step hstep hu hres) rfl

/-- **A batch that nobody gets in the way of comes to its report.** -/
theorem ends {xs : List Move} (hop : Operation xs w)
    (hu : w.activity? u = some (.batch (.start ds token)))
    (hothers : ∀ t, t ≠ u → w.activity? t = none) (hrest : w.engine.router.AtRest)
    (hvalid : Batch.validate ds = .ok ())
    (hadmission : (Admission.ofOptions? w.engine.options).isSome = true) :
    w.Ends u token fun res => res.AnswersFor ds := by
  obtain ⟨admission, hadmission⟩ := Option.isSome_iff_exists.1 hadmission
  refine ends_of_fired (Q := fun v => (∃ xs, Operation xs v) ∧
    v.activity? u = some (.batch (.start ds token)) ∧ (∀ t, t ≠ u → v.activity? t = none) ∧
    v.engine.router.AtRest ∧ Admission.ofOptions? v.engine.options = some admission)
    ⟨⟨xs, hop⟩, hu, hothers, hrest, hadmission⟩ ?_ ?_
  · rintro v ⟨⟨xs, hop⟩, hv⟩
    exact ⟨⟨xs, hop.change rfl⟩, hv⟩
  · rintro v ⟨⟨xs, hop⟩, hu, hothers, hrest, hadmission⟩ hfire
    have hstart : ∀ out, v.step out u = _ := step_start hu
    simp only [hvalid, hadmission] at hstart
    refine .intro ⟨u, fun out _ => by rw [hstart]; rfl⟩ (fun out w' x h => ?_)
      (fun out t w' res h _ => ?_) hfire
    · rw [hstart] at h
      cases h
    · obtain ⟨a, -, ha, -⟩ := step_eq_some h
      obtain rfl : t = u := by
        by_contra hne
        rw [hothers t hne] at ha
        cases ha
      have halone := Alone.begun hop.regular hu hothers hrest (hstart out)
      have hop' := hop.move h
      rw [hstart] at h
      cases h
      refine halone.ends hop' ?_ token
      rw [begun, activity?_after_self _ _ _ (lt_of_activity? hu)]
      exact Option.some_ne_none _

end World

end MetricBoard
