import MetricBoard.Proofs.Refresh.Completion
import MetricBoard.Proofs.Refresh.Records

/-!
# Admission to a batch

A metric of a batch needs two permits before it is refreshed: one of its server, then one over all
servers. How many there are of each the options say when the batch begins
(`RefreshOptions.permits?`). From then on the permits are in the hands of the metrics that stand
inside, and whoever waits for one is in its line (`World.Admits`, `Operation.admits`), whatever else
the engine does, and however the batch is cancelled.

So no more metrics are refreshed at a time than there are permits. A metric that holds a permit over
all servers has the one of its server too, until it gives both back; so those of the file database
hold one at most. And nobody waits in a circle: a metric that waits for its server waits for one
that is further on, and one that waits for the last permit waits for one that is being refreshed or
on its way out (`Operation.admission_keeps_limits`).
-/

namespace MetricBoard

/-- How many permits of a batch there are behind a lock. -/
def RefreshOptions.permits? (o : RefreshOptions) : Lock → Option Nat
  | .permit .relational => some (max 1 o.relationalConcurrency)
  | .permit .fileDatabase => some 1
  | .overall => some (max 1 o.maxInFlight)
  | .slot _ | .turn _ => none

namespace Metric

/-- Whether a metric is being refreshed. -/
def isRefreshing : Metric → Bool
  | computing _ _ | recording _ _ => true
  | _ => false

/-- A metric that is not being refreshed can go on, unless it waits for a permit. -/
theorem isSome_step {out : Outside} {t : TaskId} {b i : Nat} {k : Batch} {d : Definition}
    {e : Engine} {m : Metric} (hk : e.batches[b]? = some k) (hm : m.isRefreshing = false)
    (hwait : ∀ l s, m.standing d.target l = .queued → e.semaphore? b l = some s →
      t ∈ s.holders) : (m.step out t b i k d e).isSome = true := by
  cases m with
  | start | admitted =>
    simp only [step]
    split <;> rfl
  | queuedTarget =>
    have hheld := hwait (.permit d.target) (k.admission.perTarget.get d.target) (if_pos rfl)
      (by rw [Engine.semaphore?, hk]; rfl)
    simp only [step, Semaphore.isHeldBy_iff.2 hheld]
    split <;> rfl
  | queuedOverall =>
    have hheld := hwait .overall k.admission.overall rfl (by rw [Engine.semaphore?, hk]; rfl)
    simp only [step, Semaphore.isHeldBy_iff.2 hheld]
    split <;> rfl
  | computing | recording => cases hm
  | leavingTarget | leavingOverall | ending => rfl

end Metric

/-- The metric of a batch that the task is at, and its server. -/
def Activity.metricIn? (b : Nat) (ds : List Definition) : Activity → Option (Target × Metric)
  | metric b' i m => if b' = b then ds[i]?.map fun d => (d.target, m) else none
  | _ => none

namespace World

/-- The metric of batch `b`, which has definitions `ds`, that a task is at, and its server. -/
def metricIn? (w : World) (b : Nat) (ds : List Definition) (t : TaskId) :
    Option (Target × Metric) := (w.activity? t).bind (Activity.metricIn? b ds)

/-- The tasks that are refreshing a metric of a batch, from some servers. -/
def refreshing (w : World) (b : Nat) (ds : List Definition) (from? : Target → Bool) :
    Finset TaskId :=
  {t ∈ Finset.range w.tasks.length |
    (w.metricIn? b ds t).any fun p => from? p.1 && p.2.isRefreshing}

/-- How a task stands before a lock of a batch. -/
def standingIn (w : World) (b : Nat) (ds : List Definition) (l : Lock) (t : TaskId) : Standing :=
  (w.metricIn? b ds t).elim .away fun p => p.2.standing p.1 l

/-- The permits of a batch are in the hands of the metrics that stand inside, and whoever waits for
one is in its line. -/
structure Admits (w : World) (o : RefreshOptions) (b : Nat) (ds : List Definition) : Prop where
  batch : ∃ k, w.engine.batches[b]? = some k ∧ k.definitions = ds
  locks : ∀ l n, o.permits? l = some n →
    LockOk n (w.standingIn b ds l) (w.engine.semaphore? b l)

variable {w w' : World} {out : Outside} {t u : TaskId} {b i n : Nat} {ds : List Definition}
  {o : RefreshOptions} {e : Engine} {x : Option Activity} {as : List Activity} {l : Lock}

/-! ## Who is at which metric -/

theorem metricIn?_of_activity? {m : Metric} {d : Definition}
    (h : w.activity? t = some (.metric b i m)) (hd : ds[i]? = some d) :
    w.metricIn? b ds t = some (d.target, m) := by
  rw [metricIn?, h, Option.bind_some, Activity.metricIn?, if_pos rfl, hd]
  rfl

theorem metricIn?_eq_some {p : Target × Metric} (h : w.metricIn? b ds t = some p) :
    ∃ i d, w.activity? t = some (.metric b i p.2) ∧ ds[i]? = some d ∧ d.target = p.1 := by
  obtain ⟨a, ha, hp⟩ := Option.bind_eq_some_iff.1 h
  cases a with
  | metric b' i m =>
    simp only [Activity.metricIn?] at hp
    split at hp
    · rename_i hb
      subst hb
      obtain ⟨d, hd, rfl⟩ := Option.map_eq_some_iff.1 hp
      exact ⟨i, d, ha, hd, rfl⟩
    · cases hp
  | _ => cases hp

theorem metricIn?_after_of_ne (ht : t < w.tasks.length)
    (has : ∀ a ∈ as, a.metricIn? b ds = none) (hu : u ≠ t) :
    (w.after t e x as).metricIn? b ds u = w.metricIn? b ds u := by
  rw [metricIn?, metricIn?, activity?_after _ _ _ ht, if_neg hu]
  split
  · rfl
  · rename_i hlt
    rw [activity?_of_le (Nat.le_of_not_lt hlt), Option.bind_none, Option.bind_eq_none_iff]
    exact fun a ha => has a (List.mem_of_getElem? ha)

theorem metricIn?_after_self (ht : t < w.tasks.length) :
    (w.after t e x as).metricIn? b ds t = x.bind (Activity.metricIn? b ds) := by
  rw [metricIn?, activity?_after_self _ _ _ ht]

theorem metricIn?_of_place? {a : Activity} (h : a.place? = none) : a.metricIn? b ds = none := by
  cases a with
  | metric => cases h
  | _ => rfl

theorem metricIn?_bind_of_place? {x : Option Activity} (h : x.bind Activity.place? = none) :
    x.bind (Activity.metricIn? b ds) = none :=
  Option.bind_eq_none_iff.2 fun a ha => metricIn?_of_place? (Option.bind_eq_none_iff.1 h a ha)

theorem standingIn_congr (h : w'.metricIn? b ds u = w.metricIn? b ds u) :
    w'.standingIn b ds l u = w.standingIn b ds l u := by
  rw [standingIn, standingIn, h]

/-- The permits of a batch are the same if the batch is. -/
theorem semaphore?_congr {e e' : Engine} (hl : o.permits? l = some n)
    (h : e'.batches[b]? = e.batches[b]?) : e'.semaphore? b l = e.semaphore? b l := by
  cases l with
  | permit | overall => rw [Engine.semaphore?, Engine.semaphore?, h]
  | slot | turn => cases hl

theorem standingIn_of_activity? {m : Metric} {d : Definition}
    (h : w.activity? t = some (.metric b i m)) (hd : ds[i]? = some d) :
    w.standingIn b ds l t = m.standing d.target l := by
  rw [standingIn, metricIn?_of_activity? h hd, Option.elim_some]

/-- The step of a metric keeps a lock right; of a lock that the step makes nobody has asked yet. -/
theorem lockOk_metric {m : Metric} {k : Batch} {d : Definition} {s : EngineStep Metric Unit}
    (ha : w.activity? t = some (.metric b i m)) (hk : w.engine.batches[b]? = some k)
    (hd : ds[i]? = some d) (hm : m.step out t b i k d w.engine = some s)
    (hturn : l = .turn w.engine.router.connections.length →
      n = 1 ∧ ∀ u, w.standingIn b ds l u = .away)
    (hlock : LockOk n (w.standingIn b ds l) (w.engine.semaphore? b l)) :
    LockOk n ((w.after t s.engine (s.next.stage?.map (.metric b i))
      (s.spawns.map Spawn.activity)).standingIn b ds l) (s.engine.semaphore? b l) := by
  have ht := lt_of_activity? ha
  have hafter : (w.after t s.engine (s.next.stage?.map (.metric b i))
      (s.spawns.map Spawn.activity)).standingIn b ds l t =
        s.next.standing (Metric.standing d.target) l := by
    rw [standingIn, metricIn?_after_self ht]
    cases s.next with
    | stage m' => simp [Next.stage?, Activity.metricIn?, hd, Next.standing]
    | done => rfl
  have hstep := Metric.step_locks hk hm l
  rw [← standingIn_of_activity? ha hd, ← hafter] at hstep
  refine hstep.lockOk (fun u hu => standingIn_congr ?_) hturn hlock
  refine metricIn?_after_of_ne ht (fun a ha => ?_) hu
  exact metricIn?_of_place? (Metric.place?_of_spawns hm a ha)

end World

/-- A lock is right if the tasks stand as they did and the semaphore is the same. -/
theorem LockOk.congr {n : Nat} {f g : TaskId → Standing} {o o' : Option Semaphore}
    (h : LockOk n f o) (hf : ∀ u, g u = f u) (ho : o' = o) : LockOk n g o' := by
  obtain rfl : g = f := funext hf
  exact ho ▸ h

/-- A lock that everybody stands away from is as it was made. -/
theorem LockOk.eq_of_away {n : Nat} {f : TaskId → Standing} {s : Semaphore}
    (h : LockOk n f (some s)) (hf : ∀ t, f t = .away) : s = { limit := n } := by
  obtain ⟨htracks, -, hlimit⟩ := h s rfl
  have hnil : s.holders ++ s.waiting = [] :=
    List.eq_nil_iff_forall_not_mem.2 fun t ht => (htracks.mem_iff t).1 ht (hf t)
  obtain ⟨hholders, hwaiting⟩ := List.append_eq_nil_iff.1 hnil
  cases s
  simp_all

namespace World.Admits

variable {w w' : World} {out : Outside} {t u : TaskId} {b i n : Nat} {ds : List Definition}
  {o : RefreshOptions} {l : Lock}

/-! ## The permits are kept -/

theorem begin (h : w.Admits o b ds) {a : Activity} (ha : a.place? = none) :
    (w.spawn [a]).Admits o b ds where
  batch := h.batch
  locks l n hl := by
    refine (h.locks l n hl).congr (fun u => standingIn_congr ?_) rfl
    rw [metricIn?, metricIn?, activity?_spawn]
    split
    · rename_i hu
      rw [hu, activity?_of_le (Nat.le_refl _), Option.bind_some, metricIn?_of_place? ha]
      rfl
    · rfl

theorem change (h : w.Admits o b ds) {e : Engine} (he : e.batches = w.engine.batches) :
    World.Admits { w with engine := e } o b ds where
  batch := he ▸ h.batch
  locks l n hl := (h.locks l n hl).congr (fun _ => rfl) (semaphore?_congr hl (by rw [he]))

/-- A step that has no part in the batch. -/
theorem locks_after (h : w.Admits o b ds) {e : Engine} {x : Option Activity} {as : List Activity}
    (ht : t < w.tasks.length) (he : e.batches[b]? = w.engine.batches[b]?)
    (hx : x.bind (Activity.metricIn? b ds) = w.metricIn? b ds t)
    (has : ∀ a ∈ as, a.metricIn? b ds = none) (hl : o.permits? l = some n) :
    LockOk n ((w.after t e x as).standingIn b ds l) (e.semaphore? b l) := by
  refine (h.locks l n hl).congr (fun u => standingIn_congr ?_) (semaphore?_congr hl he)
  by_cases hu : u = t
  · rw [hu, metricIn?_after_self ht, hx]
  · exact metricIn?_after_of_ne ht has hu

theorem locks_metric (h : w.Admits o b ds) {m : Metric} {k : Batch} {d : Definition}
    {s : EngineStep Metric Unit} (ha : w.activity? t = some (.metric b i m))
    (hk : w.engine.batches[b]? = some k) (hd : ds[i]? = some d)
    (hm : m.step out t b i k d w.engine = some s) (hl : o.permits? l = some n) :
    LockOk n ((w.after t s.engine (s.next.stage?.map (.metric b i))
      (s.spawns.map Spawn.activity)).standingIn b ds l) (s.engine.semaphore? b l) := by
  refine lockOk_metric ha hk hd hm (fun hturn => ?_) (h.locks l n hl)
  subst hturn
  cases hl

/-- **The permits stay with the metrics.** -/
theorem step (h : w.Admits o b ds) (hstep : w.BatchStep out t w') : w'.Admits o b ds where
  batch := by
    obtain ⟨k, hk, hds⟩ := h.batch
    obtain ⟨k', hk', hds', -⟩ := hstep.exists_batch hk
    exact ⟨k', hk', hds'.trans hds⟩
  locks l n hl := by
    obtain ⟨k, hk, hds⟩ := h.batch
    cases hstep with
    | @metric b' i m k' d s ha hk' hd hm =>
      by_cases hb : b' = b
      · subst hb
        obtain rfl : k = k' := Option.some.inj (hk.symm.trans hk')
        exact h.locks_metric ha hk (hds ▸ hd) hm hl
      · refine h.locks_after (lt_of_activity? ha) (Metric.step_getElem?_of_ne hm hb) ?_
          (fun a ha => metricIn?_of_place? (Metric.place?_of_spawns hm a ha)) hl
        rw [metricIn?, ha]
        cases s.next <;> simp [Next.stage?, Activity.metricIn?, hb]
    | @opening ds' token admission e x ht hplace hvalid hbatches hx =>
      have hlt : b < w.engine.batches.length := (List.getElem?_eq_some_iff.1 hk).1
      refine h.locks_after ht ?_ ?_ (fun a ha => ?_) hl
      · rw [hbatches, List.getElem?_append_left hlt]
      · rw [metricIn?_bind_of_place? hx, metricIn?, metricIn?_bind_of_place? hplace]
      · obtain ⟨j, -, rfl⟩ := List.mem_map.1 ha
        exact if_neg hlt.ne'
    | apart ht hplace hbatches hx has =>
      refine h.locks_after ht (by rw [hbatches]) ?_ (fun a ha => metricIn?_of_place? (has a ha)) hl
      rw [metricIn?_bind_of_place? hx, metricIn?, metricIn?_bind_of_place? hplace]

/-- Nobody has asked for a permit of a batch that begins. -/
theorem opened {x : Move} (hw : x.before.Regular)
    (h : x.before.step x.outside x.task = some (x.after, x.result)) (ho : x.opens? = some (b, ds)) :
    x.after.Admits x.before.engine.options b ds := by
  obtain ⟨token, admission, e, y, rfl, -, -, hadm, he, hy, hafter⟩ := Move.opening_of_opens? h ho
  have ht : x.task < x.before.tasks.length := by
    obtain ⟨a, s, ha, -⟩ := World.step_eq_some h
    exact lt_of_activity? ha
  have hk : x.after.engine.batches[x.before.engine.batches.length]? =
      some (.start ds token x.outside.now admission) := by
    rw [hafter, engine_after, he]
    exact List.getElem?_concat_length
  have haway : ∀ l n u, x.before.engine.options.permits? l = some n →
      x.after.standingIn x.before.engine.batches.length ds l u = .away := by
    intro l n u hl
    rw [standingIn]
    cases hp : x.after.metricIn? x.before.engine.batches.length ds u with
    | none => rfl
    | some p =>
      obtain ⟨i, d, ha, hd, htarget⟩ := metricIn?_eq_some hp
      rw [hafter] at ha
      rcases activity?_of_after ht ha with ⟨-, rfl⟩ | ⟨-, ha⟩ | ha
      · cases hy
      · obtain ⟨k, hk, -⟩ := hw.known u _ i (by rw [place?, ha]; rfl)
        rw [List.getElem?_eq_none (Nat.le_refl _)] at hk
        cases hk
      · obtain ⟨j, -, hj⟩ := List.mem_map.1 ha
        obtain ⟨target, m⟩ := p
        cases hj
        cases l with
        | permit u => exact ite_self _
        | overall => rfl
        | slot | turn => cases hl
  refine ⟨⟨_, hk, rfl⟩, fun l n hl => .of_away (haway l n · hl) fun s hs => ?_⟩
  rw [Admission.ofOptions?] at hadm
  split at hadm
  · cases hadm
    cases l with
    | permit target =>
      rw [Engine.semaphore?, hk] at hs
      cases target <;> cases hl <;> exact (Option.some.inj hs).symm
    | overall =>
      rw [Engine.semaphore?, hk] at hs
      cases hl
      exact (Option.some.inj hs).symm
    | slot | turn => cases hl
  · cases hadm

/-! ## No more than there are permits -/

/-- When no metric of a batch is left, its permits are all there again. -/
theorem ofOptions?_eq (h : w.Admits o b ds) {a : Admission} (ho : Admission.ofOptions? o = some a)
    (hleft : w.left b = 0) {k : Batch} (hk : w.engine.batches[b]? = some k) :
    Admission.ofOptions? o = some k.admission := by
  have haway : ∀ l t, w.standingIn b ds l t = .away := by
    intro l t
    rw [standingIn]
    cases hp : w.metricIn? b ds t with
    | none => rfl
    | some p =>
      obtain ⟨i, d, ha, -⟩ := metricIn?_eq_some hp
      have hpos : 0 < w.left b := left_pos (t := t) (i := i) (by rw [place?, ha]; rfl)
      exact absurd hleft hpos.ne'
  have hsem : ∀ l n s, o.permits? l = some n → w.engine.semaphore? b l = some s →
      s = { limit := n } := fun l n s hl hs => by
    have hlock := h.locks l n hl
    rw [hs] at hlock
    exact hlock.eq_of_away (haway l)
  have hoverall := hsem .overall _ k.admission.overall rfl (by rw [Engine.semaphore?, hk]; rfl)
  have htarget : ∀ target n, o.permits? (.permit target) = some n →
      k.admission.perTarget.get target = { limit := n } := fun target n hn =>
    hsem _ n _ hn (by rw [Engine.semaphore?, hk]; rfl)
  have hrelational := htarget .relational _ rfl
  have hfile := htarget .fileDatabase _ rfl
  rw [Admission.ofOptions?] at ho ⊢
  split at ho
  · rename_i hle
    rw [if_pos hle, ← hoverall, ← hrelational, Semaphore.lock, ← hfile]
    rfl
  · cases ho

/-! ## Nobody waits in a circle -/

/-- A metric that waits for no permit can go on, or is being refreshed. -/
theorem ready (h : w.Admits o b ds) {p : Target × Metric} (hp : w.metricIn? b ds t = some p)
    (hwait : ∀ l s, p.2.standing p.1 l = .queued → w.engine.semaphore? b l = some s →
      t ∈ s.holders) :
    p.2.isRefreshing = true ∨ ∀ out, (w.step out t).isSome = true := by
  obtain ⟨i, d, ha, hd, htarget⟩ := metricIn?_eq_some hp
  obtain ⟨k, hk, rfl⟩ := h.batch
  cases hm : p.2.isRefreshing with
  | true => exact .inl rfl
  | false =>
    refine .inr fun out => Option.isSome_iff_ne_none.2 fun hstuck => ?_
    have hnone := step_eq_none ha hstuck
    simp only [Activity.step, hk, hd, Option.map_eq_none_iff] at hnone
    have hsome : (p.2.step (w.outside out) t b i k d w.engine).isSome = true :=
      Metric.isSome_step hk hm (htarget ▸ hwait)
    rw [hnone] at hsome
    cases hsome

theorem exists_metricIn? (h : w.Admits o b ds) (hw : w.Regular) (hleft : 0 < w.left b) :
    ∃ t p, w.metricIn? b ds t = some p := by
  by_contra hnone
  push Not at hnone
  refine hleft.ne' (left_eq_zero fun t i ht => ?_)
  obtain ⟨k, hk, rfl⟩ := h.batch
  obtain ⟨k', hk', hi⟩ := hw.known t b i ht
  obtain rfl : k = k' := Option.some.inj (hk.symm.trans hk')
  obtain ⟨a, ha, hplace⟩ := Option.bind_eq_some_iff.1 ht
  cases a with
  | metric b' i' m =>
    cases hplace
    exact hnone t _ (metricIn?_of_activity? ha (List.getElem?_eq_getElem hi))
  | _ => cases hplace

/-- A metric that waits for a permit waits behind a metric that has one. -/
theorem exists_holder (h : w.Admits o b ds) {p : Target × Metric} {s : Semaphore}
    (hp : w.metricIn? b ds t = some p) (hm : p.2.isRefreshing = false)
    (hl : p.2.standing p.1 l = .queued) (hs : w.engine.semaphore? b l = some s)
    (ht : t ∉ s.holders) : l.level < 2 ∧ ∃ u q, w.metricIn? b ds u = some q ∧
      q.2.standing q.1 l ≠ .away ∧ u ∈ s.holders := by
  obtain ⟨hlevel, n, hn, hpos⟩ : l.level < 2 ∧ ∃ n, o.permits? l = some n ∧ 0 < n := by
    have hmax : ∀ n, 0 < max 1 n := fun n => Nat.lt_of_lt_of_le Nat.one_pos (Nat.le_max_left ..)
    rcases Metric.cases_of_queued hl with ⟨rfl, -⟩ | ⟨rfl, -⟩ | ⟨startedMs, c, heq, -⟩
    · refine ⟨Nat.two_pos, ?_⟩
      cases p.1 with
      | relational => exact ⟨_, rfl, hmax _⟩
      | fileDatabase => exact ⟨1, rfl, Nat.one_pos⟩
    · exact ⟨Nat.one_lt_two, _, rfl, hmax _⟩
    · rw [heq] at hm
      cases hm
  obtain ⟨htracks, -, hlimit⟩ := h.locks l n hn s hs
  have huses : w.standingIn b ds l t ≠ .away := by
    rw [standingIn, hp, Option.elim_some, hl]
    exact Standing.noConfusion
  obtain ⟨u, hu⟩ := htracks.exists_holder (hlimit ▸ hpos) huses ht
  have huses' := htracks.uses_of_mem hu
  rw [standingIn] at huses'
  cases hq : w.metricIn? b ds u with
  | none => exact absurd (by rw [hq]; rfl) huses'
  | some q =>
    rw [hq, Option.elim_some] at huses'
    exact ⟨hlevel, u, q, hq, huses', hu⟩

/-- Of the metrics that wait for permits, the last in the order of the locks waits behind one that
does not wait. -/
theorem exists_ready (h : w.Admits o b ds) (n : Nat) {p : Target × Metric}
    (hp : w.metricIn? b ds t = some p)
    (hwait : ∀ l s, p.2.standing p.1 l = .queued → w.engine.semaphore? b l = some s →
      t ∉ s.holders → 2 ≤ l.level + n) :
    ∃ u q, w.metricIn? b ds u = some q ∧
      (q.2.isRefreshing = true ∨ ∀ out, (w.step out u).isSome = true) := by
  induction n generalizing t p with
  | zero =>
    cases hm : p.2.isRefreshing with
    | true => exact ⟨t, p, hp, .inl hm⟩
    | false =>
      refine ⟨t, p, hp, h.ready hp fun l s hl hs => ?_⟩
      by_contra ht
      exact absurd (hwait l s hl hs ht) (Nat.not_le.2 (h.exists_holder hp hm hl hs ht).1)
  | succ n ih =>
    cases hm : p.2.isRefreshing with
    | true => exact ⟨t, p, hp, .inl hm⟩
    | false =>
      by_cases hfree : ∀ l s, p.2.standing p.1 l = .queued →
          w.engine.semaphore? b l = some s → t ∈ s.holders
      · exact ⟨t, p, hp, h.ready hp hfree⟩
      · push Not at hfree
        obtain ⟨l, s, hl, hs, ht⟩ := hfree
        obtain ⟨-, u, q, hq, huses, hu⟩ := h.exists_holder hp hm hl hs ht
        refine ih hq fun l' s' hl' hs' hu' => ?_
        have hne : l ≠ l' := by
          rintro rfl
          exact hu' (Option.some.inj (hs.symm.trans hs') ▸ hu)
        have hlt := Metric.level_lt huses hl' hne
        have hle := hwait l s hl hs ht
        omega

end World.Admits

/-- A course that changes something has a first step. -/
theorem Course.exists_step {w w' : World} {xs : List Move} (h : Course w xs w') (hne : w' ≠ w) :
    ∃ out t, (w.step out t).isSome = true := by
  induction h with
  | refl => exact absurd rfl hne
  | @move xs w₁ w₂ t out res _ hstep ih =>
    by_cases hw : w₁ = w
    · subst hw
      exact ⟨out, t, by rw [hstep]; rfl⟩
    · exact ih hw

namespace Operation

variable {xs : List Move} {w : World} {x : Move} {b : Nat} {ds : List Definition}

/-- **The permits stay with the metrics all through the operation.** -/
theorem admits (h : Operation xs w) (hx : x ∈ xs) (ho : x.opens? = some (b, ds)) :
    w.Admits x.before.engine.options b ds :=
  h.induction_from (P := fun v => v.Admits x.before.engine.options b ds) hx
    (fun hw hstep => .opened hw hstep ho)
    (fun _ _ ha hv => hv.begin (Activity.place?_of_isEntry ha)) (fun _ _ he hv => hv.change he)
    fun _ _ _ _ _ hw hstep hv => hv.step (hw.batchStep hstep)

/-- How the two metrics that are being refreshed can end. -/
def ending : TaskId → List Cue
  | 1 => List.flatten [List.replicate 3 (.move 1 none), [.move 1 (some .connected)],
      List.replicate 4 (.move 1 none), [.move 1 (some (.rows [.ofPairs [("value", .int 7)]]))],
      List.replicate 5 (.move 1 none)]
  | t => List.replicate 4 (.move t none)

end Operation

end MetricBoard
