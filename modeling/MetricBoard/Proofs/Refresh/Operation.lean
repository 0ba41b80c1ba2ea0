import MetricBoard.Proofs.Router.Traffic

/-!
# The operation of an engine

The operation of an engine is what any number of tasks do with it, from the moment that it is made
(`Operation`): calls are made and batches begun at any time, the world outside changes what it
likes, but for the batches, and the tasks take their steps in any order, with any answers of the
servers. A token may be fired at any moment, and the storage may refuse what it likes. The steps
taken so far are kept (`Move`); which of them begins a batch, and which of them makes its report,
can be told from them (`Move.opens?`, `Move.reports?`).

To the batches, a step of the world is the step of one of their metrics, or it begins a batch, or it
is nothing (`World.BatchStep`). So each metric of a batch is one task at most, and as many are left
as the batch says (`World.Regular`, `Operation.regular`).
-/

namespace MetricBoard

/-! ## Batches inside other activities -/

/-- The batch that is run inside. -/
def CatalogRun.batch? : CatalogRun → Option BatchRun
  | loading _ => none
  | running r => some r

/-- The batch that is run inside. -/
def RunOnce.batch? : RunOnce → Option BatchRun
  | running c => c.batch?
  | _ => none

/-- The batch that is run inside. -/
def RefreshLoop.batch? : RefreshLoop → Option BatchRun
  | running _ r => r.batch?
  | _ => none

namespace Activity

/-- The batch that is run inside. -/
def batch? : Activity → Option BatchRun
  | batch r => some r
  | catalog c => c.batch?
  | runOnce r => r.batch?
  | refreshLoop l => l.batch?
  | _ => none

/-- The batch and the place of a metric. -/
def place? : Activity → Option (Nat × Nat)
  | metric b i _ => some (b, i)
  | _ => none

/-- Whether an activity may be begun by anybody. -/
def isEntry : Activity → Bool
  | call _ | batch (.start _ _) | catalog (.loading _) | runOnce .start | refreshLoop .start
  | retentionLoop .start | stop .start => true
  | _ => false

theorem place?_of_isEntry {a : Activity} (h : a.isEntry = true) : a.place? = none := by
  cases a with
  | metric => cases h
  | _ => rfl

end Activity

namespace EngineStep

variable {σ τ ρ ρ' : Type} {e : Engine} {s : EngineStep σ ρ}

/-- The step leaves the batches alone and starts no metric. -/
structure Apart (e : Engine) (s : EngineStep σ ρ) : Prop where
  batches : s.engine.batches = e.batches
  spawns : ∀ p ∈ s.spawns, p.activity.place? = none

theorem Apart.within {inner : σ → τ} {after : ρ → Next τ ρ'} (h : s.Apart e) :
    (s.within inner after).Apart e := ⟨h.batches, h.spawns⟩

/-- The step is one of the batch that is run inside. -/
structure Inside (batch? : σ → Option BatchRun) (s : EngineStep σ ρ)
    (s' : EngineStep BatchRun (Ended Report)) : Prop where
  batches : s.engine.batches = s'.engine.batches
  spawns : s.spawns = s'.spawns
  next : s.next.stage?.bind batch? = s'.next.stage?

theorem Inside.within {batch? : σ → Option BatchRun} {batch?' : τ → Option BatchRun}
    {s' : EngineStep BatchRun (Ended Report)} {inner : σ → τ} {after : ρ → Next τ ρ'}
    (h : s.Inside batch? s') (hinner : ∀ x, batch?' (inner x) = batch? x)
    (hafter : ∀ r, (after r).stage?.bind batch?' = none) :
    (s.within inner after).Inside batch?' s' where
  batches := h.batches
  spawns := h.spawns
  next := by
    rw [← h.next, EngineStep.within]
    cases s.next with
    | stage x => exact hinner x
    | done r => exact hafter r

end EngineStep

section Steps

variable {out : Outside} {t : TaskId} {e : Engine}

theorem CatalogRun.step_apart {c : CatalogRun} {s : EngineStep CatalogRun (Ended Report)}
    (hc : c.batch? = none) (h : c.step out e = some s) : s.Apart e := by
  cases does_of_step h with
  | load | fail => exact ⟨rfl, by simp⟩
  | run => cases hc

theorem CatalogRun.step_inside {c : CatalogRun} {s : EngineStep CatalogRun (Ended Report)}
    {r : BatchRun} (hc : c.batch? = some r) (h : c.step out e = some s) :
    ∃ s', r.step out e = some s' ∧ s.Inside batch? s' := by
  cases c with
  | loading token => cases hc
  | running r' =>
    cases hc
    obtain ⟨s', hs', rfl⟩ := Option.map_eq_some_iff.1 h
    refine ⟨s', hs', rfl, rfl, ?_⟩
    simp only [EngineStep.within]
    cases s'.next <;> rfl

theorem RunOnce.step_apart {r : RunOnce} {s : EngineStep RunOnce (Ended (Option Report))}
    (hr : r.batch? = none) (h : r.step out t e = some s) : s.Apart e := by
  cases r with
  | start =>
    obtain ⟨-, rfl⟩ | ⟨-, rfl⟩ := step_start h <;> exact ⟨rfl, by simp⟩
  | running c =>
    obtain ⟨s', hs', rfl⟩ := Option.map_eq_some_iff.1 h
    exact (CatalogRun.step_apart hr hs').within
  | publishing | leaving =>
    cases h
    exact ⟨rfl, by simp⟩

theorem RunOnce.step_inside {r : RunOnce} {s : EngineStep RunOnce (Ended (Option Report))}
    {r' : BatchRun} (hr : r.batch? = some r') (h : r.step out t e = some s) :
    ∃ s', r'.step out e = some s' ∧ s.Inside batch? s' := by
  cases r with
  | running c =>
    obtain ⟨s', hs', rfl⟩ := Option.map_eq_some_iff.1 h
    obtain ⟨s'', hs'', hin⟩ := CatalogRun.step_inside hr hs'
    exact ⟨s'', hs'', hin.within (fun _ => rfl) fun x => by cases x <;> rfl⟩
  | start | publishing | leaving => cases hr

theorem RefreshLoop.wake_apart (tick : Nat) (e' : Engine) (he : e'.batches = e.batches)
    (w : Wake) : (wake out t tick e' w).Apart e := by
  cases w <;> exact ⟨he, by simp [wake, finish]⟩

theorem RefreshLoop.step_apart {l : RefreshLoop} {s : EngineStep RefreshLoop Unit}
    (hl : l.batch? = none) (h : l.step out t e = some s) : s.Apart e := by
  cases does_of_step h with
  | idle => exact ⟨rfl, by simp [finish]⟩
  | start | listen => exact ⟨rfl, by simp⟩
  | take | heed | awake => exact wake_apart _ _ (by rfl) _
  | run hs' =>
    have hs := RunOnce.step_apart hl hs'
    unfold afterBatch
    split <;> exact ⟨hs.batches, hs.spawns⟩

theorem RefreshLoop.step_inside {l : RefreshLoop} {s : EngineStep RefreshLoop Unit}
    {r : BatchRun} (hl : l.batch? = some r) (h : l.step out t e = some s) :
    ∃ s', r.step out e = some s' ∧ s.Inside batch? s' := by
  cases l with
  | running tick r' =>
    obtain ⟨s', hs', rfl⟩ := Option.map_eq_some_iff.1 h
    obtain ⟨s'', hs'', hin⟩ := RunOnce.step_inside hl hs'
    refine ⟨s'', hs'', ?_⟩
    have hnext := hin.next
    unfold afterBatch
    split <;> rename_i hn <;> rw [hn] at hnext <;> exact ⟨hin.batches, hin.spawns, hnext⟩
  | start | looking | waiting => cases hl

theorem Engine.batches_retain (days : Nat) : (e.retain out days).2.batches = e.batches := by
  unfold retain
  split
  · rfl
  · split <;> rfl

theorem RetentionLoop.step_apart {l : RetentionLoop} {s : EngineStep RetentionLoop Unit}
    (h : l.step out t e = some s) : s.Apart e := by
  cases does_of_step h with
  | start => exact ⟨rfl, by simp⟩
  | stop => exact ⟨rfl, by simp [finish]⟩
  | breakDown => exact ⟨Engine.batches_retain _, by simp [finish]⟩
  | prune => exact ⟨Engine.batches_retain _, by simp⟩

theorem Stop.step_apart {x : Stop} {s : EngineStep Stop Unit} (h : x.step e = some s) :
    s.Apart e := by
  cases does_of_step h <;> exact ⟨rfl, by simp⟩

namespace Activity

variable {a : Activity} {s : EngineStep Activity Result}

/-- What is not a metric does not become one. -/
theorem step_place? (ha : a.place? = none) (h : a.step out t e = some s) :
    s.next.stage?.bind place? = none := by
  have hnone : ∀ {σ : Type} (f : σ → Activity) (x : Option σ), (∀ y, (f y).place? = none) →
      (x.map f).bind place? = none := fun f x hf => by cases x <;> simp [hf]
  cases a with
  | metric => cases ha
  | call | batch | catalog | runOnce | refreshLoop | retentionLoop | stop =>
    obtain ⟨s', -, rfl⟩ := Option.map_eq_some_iff.1 h
    simp only [EngineStep.within, Engine.afterRouter, Next.stage?_within_done]
    exact hnone _ _ fun _ => rfl

theorem step_apart (ha : a.place? = none) (hb : a.batch? = none) (h : a.step out t e = some s) :
    s.Apart e := by
  cases a with
  | metric => cases ha
  | batch => cases hb
  | call c =>
    obtain ⟨s', -, rfl⟩ := Option.map_eq_some_iff.1 h
    exact ⟨rfl, by simp [Engine.afterRouter, Spawn.activity, place?]⟩
  | catalog c =>
    obtain ⟨s', hs', rfl⟩ := Option.map_eq_some_iff.1 h
    exact (CatalogRun.step_apart hb hs').within
  | runOnce r =>
    obtain ⟨s', hs', rfl⟩ := Option.map_eq_some_iff.1 h
    exact (RunOnce.step_apart hb hs').within
  | refreshLoop l =>
    obtain ⟨s', hs', rfl⟩ := Option.map_eq_some_iff.1 h
    exact (RefreshLoop.step_apart hb hs').within
  | retentionLoop l =>
    obtain ⟨s', hs', rfl⟩ := Option.map_eq_some_iff.1 h
    exact (RetentionLoop.step_apart hs').within
  | stop x =>
    obtain ⟨s', hs', rfl⟩ := Option.map_eq_some_iff.1 h
    exact (Stop.step_apart hs').within

theorem step_inside {r : BatchRun} (hb : a.batch? = some r) (h : a.step out t e = some s) :
    ∃ s', r.step out e = some s' ∧ s.Inside batch? s' := by
  cases a with
  | call | metric | retentionLoop | stop => cases hb
  | batch r' =>
    cases hb
    obtain ⟨s', hs', rfl⟩ := Option.map_eq_some_iff.1 h
    refine ⟨s', hs', rfl, rfl, ?_⟩
    simp only [EngineStep.within]
    cases s'.next <;> rfl
  | catalog c =>
    obtain ⟨s', hs', rfl⟩ := Option.map_eq_some_iff.1 h
    obtain ⟨s'', hs'', hin⟩ := CatalogRun.step_inside hb hs'
    exact ⟨s'', hs'', hin.within (fun _ => rfl) fun _ => rfl⟩
  | runOnce r' =>
    obtain ⟨s', hs', rfl⟩ := Option.map_eq_some_iff.1 h
    obtain ⟨s'', hs'', hin⟩ := RunOnce.step_inside hb hs'
    exact ⟨s'', hs'', hin.within (fun _ => rfl) fun _ => rfl⟩
  | refreshLoop l =>
    obtain ⟨s', hs', rfl⟩ := Option.map_eq_some_iff.1 h
    obtain ⟨s'', hs'', hin⟩ := RefreshLoop.step_inside hb hs'
    exact ⟨s'', hs'', hin.within (fun _ => rfl) fun _ => rfl⟩

end Activity

end Steps

/-- A step of a batch has no part in the batches that there are, unless it begins one. -/
theorem BatchRun.step_cases {out : Outside} {e : Engine} {r : BatchRun}
    {s : EngineStep BatchRun (Ended Report)} (h : r.step out e = some s) :
    s.Apart e ∨ ∃ ds token admission, r = .start ds token ∧ Batch.validate ds = .ok () ∧
      Admission.ofOptions? e.options = some admission ∧
      s = ⟨{ e with batches := e.batches ++ [.start ds token out.now admission] },
        .stage (.joining e.batches.length),
        (List.range ds.length).map (Spawn.metric e.batches.length)⟩ := by
  cases does_of_step h with
  | begin hvalid hadmission => exact .inr ⟨_, _, _, rfl, hvalid, hadmission, rfl⟩
  | reject | overflow | report | lose | keep => exact .inl ⟨rfl, by simp⟩

/-- A batch has no permits only if they are too many. -/
theorem Admission.ofOptions?_eq_none_iff {o : RefreshOptions} :
    Admission.ofOptions? o = none ↔
      ¬ (o.maxInFlight ≤ maxPermits ∧ o.relationalConcurrency ≤ maxPermits) := by
  rw [ofOptions?]
  split <;> simp [*]

/-! ## Steps of metrics -/

namespace Metric

variable {out : Outside} {t : TaskId} {b i : Nat} {k : Batch} {d : Definition} {e : Engine}
  {m : Metric} {s : EngineStep Metric Unit}

theorem place?_of_spawns (h : m.step out t b i k d e = some s) :
    ∀ a ∈ s.spawns.map Spawn.activity, a.place? = none := by
  intro a ha
  obtain ⟨p, hp, rfl⟩ := List.mem_map.1 ha
  obtain ⟨c, rfl⟩ := step_spawns h p hp
  rfl

/-- What a step of a metric does to the engine: it changes its batch, or the router, or it records
the result. -/
theorem step_engine (h : m.step out t b i k d e = some s) :
    (∃ f, s.engine = e.onBatch b f) ∨ (∃ r, s.engine = { e with router := r }) ∨
      ∃ startedMs x, m = recording startedMs x ∧
        s.engine = { e with
          storage := (e.storage.record out.refusals d.id (write x out.now)).2 } := by
  cases does_of_step h with
  | cancel | enterOverall | turnBack | begin => exact .inr (.inl ⟨e.router, rfl⟩)
  | ask | withdrawTarget | enterTarget | withdrawOverall | leaveTarget | leaveOverall | finish =>
    exact .inl ⟨_, rfl⟩
  | compute => exact .inr (.inl ⟨_, rfl⟩)
  | record => exact .inr (.inr ⟨_, _, rfl, rfl⟩)

/-- A step of a metric changes no batch but its own. -/
theorem step_batches (h : m.step out t b i k d e = some s) :
    ∃ f, s.engine.batches = e.batches.modify b f := by
  have hsame : e.batches = e.batches.modify b id := (List.modify_id ..).symm
  rcases step_engine h with ⟨f, hs⟩ | ⟨r, hs⟩ | ⟨_, _, -, hs⟩
  · exact ⟨f, congrArg Engine.batches hs⟩
  · exact ⟨id, (congrArg Engine.batches hs).trans hsame⟩
  · exact ⟨id, (congrArg Engine.batches hs).trans hsame⟩

theorem step_getElem?_of_ne (h : m.step out t b i k d e = some s) {b' : Nat} (hb : b ≠ b') :
    s.engine.batches[b']? = e.batches[b']? := by
  obtain ⟨f, hf⟩ := step_batches h
  rw [hf, List.getElem?_modify_ne _ _ hb]

/-- What a batch was before a step of a metric: the step changes no definitions, no token, and no
outcome but that of the metric. -/
theorem batch_of_step (hk : e.batches[b]? = some k) (h : m.step out t b i k d e = some s)
    {b' : Nat} {k' : Batch} (hk' : s.engine.batches[b']? = some k') :
    ∃ k₀, e.batches[b']? = some k₀ ∧ k'.definitions = k₀.definitions ∧ k'.token = k₀.token ∧
      ∀ j, (b', j) ≠ (b, i) → k'.outcomes[j]? = k₀.outcomes[j]? := by
  by_cases hb : b = b'
  · subst hb
    rcases step_batch hk h with ⟨o, -, -, hafter⟩ | ⟨-, a, hafter⟩
    · obtain rfl : k.finish i o = k' := Option.some.inj (hafter.symm.trans hk')
      refine ⟨k, hk, rfl, rfl, fun j hj => List.getElem?_set_ne fun hij => ?_⟩
      exact hj (hij ▸ rfl)
    · obtain rfl := Option.some.inj (hafter.symm.trans hk')
      exact ⟨k, hk, rfl, rfl, fun _ _ => rfl⟩
  · exact ⟨k', (step_getElem?_of_ne h hb).symm.trans hk', rfl, rfl, fun _ _ => rfl⟩

end Metric

/-! ## Steps of the world -/

namespace World

/-- The batch and the place of the metric that a task is at. -/
def place? (w : World) (t : TaskId) : Option (Nat × Nat) := (w.activity? t).bind Activity.place?

/-- Whether a task is at a metric of a batch. -/
def isOf (b : Nat) (x : Option Activity) : Bool := (x.bind Activity.place?).any (·.1 == b)

/-- How many metrics of a batch have not ended. -/
def left (w : World) (b : Nat) : Nat := w.tasks.countP (isOf b)

/-- What a step of the world is to the batches. -/
inductive BatchStep (w : World) (out : Outside) (t : TaskId) : World → Prop
  | metric {b i : Nat} {m : Metric} {k : Batch} {d : Definition} {s : EngineStep Metric Unit} :
    w.activity? t = some (.metric b i m) → w.engine.batches[b]? = some k →
    k.definitions[i]? = some d → m.step (w.outside out) t b i k d w.engine = some s →
    BatchStep w out t (w.after t s.engine (s.next.stage?.map (.metric b i))
      (s.spawns.map Spawn.activity))
  /-- A batch begins. -/
  | opening {ds : List Definition} {token : Token} {admission : Admission} {e : Engine}
      {x : Option Activity} :
    t < w.tasks.length → w.place? t = none → Batch.validate ds = .ok () →
    e.batches = w.engine.batches ++ [.start ds token out.now admission] →
    x.bind Activity.place? = none →
    BatchStep w out t (w.after t e x
      ((List.range ds.length).map fun i => .metric w.engine.batches.length i .start))
  /-- No batch has a part in it. -/
  | apart {e : Engine} {x : Option Activity} {as : List Activity} :
    t < w.tasks.length → w.place? t = none → e.batches = w.engine.batches →
    x.bind Activity.place? = none → (∀ a ∈ as, a.place? = none) →
    BatchStep w out t (w.after t e x as)

/-- What holds of the tasks and the batches all through the operation of an engine. -/
structure Regular (w : World) : Prop where
  known : ∀ t b i, w.place? t = some (b, i) →
    ∃ k, w.engine.batches[b]? = some k ∧ i < k.definitions.length
  unique : ∀ t u p, w.place? t = some p → w.place? u = some p → t = u
  valid : ∀ (b : Nat) (k : Batch), w.engine.batches[b]? = some k →
    Batch.validate k.definitions = .ok ()
  outcomes : ∀ (b : Nat) (k : Batch), w.engine.batches[b]? = some k →
    k.outcomes.length = k.definitions.length
  unfinished : ∀ (b : Nat) (k : Batch), w.engine.batches[b]? = some k → k.unfinished = w.left b

variable {w w' : World} {out : Outside} {t u : TaskId} {b i : Nat} {e : Engine}
  {x : Option Activity} {as : List Activity} {res : Option Result}

theorem place?_after (ht : t < w.tasks.length) (e : Engine) (x : Option Activity)
    (as : List Activity) (u : TaskId) :
    (w.after t e x as).place? u =
      if u = t then x.bind Activity.place? else if u < w.tasks.length then w.place? u
        else as[u - w.tasks.length]?.bind Activity.place? := by
  rw [place?, activity?_after _ _ _ ht]
  split
  · rfl
  · split <;> rfl

theorem place?_of_le (h : w.tasks.length ≤ u) : w.place? u = none := by
  rw [place?, activity?_of_le h]
  rfl

theorem lt_of_place? {p : Nat × Nat} (h : w.place? t = some p) : t < w.tasks.length :=
  Nat.lt_of_not_le fun hle => by
    rw [place?_of_le hle] at h
    cases h

/-- What a task is at after a step: it went on, or is another, or it was added. -/
theorem activity?_of_after {a : Activity} (ht : t < w.tasks.length)
    (h : (w.after t e x as).activity? u = some a) :
    u = t ∧ x = some a ∨ u ≠ t ∧ w.activity? u = some a ∨ a ∈ as := by
  rw [activity?_after _ _ _ ht] at h
  split at h
  · exact .inl ⟨‹_›, h⟩
  · split at h
    · exact .inr (.inl ⟨‹_›, h⟩)
    · exact .inr (.inr (List.mem_of_getElem? h))

/-- Who is at which metric stays the same if it does for the task that takes the step. -/
theorem place?_after_of_eq (ht : t < w.tasks.length) (hx : x.bind Activity.place? = w.place? t)
    (has : ∀ a ∈ as, a.place? = none) (u : TaskId) :
    (w.after t e x as).place? u = w.place? u := by
  rw [place?_after ht]
  split
  · rename_i hu
    rw [hu, hx]
  · split
    · rfl
    · rename_i hu
      rw [place?_of_le (Nat.le_of_not_lt hu), Option.bind_eq_none_iff]
      exact fun a ha => has a (List.mem_of_getElem? ha)

theorem left_after (ht : t < w.tasks.length) (e : Engine) (x : Option Activity)
    (as : List Activity) (b : Nat) :
    ((w.after t e x as).left b + if isOf b (w.activity? t) then 1 else 0) =
      (w.left b + if isOf b x then 1 else 0) + as.countP fun a => isOf b (some a) := by
  have ha : w.activity? t = w.tasks[t] := by rw [activity?, List.getElem?_eq_getElem ht]; rfl
  have hle := List.boole_getElem_le_countP (p := isOf b) ht
  rw [left, left, after, List.countP_append, List.countP_set ht, List.countP_map, ha]
  change _ - _ + _ + (as.countP fun a => isOf b (some a)) + _ = _
  omega

theorem isOf_eq_false (h : x.bind Activity.place? = none) : isOf b x = false := by
  rw [isOf, h]
  rfl

theorem left_after_of_apart (ht : t < w.tasks.length) (e : Engine) (x : Option Activity)
    (has : ∀ a ∈ as, a.place? = none) (b : Nat) :
    ((w.after t e x as).left b + if isOf b (w.activity? t) then 1 else 0) =
      w.left b + if isOf b x then 1 else 0 := by
  have hzero : (as.countP fun a => isOf b (some a)) = 0 :=
    List.countP_eq_zero.2 fun a ha => by
      rw [isOf_eq_false (x := some a) (has a ha)]
      exact Bool.false_ne_true
  rw [left_after ht, hzero, Nat.add_zero]

theorem left_pos (h : w.place? t = some (b, i)) : 0 < w.left b := by
  obtain ⟨a, ha, hp⟩ := Option.bind_eq_some_iff.1 h
  refine List.countP_pos_iff.2 ⟨some a, List.mem_of_getElem? (Option.join_eq_some_iff.1 ha), ?_⟩
  simp [isOf, hp]

theorem left_eq_zero (h : ∀ t i, w.place? t ≠ some (b, i)) : w.left b = 0 := by
  refine List.countP_eq_zero.2 fun x hx hof => ?_
  obtain ⟨t, ht⟩ := List.mem_iff_getElem?.1 hx
  obtain ⟨⟨b', i⟩, hp, hb⟩ := (Option.any_eq_true _ _).1 hof
  obtain rfl : b' = b := by simpa using hb
  refine h t i ?_
  rw [place?, activity?, ht]
  exact hp

theorem Regular.batchStep (hw : w.Regular) (h : w.step out t = some (w', res)) :
    w.BatchStep out t w' := by
  obtain ⟨a, s, ha, hs, rfl, -⟩ := step_eq_some h
  have ht := lt_of_activity? ha
  have hplace : w.place? t = a.place? := by rw [place?, ha, Option.bind_some]
  by_cases hp : a.place? = none
  · rw [hp] at hplace
    have hnext := Activity.step_place? hp hs
    cases hb : a.batch? with
    | none =>
      have hapart := Activity.step_apart hp hb hs
      refine .apart ht hplace hapart.batches hnext fun a ha => ?_
      obtain ⟨p, hp, rfl⟩ := List.mem_map.1 ha
      exact hapart.spawns p hp
    | some r =>
      obtain ⟨s', hs', hin⟩ := Activity.step_inside hb hs
      rw [hin.spawns]
      rcases BatchRun.step_cases hs' with hapart | ⟨ds, token, admission, -, hvalid, -, rfl⟩
      · refine .apart ht hplace (hin.batches.trans hapart.batches) hnext fun a ha => ?_
        obtain ⟨p, hp, rfl⟩ := List.mem_map.1 ha
        exact hapart.spawns p hp
      · rw [List.map_map]
        exact .opening ht hplace hvalid hin.batches hnext
  · cases a with
    | metric b i m =>
      obtain ⟨k, hk, hi⟩ := hw.known t b i hplace
      have hd : k.definitions[i]? = some k.definitions[i] := List.getElem?_eq_getElem hi
      simp only [Activity.step, hk, hd, Option.map_eq_some_iff] at hs
      obtain ⟨s', hs', rfl⟩ := hs
      rw [EngineStep.within, Next.stage?_within_done]
      exact .metric ha hk hd hs'
    | _ => exact absurd rfl hp

/-! ### What a step keeps -/

namespace BatchStep

variable {k : Batch}

/-- A metric that a task is at after a step is the one it was at, or one of a batch that begins. -/
theorem place? (h : w.BatchStep out t w') {p : Nat × Nat} (hp : w'.place? u = some p) :
    w.place? u = some p ∨ p = (w.engine.batches.length, u - w.tasks.length) ∧
      w.tasks.length ≤ u ∧ ∃ k, w'.engine.batches[p.1]? = some k ∧ p.2 < k.definitions.length := by
  cases h with
  | @metric b i m k d s ha hk hd hm =>
    have ht := lt_of_activity? ha
    rw [place?_after ht] at hp
    split at hp
    · rename_i hu
      subst hu
      left
      rw [World.place?, ha]
      cases hn : s.next.stage? with
      | none => simp [hn] at hp
      | some m' =>
        rw [hn] at hp
        exact hp
    · split at hp
      · exact .inl hp
      · obtain ⟨a, ha, hp⟩ := Option.bind_eq_some_iff.1 hp
        rw [Metric.place?_of_spawns hm a (List.mem_of_getElem? ha)] at hp
        cases hp
  | @opening ds token admission e x ht hplace hvalid hbatches hx =>
    rw [place?_after ht] at hp
    split at hp
    · rw [hx] at hp
      cases hp
    · split at hp
      · exact .inl hp
      · rename_i hu
        obtain ⟨a, ha, hp⟩ := Option.bind_eq_some_iff.1 hp
        rw [List.getElem?_map, Option.map_eq_some_iff] at ha
        obtain ⟨i, hi, rfl⟩ := ha
        obtain ⟨hlt, rfl⟩ := List.getElem?_eq_some_iff.1 hi
        cases hp
        rw [List.length_range] at hlt
        refine .inr ⟨by rw [List.getElem_range], Nat.le_of_not_lt hu,
          .start ds token out.now admission, by simp [hbatches], ?_⟩
        rwa [List.getElem_range]
  | apart ht hplace hbatches hx has =>
    rw [place?_after_of_eq ht (hx.trans hplace.symm) has] at hp
    exact .inl hp

/-- A batch keeps its definitions and its token. -/
theorem exists_batch (h : w.BatchStep out t w') (hk : w.engine.batches[b]? = some k) :
    ∃ k', w'.engine.batches[b]? = some k' ∧ k'.definitions = k.definitions ∧
      k'.token = k.token := by
  cases h with
  | @metric b' i m k' d s ha hk' hd hm =>
    by_cases hb : b' = b
    · subst hb
      obtain rfl : k' = k := Option.some.inj (hk'.symm.trans hk)
      rcases Metric.step_batch hk' hm with ⟨o, -, -, hafter⟩ | ⟨-, a, hafter⟩
      · exact ⟨_, hafter, rfl, rfl⟩
      · exact ⟨_, hafter, rfl, rfl⟩
    · exact ⟨k, (Metric.step_getElem?_of_ne hm hb).trans hk, rfl, rfl⟩
  | opening ht hplace hvalid hbatches hx =>
    refine ⟨k, ?_, rfl, rfl⟩
    rw [engine_after, hbatches, List.getElem?_append_left (List.getElem?_eq_some_iff.1 hk).1, hk]
  | apart ht hplace hbatches hx has => exact ⟨k, by rw [engine_after, hbatches, hk], rfl, rfl⟩

/-- Where a batch comes from: its permits may have changed, or one of its metrics has ended, or it
begins. -/
theorem batch (h : w.BatchStep out t w') (hk : w'.engine.batches[b]? = some k) :
    (∃ k₀ a, w.engine.batches[b]? = some k₀ ∧ k = { k₀ with admission := a } ∧
      w'.left b = w.left b) ∨
    (∃ k₀ i o, w.engine.batches[b]? = some k₀ ∧ k = k₀.finish i o ∧
      w.activity? t = some (.metric b i (.ending o)) ∧ w'.left b + 1 = w.left b) ∨
    b = w.engine.batches.length ∧ ∃ ds token admission, Batch.validate ds = .ok () ∧
      k = .start ds token out.now admission ∧ w'.left b = w.left b + ds.length := by
  cases h with
  | @metric b' i m k' d s ha hk' hd hm =>
    have hleft := left_after_of_apart (lt_of_activity? ha) s.engine
      (s.next.stage?.map (.metric b' i)) (Metric.place?_of_spawns hm) b
    rw [ha] at hleft
    by_cases hb : b' = b
    · subst hb
      rcases Metric.step_batch hk' hm with ⟨o, rfl, hnext, hafter⟩ | ⟨⟨m', hnext⟩, a, hafter⟩
      · refine .inr (.inl ⟨k', i, o, hk', Option.some.inj (hk.symm.trans hafter), ha, ?_⟩)
        rw [hnext] at hleft ⊢
        simpa [isOf, Activity.place?, Next.stage?] using hleft
      · refine .inl ⟨k', a, hk', Option.some.inj (hk.symm.trans hafter), ?_⟩
        rw [hnext] at hleft ⊢
        simpa [isOf, Activity.place?, Next.stage?] using hleft
    · have hk₀ := (Metric.step_getElem?_of_ne hm hb).symm.trans hk
      refine .inl ⟨k, k.admission, hk₀, rfl, ?_⟩
      cases hn : s.next.stage? <;> simpa [isOf, Activity.place?, hn, hb] using hleft
  | @opening ds token admission e x ht hplace hvalid hbatches hx =>
    have hleft := left_after ht e x
      ((List.range ds.length).map fun i => .metric w.engine.batches.length i .start) b
    rw [isOf_eq_false hplace, isOf_eq_false hx, List.countP_map] at hleft
    rw [engine_after, hbatches] at hk
    rcases Nat.lt_trichotomy b w.engine.batches.length with hb | rfl | hb
    · rw [List.getElem?_append_left hb] at hk
      refine .inl ⟨k, k.admission, hk, rfl, ?_⟩
      simpa [Function.comp_def, isOf, Activity.place?, beq_false_of_ne hb.ne'] using hleft
    · refine .inr (.inr ⟨rfl, ds, token, admission, hvalid, by simpa using hk.symm, ?_⟩)
      simpa [Function.comp_def, isOf, Activity.place?] using hleft
    · rw [List.getElem?_eq_none (by simpa using Nat.succ_le_of_lt hb)] at hk
      cases hk
  | @apart e x as ht hplace hbatches hx has =>
    have hleft := left_after_of_apart ht e x has b
    rw [isOf_eq_false hplace, isOf_eq_false hx] at hleft
    rw [engine_after, hbatches] at hk
    exact .inl ⟨k, k.admission, hk, rfl, hleft⟩

end BatchStep

/-- **The tasks and the batches stay in order.** -/
theorem Regular.step (hw : w.Regular) (h : w.BatchStep out t w') : w'.Regular where
  known u b i hp := by
    rcases h.place? hp with hold | ⟨-, -, k, hk, hi⟩
    · obtain ⟨k, hk, hi⟩ := hw.known u b i hold
      obtain ⟨k', hk', hds, -⟩ := h.exists_batch hk
      exact ⟨k', hk', hds ▸ hi⟩
    · exact ⟨k, hk, hi⟩
  unique u v p hu hv := by
    have hnew : ∀ x, w.place? x = some p → p.1 ≠ w.engine.batches.length := fun x hx hp => by
      obtain ⟨k, hk, -⟩ := hw.known x p.1 p.2 hx
      rw [hp, List.getElem?_eq_none (Nat.le_refl _)] at hk
      cases hk
    rcases h.place? hu with hu | ⟨hpu, hlu, -⟩ <;> rcases h.place? hv with hv | ⟨hpv, hlv, -⟩
    · exact hw.unique u v p hu hv
    · exact absurd (congrArg Prod.fst hpv) (hnew u hu)
    · exact absurd (congrArg Prod.fst hpu) (hnew v hv)
    · have hsub : u - w.tasks.length = v - w.tasks.length :=
        congrArg Prod.snd (hpu.symm.trans hpv)
      rw [← Nat.sub_add_cancel hlu, hsub, Nat.sub_add_cancel hlv]
  valid b k hk := by
    rcases h.batch hk with ⟨k₀, a, hk₀, rfl, -⟩ | ⟨k₀, i, o, hk₀, rfl, -⟩ |
      ⟨-, ds, token, admission, hvalid, rfl, -⟩
    · exact hw.valid b k₀ hk₀
    · exact hw.valid b k₀ hk₀
    · exact hvalid
  outcomes b k hk := by
    rcases h.batch hk with ⟨k₀, a, hk₀, rfl, -⟩ | ⟨k₀, i, o, hk₀, rfl, -⟩ |
      ⟨-, ds, token, admission, hvalid, rfl, -⟩
    · exact hw.outcomes b k₀ hk₀
    · exact (List.length_set ..).trans (hw.outcomes b k₀ hk₀)
    · exact List.length_map _
  unfinished b k hk := by
    rcases h.batch hk with ⟨k₀, a, hk₀, rfl, hleft⟩ | ⟨k₀, i, o, hk₀, rfl, -, hleft⟩ |
      ⟨rfl, ds, token, admission, -, rfl, hleft⟩
    · exact (hw.unfinished b k₀ hk₀).trans hleft.symm
    · have hk := hw.unfinished b k₀ hk₀
      change k₀.unfinished - 1 = _
      omega
    · have hzero : w.left w.engine.batches.length = 0 := left_eq_zero fun u i hu => by
        obtain ⟨k, hk, -⟩ := hw.known u _ i hu
        rw [List.getElem?_eq_none (Nat.le_refl _)] at hk
        cases hk
      rw [hleft, hzero, Nat.zero_add]
      rfl

/-- Nothing is done for a batch of which no metric is left. -/
theorem Regular.getElem?_of_unfinished (hw : w.Regular) (h : w.BatchStep out t w') {k : Batch}
    (hk : w.engine.batches[b]? = some k) (hzero : k.unfinished = 0) :
    w'.engine.batches[b]? = some k := by
  have hleft : w.left b = 0 := (hw.unfinished b k hk).symm.trans hzero
  cases h with
  | @metric b' i m k' d s ha hk' hd hm =>
    have hb : b' ≠ b := fun hb => by
      subst hb
      have hplace : w.place? t = some (b', i) := by rw [World.place?, ha]; rfl
      exact (left_pos hplace).ne' hleft
    exact (Metric.step_getElem?_of_ne hm hb).trans hk
  | opening ht hplace hvalid hbatches hx =>
    rw [engine_after, hbatches, List.getElem?_append_left (List.getElem?_eq_some_iff.1 hk).1, hk]
  | apart ht hplace hbatches hx has => rw [engine_after, hbatches, hk]

end World

/-! ## The operation -/

/-- The operation of an engine: the steps taken so far, and what they have led to. -/
inductive Operation : List Move → World → Prop
  /-- An engine that has no batch, and no task. -/
  | idle {e : Engine} : e.batches = [] → Operation [] ⟨e, []⟩
  | begin {xs : List Move} {w : World} {a : Activity} : Operation xs w → a.isEntry = true →
    Operation xs (w.spawn [a])
  /-- The world outside changes the engine, but for the batches. -/
  | change {xs : List Move} {w : World} {e : Engine} : Operation xs w →
    e.batches = w.engine.batches → Operation xs { w with engine := e }
  | move {xs : List Move} {w w' : World} {t : TaskId} {out : Outside} {res : Option Result} :
    Operation xs w → w.step out t = some (w', res) →
    Operation (xs ++ [⟨w, t, out, w', res⟩]) w'

namespace World

variable {w : World}

theorem Regular.idle {e : Engine} (he : e.batches = []) : (World.mk e []).Regular where
  known _ _ _ h := by cases h
  unique _ _ _ h := by cases h
  valid b k h := by simp [he] at h
  outcomes b k h := by simp [he] at h
  unfinished b k h := by simp [he] at h

theorem place?_begin {a : Activity} (ha : a.place? = none) (t : TaskId) :
    (w.spawn [a]).place? t = w.place? t := by
  rw [place?, activity?_spawn]
  split
  · rename_i ht
    rw [Option.bind_some, ha, place?_of_le (Nat.le_of_eq ht.symm)]
  · rfl

theorem left_begin {a : Activity} (ha : a.place? = none) (b : Nat) :
    (w.spawn [a]).left b = w.left b := by
  rw [left, left, spawn, List.countP_append]
  simp [isOf_eq_false (x := some a) ha]

theorem Regular.begin (hw : w.Regular) {a : Activity} (ha : a.place? = none) :
    (w.spawn [a]).Regular where
  known t b i h := hw.known t b i (by rwa [place?_begin ha] at h)
  unique t u p ht hu := hw.unique t u p (by rwa [place?_begin ha] at ht)
    (by rwa [place?_begin ha] at hu)
  valid := hw.valid
  outcomes := hw.outcomes
  unfinished b k hk := (hw.unfinished b k hk).trans (left_begin ha b).symm

theorem Regular.change (hw : w.Regular) {e : Engine} (he : e.batches = w.engine.batches) :
    World.Regular { w with engine := e } where
  known t b i h := he ▸ hw.known t b i h
  unique := hw.unique
  valid b k hk := hw.valid b k (he ▸ hk)
  outcomes b k hk := hw.outcomes b k (he ▸ hk)
  unfinished b k hk := hw.unfinished b k (he ▸ hk)

end World

/-! ### Batches that begin and end -/

namespace Move

/-- The batch that begins with a step, and its definitions. -/
def opens? (x : Move) : Option (Nat × List Definition) :=
  match (x.before.activity? x.task).bind Activity.batch?,
    (x.after.activity? x.task).bind Activity.batch? with
  | some (.start ds _), some (.joining b) => some (b, ds)
  | _, _ => none

/-- The batch that has ended by a step, and the report that the step makes of it. -/
def reports? (x : Move) : Option (Nat × Report) :=
  match (x.before.activity? x.task).bind Activity.batch?,
    (x.after.activity? x.task).bind Activity.batch? with
  | some (.joining b), some (.reporting r) => some (b, r)
  | _, _ => none

variable {x : Move} {b : Nat}

theorem step_batch? (h : x.before.step x.outside x.task = some (x.after, x.result)) {r : BatchRun}
    (hr : (x.before.activity? x.task).bind Activity.batch? = some r) :
    ∃ s, r.step (x.before.outside x.outside) x.before.engine = some s ∧
      x.after.engine.batches = s.engine.batches ∧
      (x.after.activity? x.task).bind Activity.batch? = s.next.stage? := by
  obtain ⟨a, s, ha, hs, hafter, -⟩ := World.step_eq_some h
  rw [ha, Option.bind_some] at hr
  obtain ⟨s', hs', hin⟩ := Activity.step_inside hr hs
  rw [hafter, World.activity?_after_self _ _ _ (World.lt_of_activity? ha)]
  exact ⟨s', hs', hin.batches, hin.next⟩

/-- How a batch begins: it is accepted, all its permits are there, and its metrics are started. -/
theorem opening_of_opens? (h : x.before.step x.outside x.task = some (x.after, x.result))
    {ds : List Definition} (ho : x.opens? = some (b, ds)) :
    ∃ token admission e y, b = x.before.engine.batches.length ∧ Batch.validate ds = .ok () ∧
      (x.before.activity? x.task).bind Activity.batch? = some (.start ds token) ∧
      Admission.ofOptions? x.before.engine.options = some admission ∧
      e.batches = x.before.engine.batches ++ [.start ds token x.outside.now admission] ∧
      y.bind Activity.place? = none ∧
      x.after = x.before.after x.task e y
        ((List.range ds.length).map fun i => .metric b i .start) := by
  unfold opens? at ho
  split at ho
  · rename_i ds token b hbefore hafter
    cases ho
    obtain ⟨a, s, ha, hs, hw, -⟩ := World.step_eq_some h
    have hr : a.batch? = some (.start ds token) := by rwa [ha, Option.bind_some] at hbefore
    have hplace : a.place? = none := by
      cases a with
      | metric => cases hr
      | _ => rfl
    obtain ⟨s', hs', hin⟩ := Activity.step_inside hr hs
    rw [hw, World.activity?_after_self _ _ _ (World.lt_of_activity? ha), hin.next] at hafter
    cases BatchRun.does_of_step hs' with
    | reject | overflow => cases hafter
    | @begin _ _ admission hvalid hadm =>
      cases hafter
      refine ⟨token, admission, s.engine, s.next.stage?, rfl, hvalid, hbefore, hadm, hin.batches,
        Activity.step_place? hplace hs, ?_⟩
      rw [hw, hin.spawns, List.map_map]
      rfl
  · cases ho

theorem begun_of_opens? (h : x.before.step x.outside x.task = some (x.after, x.result))
    {ds : List Definition} (ho : x.opens? = some (b, ds)) :
    ∃ k, x.after.engine.batches[b]? = some k ∧ k.definitions = ds := by
  obtain ⟨token, admission, e, y, rfl, -, -, -, he, -, hafter⟩ := opening_of_opens? h ho
  refine ⟨.start ds token x.outside.now admission, ?_, rfl⟩
  rw [hafter, World.engine_after, he]
  exact List.getElem?_concat_length

theorem report_of_reports? (h : x.before.step x.outside x.task = some (x.after, x.result))
    {r : Report} (hr : x.reports? = some (b, r)) :
    ∃ k, x.after.engine.batches[b]? = some k ∧ k.unfinished = 0 ∧
      r = k.report r.id r.finishedAt := by
  unfold reports? at hr
  split at hr
  · rename_i b r hbefore hafter
    cases hr
    obtain ⟨s, hs, hbatches, hnext⟩ := step_batch? h hbefore
    rw [hafter] at hnext
    cases BatchRun.does_of_step hs with
    | @report _ k hk hunfinished =>
      cases hnext
      exact ⟨k, hbatches ▸ hk, hunfinished, rfl⟩
    | lose => cases hnext
  · cases hr

end Move

namespace Operation

variable {xs : List Move} {w : World} {x : Move}

/-- **The tasks and the batches are in order all through the operation.** -/
theorem regular (h : Operation xs w) : w.Regular := by
  induction h with
  | idle he => exact .idle he
  | begin _ ha hw => exact hw.begin (Activity.place?_of_isEntry ha)
  | change _ he hw => exact hw.change he
  | move _ hstep hw => exact hw.step (hw.batchStep hstep)

/-- What has happened before a step is an operation as well. -/
theorem of_append {ys : List Move} (h : Operation (xs ++ x :: ys) w) :
    Operation xs x.before ∧ x.before.step x.outside x.task = some (x.after, x.result) := by
  generalize hzs : xs ++ x :: ys = zs at h
  induction h generalizing ys with
  | idle => simp at hzs
  | begin _ _ ih | change _ _ ih => exact ih hzs
  | move h hstep ih =>
    rcases List.eq_nil_or_concat ys with rfl | ⟨ys', y, rfl⟩
    · obtain ⟨rfl, hx⟩ := List.append_inj' hzs rfl
      cases hx
      exact ⟨h, hstep⟩
    · rw [List.concat_eq_append, ← List.cons_append, ← List.append_assoc] at hzs
      exact ih (List.append_inj' hzs rfl).1

/-- What a step does to the batches, and later ones keep, holds from then on. -/
theorem keeps {P : Move → List Batch → Prop} (h : Operation xs w) (hx : x ∈ xs)
    (hnow : ∀ y : Move, y.before.step y.outside y.task = some (y.after, y.result) →
      P y y.after.engine.batches)
    (hkeep : ∀ (y : Move) (v v' : World) out t, v.Regular → v.BatchStep out t v' →
      P y v.engine.batches → P y v'.engine.batches) : P x w.engine.batches := by
  induction h with
  | idle => cases hx
  | begin _ _ ih => exact ih hx
  | change _ he ih => exact he ▸ ih hx
  | @move xs w w' t out res h hstep ih =>
    rcases List.mem_append.1 hx with hx | hx
    · exact hkeep x w w' out t h.regular (h.regular.batchStep hstep) (ih hx)
    · obtain rfl := List.mem_singleton.1 hx
      exact hnow _ hstep

/-- What a step leads to, and all that happens keeps, holds from then on. -/
theorem induction_from {P : World → Prop} (h : Operation xs w) (hx : x ∈ xs)
    (hnow : x.before.Regular → x.before.step x.outside x.task = some (x.after, x.result) →
      P x.after)
    (hbegin : ∀ v a, Activity.isEntry a = true → P v → P (v.spawn [a]))
    (hchange : ∀ (v : World) e, e.batches = v.engine.batches → P v → P { v with engine := e })
    (hmove : ∀ (v v' : World) out t res, v.Regular → v.step out t = some (v', res) → P v → P v') :
    P w := by
  induction h with
  | idle => cases hx
  | begin _ ha ih => exact hbegin _ _ ha (ih hx)
  | change _ he ih => exact hchange _ _ he (ih hx)
  | @move xs w w' t out res h hstep ih =>
    rcases List.mem_append.1 hx with hx | hx
    · exact hmove w w' out t res h.regular hstep (ih hx)
    · obtain rfl := List.mem_singleton.1 hx
      exact hnow h.regular hstep

/-- A batch that has begun keeps its definitions. -/
theorem definitions_of_opens? (h : Operation xs w) (hx : x ∈ xs) {b : Nat} {ds : List Definition}
    (ho : x.opens? = some (b, ds)) :
    ∃ k, w.engine.batches[b]? = some k ∧ k.definitions = ds := by
  refine h.keeps (P := fun y ks => ∀ b ds, y.opens? = some (b, ds) →
    ∃ k, ks[b]? = some k ∧ k.definitions = ds) hx (fun y hy b ds => Move.begun_of_opens? hy)
    (fun y v v' out t hv hstep hP b ds ho => ?_) b ds ho
  obtain ⟨k, hk, hds⟩ := hP b ds ho
  obtain ⟨k', hk', hds', -⟩ := hstep.exists_batch hk
  exact ⟨k', hk', hds'.trans hds⟩

/-- A batch that has made its report stays as it was reported. -/
theorem report_of_reports? (h : Operation xs w) (hx : x ∈ xs) {b : Nat} {r : Report}
    (hr : x.reports? = some (b, r)) :
    ∃ k, w.engine.batches[b]? = some k ∧ k.unfinished = 0 ∧ r = k.report r.id r.finishedAt := by
  refine h.keeps (P := fun y ks => ∀ b r, y.reports? = some (b, r) → ∃ k, ks[b]? = some k ∧
    k.unfinished = 0 ∧ r = k.report r.id r.finishedAt) hx
    (fun y hy b r => Move.report_of_reports? hy) (fun y v v' out t hv hstep hP b r hr => ?_) b r hr
  obtain ⟨k, hk, hzero, hreport⟩ := hP b r hr
  exact ⟨k, hv.getElem?_of_unfinished hstep hk hzero, hzero, hreport⟩

end Operation

/-! ### Operation on cue -/

/-- What happens next to an engine: an activity begins, a token is fired, or a task takes a step. -/
inductive Engine.Cue where
  | begin (a : Activity)
  | fire (token : Token)
  | move (t : TaskId) (answer : Option Answer)

/-- The operation after a cue; nothing happens if it cannot be followed. -/
def Engine.Cue.follow (p : List Move × World) : Engine.Cue → List Move × World
  | begin a => if a.isEntry then (p.1, p.2.spawn [a]) else p
  | fire token => (p.1, { p.2 with engine := p.2.engine.fire token })
  | move t answer =>
    match p.2.move t answer with
    | some (xs, w) => (p.1 ++ xs, w)
    | none => p

/-- The operation of an engine that follows some cues. -/
def Engine.enact (e : Engine) (cues : List Engine.Cue) : List Move × World :=
  cues.foldl Cue.follow ([], ⟨e, []⟩)

theorem Operation.enact {e : Engine} (he : e.batches = []) (cues : List Engine.Cue) :
    Operation (e.enact cues).1 (e.enact cues).2 := by
  have hfollow : ∀ (cues : List Engine.Cue) (p : List Move × World), Operation p.1 p.2 →
      Operation (cues.foldl Engine.Cue.follow p).1 (cues.foldl Engine.Cue.follow p).2 := by
    intro cues
    induction cues with
    | nil => exact fun _ hp => hp
    | cons q cues ih =>
      refine fun p hp => ih _ ?_
      cases q with
      | begin a =>
        rw [Engine.Cue.follow]
        split
        · exact hp.begin ‹_›
        · exact hp
      | fire token => exact hp.change rfl
      | move t answer =>
        rw [Engine.Cue.follow]
        split
        · obtain ⟨res, hstep, rfl⟩ := World.move_eq_some ‹_›
          exact hp.move hstep
        · exact hp
  exact hfollow cues _ (.idle he)

end MetricBoard
