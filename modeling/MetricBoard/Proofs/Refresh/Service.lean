import MetricBoard.Proofs.Refresh.Operation

/-!
# The service of a scheduler

The service of a scheduler (`Service`) is the operation of its engine (`Service.operation`) from the
moment that the scheduler is made: its loops may be started, more than once, batches are asked for,
tokens are fired, and tasks of any kind take their steps in any order. What has happened is kept in
its order (`Occurrence`): the requests and the tokens beside the steps. Only the scheduler's own
tasks change the scheduler, and a token that has been fired stays fired (`Service.isFired_iff`).
-/

namespace MetricBoard

/-- What happens to the engine of a scheduler. -/
inductive Occurrence where
  /-- Somebody asks for a batch. -/
  | trigger
  /-- A token is fired from outside. -/
  | fire (token : Token)
  /-- A task takes a step. -/
  | move (x : Move)

namespace Occurrence

/-- The step of a task. -/
def move? : Occurrence → Option Move
  | move x => some x
  | _ => none

/-- Whether a token is fired: from outside, or by the step that begins to stop the scheduler. -/
def fires (token : Token) : Occurrence → Bool
  | trigger => false
  | fire token' => token' == token
  | move x => x.before.activity? x.task == some (.stop .start) && token == .shutdown

end Occurrence

/-- The steps among what has happened. -/
def movesOf (os : List Occurrence) : List Move := os.filterMap Occurrence.move?

/-- The scheduler that nothing has happened to. -/
def Scheduler.IsNew (s : Scheduler) : Prop :=
  s = { intervalMs := s.intervalMs, retentionDays := s.retentionDays }

/-- The world after the loops of the scheduler were started. -/
def World.startLoops (w : World) (out : Outside) : World :=
  let p := w.engine.startLoops (w.outside out)
  World.spawn ⟨p.1, w.tasks⟩ (p.2.map Spawn.activity)

/-- Both loops are begun one after the other. -/
theorem World.startLoops_eq (w : World) (out : Outside) :
    w.startLoops out =
      (World.spawn { w with engine := (w.engine.startLoops (w.outside out)).1 }
        [.refreshLoop .start]).spawn [.retentionLoop .start] := by
  simp [startLoops, Engine.startLoops, spawn, Spawn.activity]

/-- The service of a scheduler: what has happened so far, and what it has led to. -/
inductive Service : List Occurrence → World → Prop
  /-- An engine that has no batch, a scheduler that nothing has happened to, and no task. -/
  | idle {e : Engine} : e.batches = [] → e.fired = [] → e.scheduler.IsNew → Service [] ⟨e, []⟩
  | begin {os : List Occurrence} {w : World} {a : Activity} : Service os w → a.isEntry = true →
    Service os (w.spawn [a])
  | start {os : List Occurrence} {w : World} (out : Outside) : Service os w →
    Service os (w.startLoops out)
  /-- The world outside changes the engine, but for the batches, the scheduler and the tokens. -/
  | change {os : List Occurrence} {w : World} {e : Engine} : Service os w →
    e.batches = w.engine.batches → e.scheduler = w.engine.scheduler →
    e.fired = w.engine.fired → Service os { w with engine := e }
  | trigger {os : List Occurrence} {w : World} : Service os w →
    Service (os ++ [Occurrence.trigger]) { w with engine := w.engine.trigger }
  | fire {os : List Occurrence} {w : World} (token : Token) : Service os w →
    Service (os ++ [Occurrence.fire token]) { w with engine := w.engine.fire token }
  | move {os : List Occurrence} {w w' : World} {t : TaskId} {out : Outside}
    {res : Option Result} : Service os w → w.step out t = some (w', res) →
    Service (os ++ [Occurrence.move ⟨w, t, out, w', res⟩]) w'

/-! ## The service as an operation -/

theorem movesOf_append (os os' : List Occurrence) :
    movesOf (os ++ os') = movesOf os ++ movesOf os' := List.filterMap_append ..

theorem mem_movesOf {os : List Occurrence} {x : Move} : x ∈ movesOf os ↔ .move x ∈ os := by
  rw [movesOf, List.mem_filterMap]
  constructor
  · rintro ⟨o, ho, hx⟩
    cases o with
    | move y =>
      cases hx
      exact ho
    | trigger | fire => cases hx
  · exact fun h => ⟨_, h, rfl⟩

/-- What has happened is split at a step that is found in it. -/
theorem eq_take_append_move {os : List Occurrence} {n : Nat} {x : Move}
    (h : (os[n]?).bind Occurrence.move? = some x) :
    os = os.take n ++ .move x :: os.drop (n + 1) := by
  obtain ⟨o, ho, hmove⟩ := Option.bind_eq_some_iff.1 h
  cases o with
  | move y =>
    cases hmove
    obtain ⟨hlt, hget⟩ := List.getElem?_eq_some_iff.1 ho
    rw [← hget, List.getElem_cons_drop, List.take_append_drop]
  | trigger | fire => cases hmove

theorem movesOf_singleton_of_none {o : Occurrence} (h : o.move? = none) : movesOf [o] = [] := by
  rw [movesOf, List.filterMap_cons_none h, List.filterMap_nil]

/-- What is added at the end of a list that is split at an element is that element, or comes after
it. -/
theorem eq_or_append_of_append_cons {α : Type} {ps qs os : List α} {a o : α}
    (h : ps ++ a :: qs = os ++ [o]) :
    ps = os ∧ a = o ∧ qs = [] ∨ ∃ qs', qs = qs' ++ [o] ∧ ps ++ a :: qs' = os := by
  rcases List.eq_nil_or_concat qs with rfl | ⟨qs', o', rfl⟩
  · obtain ⟨hps, ho⟩ := List.append_inj' h rfl
    exact .inl ⟨hps, List.head_eq_of_cons_eq ho, rfl⟩
  · rw [List.concat_eq_append, ← List.cons_append, ← List.append_assoc] at h
    obtain ⟨hos, ho⟩ := List.append_inj' h rfl
    exact .inr ⟨qs', by rw [List.concat_eq_append, ho], hos⟩

namespace Service

variable {os ps qs : List Occurrence} {w : World} {x : Move}

theorem operation (h : Service os w) : Operation (movesOf os) w := by
  induction h with
  | idle he => exact .idle he
  | begin _ ha ih => exact ih.begin ha
  | @start os w out _ ih =>
    have hloops : Operation (movesOf os)
        { w with engine := (w.engine.startLoops (w.outside out)).1 } := ih.change rfl
    rw [World.startLoops_eq]
    exact (hloops.begin (a := .refreshLoop .start) rfl).begin (a := .retentionLoop .start) rfl
  | change _ he _ _ ih => exact ih.change he
  | trigger _ ih | fire token _ ih =>
    rw [movesOf_append, movesOf_singleton_of_none rfl, List.append_nil]
    exact ih.change rfl
  | move _ hstep ih =>
    rw [movesOf_append]
    exact ih.move hstep

/-- What has happened before a step is service as well. -/
theorem of_append (h : Service (ps ++ .move x :: qs) w) :
    Service ps x.before ∧ x.before.step x.outside x.task = some (x.after, x.result) := by
  generalize hos : ps ++ .move x :: qs = os at h
  induction h generalizing qs with
  | idle => simp at hos
  | begin _ _ ih => exact ih hos
  | start _ _ ih => exact ih hos
  | change _ _ _ _ ih => exact ih hos
  | trigger _ ih | fire _ _ ih =>
    obtain ⟨-, hx, -⟩ | ⟨qs', -, hos'⟩ := eq_or_append_of_append_cons hos
    · cases hx
    · exact ih hos'
  | move h hstep ih =>
    obtain ⟨rfl, hx, -⟩ | ⟨qs', -, hos'⟩ := eq_or_append_of_append_cons hos
    · cases hx
      exact ⟨h, hstep⟩
    · exact ih hos'

/-- There is a moment at which a step was taken. -/
theorem of_mem (h : Service os w) (hx : .move x ∈ os) :
    ∃ ps qs : List Occurrence, os = ps ++ .move x :: qs ∧ Service ps x.before ∧
      x.before.step x.outside x.task = some (x.after, x.result) := by
  obtain ⟨ps, qs, rfl⟩ := List.append_of_mem hx
  exact ⟨ps, qs, rfl, h.of_append⟩

end Service

/-! ## Tokens -/

/-- The step leaves the scheduler and the tokens alone. -/
structure EngineStep.Offside {σ ρ : Type} (e : Engine) (s : EngineStep σ ρ) : Prop where
  scheduler : s.engine.scheduler = e.scheduler
  fired : s.engine.fired = e.fired

section Steps

variable {out : Outside} {t : TaskId} {e : Engine}

theorem BatchRun.step_offside {r : BatchRun} {s : EngineStep BatchRun (Ended Report)}
    (h : r.step out e = some s) : s.Offside e := by
  cases does_of_step h <;> exact ⟨rfl, rfl⟩

theorem CatalogRun.step_offside {c : CatalogRun} {s : EngineStep CatalogRun (Ended Report)}
    (h : c.step out e = some s) : s.Offside e := by
  cases does_of_step h with
  | load | fail => exact ⟨rfl, rfl⟩
  | run hs =>
    have hoff := BatchRun.step_offside hs
    exact ⟨hoff.scheduler, hoff.fired⟩

theorem Metric.step_offside {b i : Nat} {k : Batch} {d : Definition} {m : Metric}
    {s : EngineStep Metric Unit} (h : m.step out t b i k d e = some s) : s.Offside e := by
  obtain ⟨f, hs⟩ | ⟨r, hs⟩ | ⟨_, _, -, hs⟩ := step_engine h
  · exact ⟨by rw [hs]; rfl, by rw [hs]; rfl⟩
  · exact ⟨by rw [hs], by rw [hs]⟩
  · exact ⟨by rw [hs], by rw [hs]⟩

theorem RunOnce.step_fired {r : RunOnce} {s : EngineStep RunOnce (Ended (Option Report))}
    (h : r.step out t e = some s) : s.engine.fired = e.fired := by
  cases r with
  | start =>
    obtain ⟨-, rfl⟩ | ⟨-, rfl⟩ := step_start h <;> rfl
  | running c =>
    obtain ⟨s', hs', rfl⟩ := Option.map_eq_some_iff.1 h
    exact (CatalogRun.step_offside hs').fired
  | publishing | leaving =>
    cases h
    rfl

theorem RefreshLoop.fired_wake (tick : Nat) (e : Engine) (w : Wake) :
    (wake out t tick e w).engine.fired = e.fired := by
  cases w <;> rfl

theorem RefreshLoop.fired_afterBatch (tick : Nat) (s : EngineStep RunOnce (Ended (Option Report))) :
    (afterBatch t tick s).engine.fired = s.engine.fired := by
  unfold afterBatch
  split <;> rfl

theorem RefreshLoop.step_fired {l : RefreshLoop} {s : EngineStep RefreshLoop Unit}
    (h : l.step out t e = some s) : s.engine.fired = e.fired := by
  cases does_of_step h with
  | idle | start | listen => rfl
  | take | heed | awake => exact fired_wake _ _ _
  | run hs => exact (fired_afterBatch _ _).trans (RunOnce.step_fired hs)

theorem Engine.fired_retain (days : Nat) : (e.retain out days).2.fired = e.fired := by
  unfold retain
  split
  · rfl
  · split <;> rfl

theorem RetentionLoop.step_fired {l : RetentionLoop} {s : EngineStep RetentionLoop Unit}
    (h : l.step out t e = some s) : s.engine.fired = e.fired := by
  cases does_of_step h with
  | start | stop => rfl
  | breakDown | prune => exact Engine.fired_retain _

/-- Only the step that begins to stop the scheduler fires a token. -/
theorem Activity.step_fired {a : Activity} {s : EngineStep Activity Result}
    (h : a.step out t e = some s) :
    s.engine.fired = if a = .stop .start then .shutdown :: e.fired else e.fired := by
  cases a with
  | stop x =>
    obtain ⟨s', hs', rfl⟩ := Option.map_eq_some_iff.1 h
    cases Stop.does_of_step hs' <;> rfl
  | call c =>
    obtain ⟨s', -, rfl⟩ := Option.map_eq_some_iff.1 h
    rfl
  | metric b i m =>
    obtain ⟨k, d, s', -, -, hs', rfl⟩ | rfl := step_metric h
    · exact (Metric.step_offside hs').fired
    · rfl
  | batch r =>
    obtain ⟨s', hs', rfl⟩ := Option.map_eq_some_iff.1 h
    exact (BatchRun.step_offside hs').fired
  | catalog c =>
    obtain ⟨s', hs', rfl⟩ := Option.map_eq_some_iff.1 h
    exact (CatalogRun.step_offside hs').fired
  | runOnce r =>
    obtain ⟨s', hs', rfl⟩ := Option.map_eq_some_iff.1 h
    exact RunOnce.step_fired hs'
  | refreshLoop l =>
    obtain ⟨s', hs', rfl⟩ := Option.map_eq_some_iff.1 h
    exact RefreshLoop.step_fired hs'
  | retentionLoop l =>
    obtain ⟨s', hs', rfl⟩ := Option.map_eq_some_iff.1 h
    exact RetentionLoop.step_fired hs'

end Steps

theorem Engine.isFired_fire (e : Engine) (token token' : Token) :
    (e.fire token').isFired token = (token' == token || e.isFired token) := by
  rw [isFired, fire, List.contains_cons, isFired, BEq.comm]

/-- A token has been fired after a step if it was before, or if the step fires it. -/
theorem World.isFired_of_step {w w' : World} {t : TaskId} {out : Outside} {res : Option Result}
    (h : w.step out t = some (w', res)) (token : Token) :
    w'.engine.isFired token =
      ((Occurrence.move ⟨w, t, out, w', res⟩).fires token || w.engine.isFired token) := by
  obtain ⟨a, s, ha, hs, rfl, -⟩ := step_eq_some h
  rw [Occurrence.fires, ha, engine_after, Engine.isFired, Activity.step_fired hs]
  by_cases hstop : a = .stop .start
  · rw [if_pos hstop, hstop, List.contains_cons]
    simp [Engine.isFired]
  · rw [if_neg hstop]
    simp [Engine.isFired, hstop]

/-- **A token has been fired if something that has happened fires it.** -/
theorem Service.isFired_eq {os : List Occurrence} {w : World} (h : Service os w) (token : Token) :
    w.engine.isFired token = os.any (Occurrence.fires token) := by
  induction h with
  | idle _ hfired => simp [Engine.isFired, hfired]
  | begin _ _ ih => exact ih
  | start _ _ ih => exact ih
  | change _ _ _ hfired ih =>
    rw [← ih, Engine.isFired, hfired, Engine.isFired]
  | trigger _ ih =>
    rw [List.any_append, ← ih]
    simp [Occurrence.fires]
    rfl
  | fire token' _ ih =>
    rw [List.any_append, ← ih, Engine.isFired_fire]
    simp [Occurrence.fires, Bool.or_comm]
  | move _ hstep ih =>
    rw [List.any_append, ← ih, World.isFired_of_step hstep]
    simp [Bool.or_comm]

/-! ### Service on cue -/

/-- What happens next to the engine of a scheduler. -/
inductive Service.Cue where
  | begin (a : Activity)
  | start
  | trigger
  | fire (token : Token)
  | move (t : TaskId) (out : Outside)

/-- The service after a cue; nothing happens if it cannot be followed. -/
def Service.Cue.follow (p : List Occurrence × World) : Service.Cue → List Occurrence × World
  | begin a => if a.isEntry then (p.1, p.2.spawn [a]) else p
  | start => (p.1, p.2.startLoops (.answering none))
  | trigger => (p.1 ++ [.trigger], { p.2 with engine := p.2.engine.trigger })
  | fire token => (p.1 ++ [.fire token], { p.2 with engine := p.2.engine.fire token })
  | move t out =>
    match p.2.step out t with
    | some (w, res) => (p.1 ++ [.move ⟨p.2, t, out, w, res⟩], w)
    | none => p

/-- The service of an engine that follows some cues. -/
def Engine.serve (e : Engine) (cues : List Service.Cue) : List Occurrence × World :=
  cues.foldl Service.Cue.follow ([], ⟨e, []⟩)

theorem Service.serve {e : Engine} (hbatches : e.batches = []) (hfired : e.fired = [])
    (hnew : e.scheduler.IsNew) (cues : List Service.Cue) :
    Service (e.serve cues).1 (e.serve cues).2 := by
  have hfollow : ∀ (cues : List Service.Cue) (p : List Occurrence × World), Service p.1 p.2 →
      Service (cues.foldl Service.Cue.follow p).1 (cues.foldl Service.Cue.follow p).2 := by
    intro cues
    induction cues with
    | nil => exact fun _ hp => hp
    | cons q cues ih =>
      refine fun p hp => ih _ ?_
      cases q with
      | begin a =>
        rw [Cue.follow]
        split
        · exact hp.begin ‹_›
        · exact hp
      | start => exact hp.start _
      | trigger => exact hp.trigger
      | fire token => exact hp.fire token
      | move t out =>
        rw [Cue.follow]
        split
        · exact hp.move ‹_›
        · exact hp
  exact hfollow cues _ (.idle hbatches hfired hnew)

end MetricBoard
