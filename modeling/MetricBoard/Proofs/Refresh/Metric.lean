import MetricBoard.Proofs.Refresh.Steps
import MetricBoard.Proofs.Router.Moves
import MetricBoard.Proofs.Router.Progress

/-!
# The steps of a metric

What a step of a metric does to the engine, whether its batch is cancelled or not: to the router it
does what its call does (`Metric.step_moves`), of its batch it changes the permits, and in the end
the outcome (`Metric.step_batch`). How the metric stands before each lock, the permits of its batch
included, changes as `LockStep` says (`Metric.step_locks`); where it cannot go on it is blocked
(`Metric.blocked`), and its rank falls with each step (`Metric.step_rank`).
-/

namespace MetricBoard

/-! ## Computing -/

namespace Compute

variable {t : TaskId} {ans : Option Answer} {limitMs : Nat} {r : Router} {c : Compute}
  {s : RouterStep Compute ExecuteResult}

/-- The connection that the step retires. -/
def retires? : Compute → Option ConnectionId
  | acquiring _ _ => none
  | executing x => x.retires?

theorem step_moves (h : c.step t ans limitMs r = some s) : r.Moves c.retires? s.router := by
  cases c with
  | acquiring sql a =>
    obtain ⟨s', hs', rfl⟩ := Option.map_eq_some_iff.1 h
    exact Acquire.step_moves _ hs'
  | executing x =>
    obtain ⟨s', hs', rfl⟩ := Option.map_eq_some_iff.1 h
    exact Execute.step_moves hs'

/-- How a task stands at a stage. -/
def standing : Compute → Lock → Standing
  | acquiring _ a => a.standing
  | executing x => x.standing

theorem standing_afterAcquire (sql : String) (x : Except AcquireError ConnectionId) (l : Lock) :
    (afterAcquire limitMs sql x).standing standing l = .away := by
  cases x <;> rfl

theorem step_locks (l : Lock) (h : c.step t ans limitMs r = some s) :
    LockStep t r.connections.length l (c.standing l) (s.next.standing standing l)
      (r.semaphore? l) (s.router.semaphore? l) := by
  cases c with
  | acquiring sql a =>
    obtain ⟨s', hs', rfl⟩ := Option.map_eq_some_iff.1 h
    exact Next.lockStep_within (fun _ => rfl) (standing_afterAcquire sql · l)
      (Acquire.step_locks l hs')
  | executing x =>
    obtain ⟨s', hs', rfl⟩ := Option.map_eq_some_iff.1 h
    exact Next.lockStep_within (fun _ => rfl) (fun _ => rfl) (Execute.step_locks l hs')

theorem blocked (hans : Answered c.request? ans) (h : c.step t ans limitMs r = none) :
    Blocked t c.standing r.semaphore? := by
  cases c with
  | acquiring sql a =>
    simp only [step, Option.map_eq_none_iff] at h
    exact Acquire.blocked hans h
  | executing x =>
    simp only [step, Option.map_eq_none_iff] at h
    exact Execute.blocked hans h

/-- A bound on the steps that are left. -/
def rank : Compute → Nat
  | executing x => x.rank
  | acquiring _ a => a.rank + 23

theorem rank_afterAcquire (sql : String) (x : Except AcquireError ConnectionId) :
    (afterAcquire limitMs sql x).rank rank ≤ 23 := by
  cases x with
  | ok c => exact Execute.rank_le (.start c sql limitMs)
  | error e => exact Nat.zero_le _

theorem step_rank (h : c.step t ans limitMs r = some s) : s.rank rank < c.rank := by
  cases c with
  | acquiring sql a =>
    obtain ⟨s', hs', rfl⟩ := Option.map_eq_some_iff.1 h
    exact RouterStep.rank_within_lt (fun _ => rfl) (rank_afterAcquire sql) (Acquire.step_rank hs')
  | executing x =>
    obtain ⟨s', hs', rfl⟩ := Option.map_eq_some_iff.1 h
    change _ < x.rank + 0
    exact RouterStep.rank_within_lt (fun _ => rfl) (fun _ => Nat.le_refl _) (Execute.step_rank hs')

end Compute

/-! ## The engine -/

namespace Engine

/-- What the steps of a batch do at most to the engine, but for the batch itself and the storage. -/
structure Moves (gone : Option ConnectionId) (e e' : Engine) : Prop where
  options : e'.options = e.options
  fired : e'.fired = e.fired
  router : e.router.Moves gone e'.router

/-- The semaphore behind a lock, where the permits are those of batch `b`. -/
def semaphore? (e : Engine) (b : Nat) : Lock → Option Semaphore
  | .permit target => e.batches[b]?.map fun k => k.admission.perTarget.get target
  | .overall => e.batches[b]?.map fun k => k.admission.overall
  | .slot target => e.router.semaphore? (.slot target)
  | .turn c => e.router.semaphore? (.turn c)

variable {e : Engine} {b : Nat} {target u : Target}

theorem getElem?_onBatch (f : Batch → Batch) :
    (e.onBatch b f).batches[b]? = e.batches[b]?.map f := by
  simp [onBatch]

theorem overall_finish (i : Nat) (o : Option Outcome) :
    (e.onBatch b fun k => k.finish i o).semaphore? b .overall = e.semaphore? b .overall := by
  simp [semaphore?, getElem?_onBatch, Function.comp_def, Batch.finish]

theorem permit_finish (i : Nat) (o : Option Outcome) :
    (e.onBatch b fun k => k.finish i o).semaphore? b (.permit u) = e.semaphore? b (.permit u) := by
  simp [semaphore?, getElem?_onBatch, Function.comp_def, Batch.finish]

theorem overall_onOverall (f : Semaphore → Semaphore) :
    (e.onBatch b fun k => k.onOverall f).semaphore? b .overall =
      (e.semaphore? b .overall).map f := by
  simp [semaphore?, getElem?_onBatch, Function.comp_def, Batch.onOverall]

theorem permit_onOverall (f : Semaphore → Semaphore) :
    (e.onBatch b fun k => k.onOverall f).semaphore? b (.permit u) = e.semaphore? b (.permit u) := by
  simp [semaphore?, getElem?_onBatch, Function.comp_def, Batch.onOverall]

theorem overall_onTarget (f : Semaphore → Semaphore) :
    (e.onBatch b fun k => k.onTarget target f).semaphore? b .overall =
      e.semaphore? b .overall := by
  simp [semaphore?, getElem?_onBatch, Function.comp_def, Batch.onTarget]

theorem permit_onTarget (f : Semaphore → Semaphore) :
    (e.onBatch b fun k => k.onTarget target f).semaphore? b (.permit u) =
      if u = target then (e.semaphore? b (.permit u)).map f else e.semaphore? b (.permit u) := by
  by_cases h : u = target
  · subst h
    simp [semaphore?, getElem?_onBatch, Function.comp_def, Batch.onTarget]
  · simp [semaphore?, getElem?_onBatch, Function.comp_def, Batch.onTarget, h,
      PerTarget.get_modify_of_ne _ _ h]

theorem overall_withdraw (f g : Semaphore → Semaphore) :
    (e.onBatch b fun k => (k.onOverall f).onTarget target g).semaphore? b .overall =
      (e.semaphore? b .overall).map f := by
  simp [semaphore?, getElem?_onBatch, Function.comp_def, Batch.onOverall, Batch.onTarget]

theorem permit_withdraw (f g : Semaphore → Semaphore) :
    (e.onBatch b fun k => (k.onOverall f).onTarget target g).semaphore? b (.permit u) =
      if u = target then (e.semaphore? b (.permit u)).map g else e.semaphore? b (.permit u) := by
  by_cases h : u = target
  · subst h
    simp [semaphore?, getElem?_onBatch, Function.comp_def, Batch.onOverall, Batch.onTarget]
  · simp [semaphore?, getElem?_onBatch, Function.comp_def, Batch.onOverall, Batch.onTarget, h,
      PerTarget.get_modify_of_ne _ _ h]

end Engine

/-! ## Metrics -/

namespace Metric

variable {out : Outside} {t : TaskId} {b i : Nat} {k : Batch} {d : Definition} {e : Engine}
  {m : Metric} {s : EngineStep Metric Unit}

/-- The connection that the step retires. -/
def retires? : Metric → Option ConnectionId
  | computing _ c => c.retires?
  | _ => none

theorem step_moves (h : m.step out t b i k d e = some s) : e.Moves m.retires? s.engine := by
  cases does_of_step h with
  | compute hs => exact ⟨rfl, rfl, Compute.step_moves hs⟩
  | _ => exact ⟨rfl, rfl, .refl _ _⟩

/-- A metric asks for no tasks but those that close connections. -/
theorem step_spawns (h : m.step out t b i k d e = some s) :
    ∀ p ∈ s.spawns, ∃ c, p = .closing c := by
  cases does_of_step h with
  | compute =>
    intro p hp
    obtain ⟨c, -, rfl⟩ := List.mem_map.1 hp
    exact ⟨c, rfl⟩
  | _ => simp

theorem exists_afterCompute (startedMs : Nat) (n : Next Compute ExecuteResult) :
    ∃ m, n.within (computing startedMs) (afterCompute startedMs) = .stage m := by
  cases n with
  | stage c => exact ⟨_, rfl⟩
  | done x => cases x <;> exact ⟨_, rfl⟩

/-- What a step does to the batch: the metric ends and has its outcome, or only permits change. -/
theorem step_batch (hk : e.batches[b]? = some k) (h : m.step out t b i k d e = some s) :
    (∃ o, m = ending o ∧ s.next = .done () ∧ s.engine.batches[b]? = some (k.finish i o)) ∨
      (∃ m', s.next = .stage m') ∧
        ∃ a, s.engine.batches[b]? = some { k with admission := a } := by
  have hpermits : ∀ f : Batch → Batch, (∃ a, f k = { k with admission := a }) →
      ∃ a, (e.onBatch b f).batches[b]? = some { k with admission := a } := by
    rintro f ⟨a, ha⟩
    exact ⟨a, by rw [Engine.getElem?_onBatch, hk, Option.map_some, ha]⟩
  cases does_of_step h with
  | cancel | enterOverall | turnBack | begin | record =>
    exact .inr ⟨⟨_, rfl⟩, k.admission, hk⟩
  | ask | withdrawTarget | enterTarget | withdrawOverall | leaveTarget | leaveOverall =>
    exact .inr ⟨⟨_, rfl⟩, hpermits _ ⟨_, rfl⟩⟩
  | @compute startedMs _ s' => exact .inr ⟨exists_afterCompute startedMs s'.next, k.admission, hk⟩
  | @finish o => exact .inl ⟨o, rfl, rfl, by rw [Engine.getElem?_onBatch, hk]; rfl⟩

/-! ### Rank -/

/-- A bound on the steps that are left. -/
def rank : Metric → Nat
  | start => 38
  | queuedTarget => 37
  | queuedOverall => 36
  | admitted => 35
  | computing _ c => c.rank + 4
  | recording _ _ => 4
  | leavingTarget _ => 3
  | leavingOverall _ => 2
  | ending _ => 1

theorem rank_begin (options : RefreshOptions) (d : Definition) (ms : Nat) :
    (begin options d ms).rank ≤ 34 := by
  unfold begin
  split
  · simp [rank, Compute.rank, Acquire.rank]
  · simp [rank]

theorem rank_afterCompute (startedMs : Nat) (x : ExecuteResult) :
    (afterCompute startedMs x).rank rank ≤ 4 := by
  cases x <;> simp [afterCompute, Next.rank, rank]

/-- A metric comes nearer to its end with each step, the closes it asks for included. -/
theorem step_rank (h : m.step out t b i k d e = some s) :
    s.next.rank rank + s.spawns.length < m.rank := by
  cases does_of_step h with
  | begin =>
    have := rank_begin e.options d out.ms
    change (Metric.begin e.options d out.ms).rank + 0 < 35
    omega
  | @compute startedMs c s' hs =>
    have hlt : (s'.within (computing startedMs) (afterCompute startedMs)).rank rank < c.rank + 4 :=
      RouterStep.rank_within_lt (fun _ => rfl) (rank_afterCompute startedMs) (Compute.step_rank hs)
    change _ + (s'.closes.toList.map Spawn.closing).length < c.rank + 4
    rw [List.length_map]
    exact hlt
  | _ => simp [Next.rank, rank]

/-! ### Locks -/

/-- How a metric stands before the permits of its server. -/
def standingTarget : Metric → Standing
  | start | leavingOverall _ | ending _ => .away
  | queuedTarget => .queued
  | queuedOverall | admitted | computing _ _ | recording _ _ | leavingTarget _ => .inside

/-- How a metric stands before the permits over all servers. -/
def standingOverall : Metric → Standing
  | start | queuedTarget | ending _ => .away
  | queuedOverall => .queued
  | admitted | computing _ _ | recording _ _ | leavingTarget _ | leavingOverall _ => .inside

/-- How a metric stands before the locks of the router. -/
def standingRouter : Metric → Lock → Standing
  | computing _ c => c.standing
  | _ => fun _ => .away

/-- How a metric on a server stands before each lock. -/
def standing (target : Target) (m : Metric) : Lock → Standing
  | .permit u => if u = target then m.standingTarget else .away
  | .overall => m.standingOverall
  | .slot u => m.standingRouter (.slot u)
  | .turn c => m.standingRouter (.turn c)

theorem standingTarget_begin (options : RefreshOptions) (d : Definition) (ms : Nat) :
    (begin options d ms).standingTarget = .inside := by
  unfold begin
  split <;> rfl

theorem standingOverall_begin (options : RefreshOptions) (d : Definition) (ms : Nat) :
    (begin options d ms).standingOverall = .inside := by
  unfold begin
  split <;> rfl

theorem standingRouter_begin (options : RefreshOptions) (d : Definition) (ms : Nat) (l : Lock) :
    (begin options d ms).standingRouter l = .away := by
  unfold begin
  split <;> rfl

theorem standingRouter_afterCompute (startedMs : Nat) (x : ExecuteResult) (l : Lock) :
    (afterCompute startedMs x).standing standingRouter l = .away := by
  cases x <;> rfl

/-- A metric keeps both permits while it computes, whatever comes of it. -/
theorem standing_afterCompute (startedMs : Nat) (n : Next Compute ExecuteResult) :
    ∃ m, n.within (computing startedMs) (afterCompute startedMs) = .stage m ∧
      m.standingTarget = .inside ∧ m.standingOverall = .inside := by
  cases n with
  | stage c => exact ⟨_, rfl, rfl, rfl⟩
  | done x => cases x <;> exact ⟨_, rfl, rfl, rfl⟩

theorem step_overall (hk : e.batches[b]? = some k) (h : m.step out t b i k d e = some s) :
    LockStep t e.router.connections.length .overall (m.standing d.target .overall)
      (s.next.standing (standing d.target) .overall) (e.semaphore? b .overall)
      (s.engine.semaphore? b .overall) := by
  have hsem : e.semaphore? b .overall = some k.admission.overall := by simp [Engine.semaphore?, hk]
  cases does_of_step h with
  | cancel | turnBack | record => exact .stay _ _
  | ask | withdrawTarget | leaveTarget =>
    rw [Engine.overall_onTarget]
    exact .stay _ _
  | enterTarget =>
    rw [Engine.overall_onOverall, hsem]
    exact .ask _
  | withdrawOverall =>
    rw [Engine.overall_withdraw, hsem]
    exact .withdraw _
  | enterOverall _ hheld =>
    rw [hsem]
    exact .enter _ (Semaphore.isHeldBy_iff.1 hheld)
  | begin =>
    change LockStep _ _ _ .inside ((Metric.begin e.options d out.ms).standingOverall) _ _
    rw [standingOverall_begin]
    exact .stay _ _
  | @compute startedMs _ s' =>
    obtain ⟨m', hm', -, hin⟩ := standing_afterCompute startedMs s'.next
    simp only [Engine.afterRouter, hm', Next.standing]
    change LockStep _ _ _ .inside m'.standingOverall _ _
    rw [hin]
    exact .stay _ _
  | leaveOverall =>
    rw [Engine.overall_onOverall, hsem]
    exact .leave _
  | finish =>
    rw [Engine.overall_finish]
    exact .stay _ _

/-- A metric stands away from the permits of other servers, and a step leaves them alone. -/
theorem lockStep_at_target {n : Nat} {l : Lock} {target u : Target} {x y : Standing}
    {p p' : Option Semaphore} (h : LockStep t n l x y p p') :
    LockStep t n l (if u = target then x else .away) (if u = target then y else .away) p
      (if u = target then p' else p) := by
  split
  · exact h
  · exact .stay _ _

theorem step_permit (hk : e.batches[b]? = some k) (h : m.step out t b i k d e = some s)
    (u : Target) :
    LockStep t e.router.connections.length (.permit u) (m.standing d.target (.permit u))
      (s.next.standing (standing d.target) (.permit u)) (e.semaphore? b (.permit u))
      (s.engine.semaphore? b (.permit u)) := by
  have hsem : e.semaphore? b (.permit u) = some (k.admission.perTarget.get u) := by
    simp [Engine.semaphore?, hk]
  cases does_of_step h with
  | cancel | enterOverall | turnBack | record => exact .stay _ _
  | ask =>
    rw [Engine.permit_onTarget, hsem]
    exact lockStep_at_target (.ask _)
  | withdrawTarget =>
    rw [Engine.permit_onTarget, hsem]
    exact lockStep_at_target (.withdraw _)
  | enterTarget _ hheld =>
    rw [Engine.permit_onOverall, hsem]
    simp only [standing, Next.standing, standingTarget]
    split
    · rename_i hu
      exact .enter _ (Semaphore.isHeldBy_iff.1 (hu ▸ hheld))
    · exact .stay _ _
  | withdrawOverall =>
    rw [Engine.permit_withdraw, hsem]
    exact lockStep_at_target (.leave _)
  | begin =>
    simp only [standing, Next.standing, standingTarget_begin]
    exact .stay _ _
  | @compute startedMs _ s' =>
    obtain ⟨m', hm', hin, -⟩ := standing_afterCompute startedMs s'.next
    simp only [Engine.afterRouter, hm', Next.standing, standing, hin]
    exact .stay _ _
  | leaveTarget =>
    rw [Engine.permit_onTarget, hsem]
    exact lockStep_at_target (.leave _)
  | leaveOverall =>
    rw [Engine.permit_onOverall]
    exact .stay _ _
  | finish =>
    rw [Engine.permit_finish]
    simp only [standing, Next.standing, standingTarget, ite_self]
    exact .stay _ _

/-- A step that leaves the router alone, at a stage that has no call. -/
theorem step_router (l : Lock) (h : m.step out t b i k d e = some s) :
    LockStep t e.router.connections.length l (m.standingRouter l)
      (s.next.standing standingRouter l) (e.router.semaphore? l)
      (s.engine.router.semaphore? l) := by
  cases does_of_step h with
  | begin =>
    change LockStep _ _ _ .away ((Metric.begin e.options d out.ms).standingRouter l) _ _
    rw [standingRouter_begin]
    exact .stay _ _
  | @compute startedMs _ _ hs =>
    exact Next.lockStep_within (fun _ => rfl) (standingRouter_afterCompute startedMs · l)
      (Compute.step_locks l hs)
  | _ => exact .stay _ _

/-- What a step of a metric does to a lock. -/
theorem step_locks (hk : e.batches[b]? = some k) (h : m.step out t b i k d e = some s) (l : Lock) :
    LockStep t e.router.connections.length l (m.standing d.target l)
      (s.next.standing (standing d.target) l) (e.semaphore? b l) (s.engine.semaphore? b l) := by
  have hnext : ∀ l, (∀ m : Metric, m.standing d.target l = m.standingRouter l) →
      s.next.standing (standing d.target) l = s.next.standing standingRouter l := by
    intro l hl
    cases s.next with
    | stage m' => exact hl m'
    | done => rfl
  cases l with
  | permit u => exact step_permit hk h u
  | overall => exact step_overall hk h
  | slot u =>
    rw [hnext _ fun _ => rfl]
    exact step_router (.slot u) h
  | turn c =>
    rw [hnext _ fun _ => rfl]
    exact step_router (.turn c) h

/-- A metric that cannot go on, though what it asks is answered, waits for a lock. -/
theorem blocked (hk : e.batches[b]? = some k) (hans : Answered m.request? out.answer)
    (h : m.step out t b i k d e = none) : Blocked t (m.standing d.target) (e.semaphore? b) := by
  cases m with
  | start | admitted =>
    simp only [step] at h
    split at h <;> cases h
  | queuedTarget =>
    simp only [step] at h
    split at h
    · cases h
    · split at h
      · cases h
      · rename_i hheld
        refine ⟨.permit d.target, k.admission.perTarget.get d.target, if_pos rfl, ?_,
          mt Semaphore.isHeldBy_iff.2 hheld⟩
        simp [Engine.semaphore?, hk]
  | queuedOverall =>
    simp only [step] at h
    split at h
    · cases h
    · split at h
      · cases h
      · rename_i hheld
        refine ⟨.overall, k.admission.overall, rfl, ?_, mt Semaphore.isHeldBy_iff.2 hheld⟩
        simp [Engine.semaphore?, hk]
  | computing startedMs c =>
    simp only [step, Option.map_eq_none_iff] at h
    obtain ⟨l, s, hl, hs, ht⟩ := Compute.blocked hans h
    cases l with
    | permit u => cases hs
    | overall => cases hs
    | slot u => exact ⟨.slot u, s, hl, hs, ht⟩
    | turn c => exact ⟨.turn c, s, hl, hs, ht⟩
  | recording | leavingTarget | leavingOverall | ending => cases h

end Metric

end MetricBoard
