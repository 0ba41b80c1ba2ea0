import Mathlib.Data.Finset.Card
import Mathlib.Data.Finset.Range
import MetricBoard.Proofs.Refresh.Metric

/-!
# Runs of a batch

A job is a batch that is accepted and never cancelled, together with the engine it begins on, which
is at rest (`Job`). Its tasks, the one of the batch, which is the first, one for each metric, and
those that close connections, take steps in any order while a backend answers what they ask
(`Backend.step`). That a batch ends in some way means that it does so in whatever order the steps
are taken (`Backend.Ends`).

Once the batch has begun (`Job.begun`), a step of the world is a step of one of these tasks
(`Job.Step`), and which task is what never changes (`Job.Shape`, `Job.Shape.next`).
-/

namespace MetricBoard

namespace Next

variable {σ τ ρ ρ' : Type}

/-- The stage after a step, unless it is the end. -/
def stage? : Next σ ρ → Option σ
  | stage s => some s
  | done _ => none

/-- The result of a step that is the last. -/
def result? : Next σ ρ → Option ρ
  | stage _ => none
  | done r => some r

theorem stage?_within_done (inner : σ → τ) (f : ρ → ρ') (n : Next σ ρ) :
    (n.within inner fun r => .done (f r)).stage? = n.stage?.map inner := by
  cases n <;> rfl

theorem result?_within_done (inner : σ → τ) (f : ρ → ρ') (n : Next σ ρ) :
    (n.within inner fun r => .done (f r)).result? = n.result?.map f := by
  cases n <;> rfl

end Next

namespace World

variable {w w' : World} {out : Outside} {t u : TaskId} {res : Option Result}

/-- The world after task `t` has gone on, or ended, and others were added. -/
def after (w : World) (t : TaskId) (e : Engine) (x : Option Activity) (as : List Activity) :
    World :=
  ⟨e, w.tasks.set t x ++ as.map some⟩

theorem step_eq_some (h : w.step out t = some (w', res)) :
    ∃ a s, w.activity? t = some a ∧ a.step (w.outside out) t w.engine = some s ∧
      w' = w.after t s.engine s.next.stage? (s.spawns.map Spawn.activity) ∧
      res = s.next.result? := by
  cases ha : w.activity? t with
  | none => simp [step, ha] at h
  | some a =>
    cases hs : a.step (w.outside out) t w.engine with
    | none => simp [step, ha, hs] at h
    | some s =>
      refine ⟨a, s, rfl, hs, ?_⟩
      simp only [step, ha, hs, Option.bind_eq_bind, Option.bind_some] at h
      split at h <;> rename_i hn <;> cases h <;> rw [hn] <;> exact ⟨rfl, rfl⟩

theorem step_eq_none {a : Activity} (ha : w.activity? t = some a) (h : w.step out t = none) :
    a.step (w.outside out) t w.engine = none := by
  cases hs : a.step (w.outside out) t w.engine with
  | none => rfl
  | some s =>
    simp only [step, ha, hs, Option.bind_eq_bind, Option.bind_some] at h
    split at h <;> cases h

theorem lt_of_activity? {a : Activity} (h : w.activity? t = some a) : t < w.tasks.length := by
  rw [activity?, Option.join_eq_some_iff] at h
  exact (List.getElem?_eq_some_iff.1 h).1

@[simp] theorem engine_after (e : Engine) (x : Option Activity) (as : List Activity) :
    (w.after t e x as).engine = e := rfl

theorem length_after (e : Engine) (x : Option Activity) (as : List Activity) :
    (w.after t e x as).tasks.length = w.tasks.length + as.length := by
  simp [after]

theorem activity?_after (e : Engine) (x : Option Activity) (as : List Activity)
    (ht : t < w.tasks.length) (u : TaskId) :
    (w.after t e x as).activity? u =
      if u = t then x else if u < w.tasks.length then w.activity? u
        else as[u - w.tasks.length]? := by
  simp only [activity?, after]
  by_cases hu : u < w.tasks.length
  · rw [List.getElem?_append_left (by simpa using hu)]
    by_cases hut : u = t
    · subst hut
      simp [ht]
    · simp [hut, hu, Ne.symm hut]
  · have hut : u ≠ t := fun h => hu (h ▸ ht)
    rw [List.getElem?_append_right (by simpa using Nat.le_of_not_lt hu)]
    rw [if_neg hut, if_neg hu, List.getElem?_map, List.length_set]
    cases as[u - w.tasks.length]? <;> rfl

theorem activity?_of_le (h : w.tasks.length ≤ u) : w.activity? u = none := by
  rw [activity?, List.getElem?_eq_none h]
  rfl

theorem activity?_after_nil (e : Engine) (x : Option Activity) (ht : t < w.tasks.length)
    (u : TaskId) : (w.after t e x []).activity? u = if u = t then x else w.activity? u := by
  rw [activity?_after e x [] ht]
  split
  · rfl
  · split
    · rfl
    · rw [activity?_of_le (Nat.le_of_not_lt ‹_›)]
      rfl

theorem activity?_after_self (e : Engine) (x : Option Activity) (as : List Activity)
    (ht : t < w.tasks.length) : (w.after t e x as).activity? t = x := by
  rw [activity?_after e x as ht, if_pos rfl]

theorem activity?_after_of_lt (e : Engine) (x : Option Activity) (as : List Activity)
    (ht : t < w.tasks.length) (hu : u < w.tasks.length) (hne : u ≠ t) :
    (w.after t e x as).activity? u = w.activity? u := by
  rw [activity?_after e x as ht, if_neg hne, if_pos hu]

/-- A task has not ended after a step unless that was its last. -/
theorem activity?_ne_none_of_step (h : w.step out t = some (w', res)) (hu : w.activity? u ≠ none)
    (hres : t = u → res = none) : w'.activity? u ≠ none := by
  obtain ⟨a, s, ha, -, rfl, rfl⟩ := step_eq_some h
  have ht := lt_of_activity? ha
  by_cases hut : u = t
  · subst hut
    rw [activity?_after_self _ _ _ ht]
    cases hn : s.next with
    | stage a => exact Option.some_ne_none a
    | done x =>
      rw [hn] at hres
      cases hres rfl
  · obtain ⟨a', ha'⟩ := Option.ne_none_iff_exists'.1 hu
    rwa [activity?_after_of_lt _ _ _ ht (lt_of_activity? ha') hut]

end World

/-! ## Backends -/

namespace Backend

/-- The step of a task when what it asks is answered. -/
def step (b : Backend) (out : Outside) (t : TaskId) (w : World) : Option (World × Option Result) :=
  w.step { out with
    answer := ((w.activity? t).bind Activity.request?).map (b.answer w.engine.router) } t

/-- Whatever steps are taken from a world on, some step can be taken until the first task ends,
which it does in the end, with a result that has a property. -/
inductive Ends (b : Backend) (P : Result → Prop) : World → Prop
  | intro {w : World} :
    (∃ out t, (b.step out t w).isSome = true) →
    (∀ out w' x, b.step out 0 w = some (w', some x) → P x) →
    (∀ out t w' res, b.step out t w = some (w', res) → (t = 0 → res = none) → Ends b P w') →
    Ends b P w

theorem Ends.mono {b : Backend} {P Q : Result → Prop} {w : World} (h : b.Ends P w)
    (hpq : ∀ x, P x → Q x) : b.Ends Q w := by
  induction h with
  | intro hgo hlast _ ih => exact .intro hgo (fun out w' x h => hpq x (hlast out w' x h)) ih

/-- What the first task comes to if the tasks take steps in a given order. -/
def run (b : Backend) (out : Outside) : List TaskId → World → Option Result
  | [], _ => none
  | t :: ts, w =>
    match b.step out t w with
    | some (w', res) => if t = 0 ∧ res.isSome = true then res else b.run out ts w'
    | none => none

theorem Ends.of_run {b : Backend} {P : Result → Prop} {out : Outside} {ts : List TaskId} {w : World}
    {x : Result} (h : b.Ends P w) (hx : b.run out ts w = some x) : P x := by
  induction ts generalizing w with
  | nil => cases hx
  | cons t ts ih =>
    obtain ⟨-, hlast, hon⟩ := h
    rw [run] at hx
    split at hx
    · rename_i w' res hstep
      split at hx
      · rename_i hres
        obtain ⟨rfl, -⟩ := hres
        subst hx
        exact hlast _ _ _ hstep
      · rename_i hres
        refine ih (hon _ _ _ _ hstep fun ht => ?_) hx
        simpa [ht] using hres
    · cases hx

end Backend

/-! ## Jobs -/

/-- Nobody holds a lock of the router or waits for one, and each slot holds a connection to its own
server, if any. -/
structure Router.AtRest (r : Router) : Prop where
  coherent : r.Coherent
  slots : ∀ target, (r.slots.get target).lock = .lock
  turns : ∀ k ∈ r.connections, k.turn = none ∨ k.turn = some .lock

/-- A router that has opened no connection is at rest. -/
theorem Router.AtRest.of_new {r : Router} (hslots : r.slots = .const {})
    (hconnections : r.connections = []) : r.AtRest where
  coherent target c h := by
    rw [Router.cached, hslots] at h
    cases target <;> cases h
  slots target := by
    rw [hslots]
    cases target <;> rfl
  turns k hk := by
    rw [hconnections] at hk
    cases hk

/-- Nobody has asked for a lock of a router at rest. -/
theorem Router.AtRest.eq_lock {r : Router} (h : r.AtRest) {l : Lock} {s : Semaphore}
    (hs : r.semaphore? l = some s) : s = .lock := by
  cases l with
  | slot target =>
    rw [← h.slots target]
    exact (Option.some.inj hs).symm
  | turn c =>
    obtain ⟨k, hc, hturn⟩ := Option.bind_eq_some_iff.1 hs
    rcases h.turns k (List.mem_of_getElem? hc) with hnone | hlock
    · simp [hnone] at hturn
    · rw [hlock] at hturn
      exact (Option.some.inj hturn).symm
  | permit | overall => cases hs

/-- A batch that is accepted and not cancelled, and the engine that it begins on. -/
structure Job where
  engine : Engine
  definitions : List Definition
  token : Token
  admission : Admission
  atRest : engine.router.AtRest
  accepted : Batch.validate definitions = .ok ()
  unfired : engine.isFired token = false
  admitted : Admission.ofOptions? engine.options = some admission

namespace Job

/-- The world before the first step. -/
def world (j : Job) : World := ⟨j.engine, [some (.batch (.start j.definitions j.token))]⟩

/-- The place of the batch among those of the engine. -/
def index (j : Job) : Nat := j.engine.batches.length

/-- What the task of a number is once the batch has begun. -/
def Place (j : Job) (t : TaskId) : Activity → Prop
  | .batch (.joining b) => t = 0 ∧ b = j.index
  | .batch (.reporting _) => t = 0
  | .metric b i _ => b = j.index ∧ t = i + 1 ∧ i < j.definitions.length
  | .call (.closing _) => j.definitions.length < t
  | _ => False

/-- The metrics that have not ended. -/
def alive (j : Job) (w : World) : Finset Nat :=
  {i ∈ Finset.range j.definitions.length | (w.activity? (i + 1)).isSome}

/-- What holds of every world of a job once the batch has begun, whatever is answered. -/
structure Shape (j : Job) (w : World) : Prop where
  options : w.engine.options = j.engine.options
  fired : w.engine.fired = j.engine.fired
  parameters? : w.engine.router.parameters? = j.engine.router.parameters?
  place : ∀ t a, w.activity? t = some a → j.Place t a
  length : j.definitions.length < w.tasks.length
  batch : ∃ k, w.engine.batches[j.index]? = some k ∧ k.definitions = j.definitions ∧
    k.token = j.token ∧ k.outcomes.length = j.definitions.length ∧
    k.unfinished = (j.alive w).card

variable {j : Job} {backend : Backend} {w w' : World} {out : Outside} {t : TaskId}
  {res : Option Result}

/-- A step of the world once the batch has begun. -/
inductive Step (j : Job) (backend : Backend) (w : World) : TaskId → World → Option Result → Prop
  | metric {i : Nat} {m : Metric} {d : Definition} {k : Batch} {out : Outside}
      {s : EngineStep Metric Unit} :
    w.activity? (i + 1) = some (.metric j.index i m) → j.definitions[i]? = some d →
    w.engine.batches[j.index]? = some k →
    out.answer = m.request?.map (backend.answer w.engine.router) →
    m.step out (i + 1) j.index i k d w.engine = some s →
    Step j backend w (i + 1)
      (w.after (i + 1) s.engine (s.next.stage?.map (.metric j.index i))
        (s.spawns.map Spawn.activity)) (s.next.result?.map fun _ => .finished)
  | closing {t : TaskId} {c : ConnectionId} :
    w.activity? t = some (.call (.closing c)) →
    Step j backend w t (w.after t w.engine none []) (some (.called .finished))
  | joining {k : Batch} {id : String} {now : Moment} :
    w.activity? 0 = some (.batch (.joining j.index)) → w.engine.batches[j.index]? = some k →
    k.unfinished = 0 →
    Step j backend w 0 (w.after 0 w.engine (some (.batch (.reporting (k.report id now)))) []) none
  | reporting {r : Report} {storage : Storage} :
    w.activity? 0 = some (.batch (.reporting r)) →
    Step j backend w 0 (w.after 0 { w.engine with storage := storage } none [])
      (some (.reported (.value (some r))))

theorem Shape.step (hs : j.Shape w) (h : backend.step out t w = some (w', res)) :
    j.Step backend w t w' res := by
  obtain ⟨a, s, ha, hstep, rfl, rfl⟩ := World.step_eq_some h
  have hplace := hs.place t a ha
  obtain ⟨k, hk, hds, -⟩ := hs.batch
  cases a with
  | batch r =>
    cases r with
    | start ds token => cases hplace
    | joining b =>
      obtain ⟨rfl, rfl⟩ := hplace
      simp only [Activity.step, BatchRun.step, hk, Option.map_eq_some_iff] at hstep
      obtain ⟨s', hs', rfl⟩ := hstep
      split at hs' <;> cases hs'
      simpa [EngineStep.within, Next.within, Next.stage?, Next.result?] using
        Step.joining ha hk ‹_›
    | reporting r =>
      obtain rfl := hplace
      simp only [Activity.step, BatchRun.step, Option.map_eq_some_iff] at hstep
      obtain ⟨s', hs', rfl⟩ := hstep
      cases hs'
      simpa [EngineStep.within, Next.within, Next.stage?, Next.result?, Activity.reported] using
        Step.reporting ha
  | metric b i m =>
    obtain ⟨rfl, rfl, hi⟩ := hplace
    have hd : j.definitions[i]? = some j.definitions[i] := List.getElem?_eq_getElem hi
    simp only [Activity.step, hk, hds, hd, Option.map_eq_some_iff] at hstep
    obtain ⟨s', hs', rfl⟩ := hstep
    have hanswer : (((w.activity? (i + 1)).bind Activity.request?).map
        (backend.answer w.engine.router)) = m.request?.map (backend.answer w.engine.router) := by
      rw [ha]
      rfl
    rw [EngineStep.within, Next.stage?_within_done, Next.result?_within_done]
    exact Step.metric ha hd hk hanswer hs'
  | call c =>
    cases c with
    | closing c =>
      simp only [Activity.step, Call.step, Option.map_eq_some_iff] at hstep
      obtain ⟨s', hs', rfl⟩ := hstep
      split at hs' <;> cases hs'
      simpa [Engine.afterRouter, Next.within, Next.stage?, Next.result?] using Step.closing ha
    | _ => cases hplace
  | _ => cases hplace

/-! ### The shape of a world -/

theorem mem_alive {i : Nat} :
    i ∈ j.alive w ↔ i < j.definitions.length ∧ (w.activity? (i + 1)).isSome = true := by
  simp [alive]

/-- Each task is in its place after one has gone on and others were added. -/
theorem Shape.place_after (hs : j.Shape w) (e : Engine) {x : Option Activity} {as : List Activity}
    (ht : t < w.tasks.length) (hx : ∀ a, x = some a → j.Place t a)
    (has : ∀ a ∈ as, ∃ c, a = .call (.closing c)) (u : TaskId) (a : Activity)
    (h : (w.after t e x as).activity? u = some a) : j.Place u a := by
  rw [World.activity?_after e x as ht] at h
  split at h
  · rename_i hu
    exact hu ▸ hx a h
  · split at h
    · exact hs.place u a h
    · rename_i hu
      obtain ⟨c, rfl⟩ := has a (List.mem_of_getElem? h)
      exact Nat.lt_of_lt_of_le hs.length (Nat.le_of_not_lt hu)

/-- The metrics that are left are the same unless the task was one and has ended. -/
theorem Shape.alive_after (hs : j.Shape w) (e : Engine) {x : Option Activity} (as : List Activity)
    {a : Activity} (ha : w.activity? t = some a)
    (hx : x ≠ none ∨ t = 0 ∨ j.definitions.length < t) :
    j.alive (w.after t e x as) = j.alive w := by
  have ht := World.lt_of_activity? ha
  ext i
  rw [mem_alive, mem_alive]
  refine and_congr_right fun hi => ?_
  by_cases hit : i + 1 = t
  · subst hit
    have hplace : ¬(i + 1 = 0 ∨ j.definitions.length < i + 1) :=
      fun h => h.elim (Nat.succ_ne_zero i) (Nat.not_lt.2 hi)
    obtain ⟨y, rfl⟩ : ∃ y, x = some y := Option.ne_none_iff_exists'.1 (hx.resolve_right hplace)
    rw [World.activity?_after_self e _ as ht, ha]
    rfl
  · rw [World.activity?_after_of_lt e x as ht (Nat.lt_of_le_of_lt hi hs.length) hit]

/-- The metrics that are left after one has ended. -/
theorem Shape.alive_after_none (hs : j.Shape w) (e : Engine) (as : List Activity) {i : Nat}
    (ht : i + 1 < w.tasks.length) :
    j.alive (w.after (i + 1) e none as) = (j.alive w).erase i := by
  ext k
  rw [Finset.mem_erase, mem_alive, mem_alive]
  by_cases hki : k = i
  · subst hki
    simp [World.activity?_after_self e none as ht]
  · simp only [hki, ne_eq, not_false_eq_true, true_and]
    refine and_congr_right fun hk => ?_
    rw [World.activity?_after_of_lt e none as ht (Nat.lt_of_le_of_lt hk hs.length)
      (mt Nat.succ.inj hki)]

/-- The shape stays where a step leaves the engine alone, but for the storage, and ends no
metric. -/
theorem Shape.after (hs : j.Shape w) {a : Activity} (ha : w.activity? t = some a)
    {x : Option Activity} (ht : t = 0 ∨ j.definitions.length < t)
    (hx : ∀ a, x = some a → j.Place t a) (storage : Storage) :
    j.Shape (w.after t { w.engine with storage := storage } x []) where
  options := hs.options
  fired := hs.fired
  parameters? := hs.parameters?
  place := hs.place_after _ (World.lt_of_activity? ha) hx (by simp)
  length := by simpa [World.length_after] using hs.length
  batch := by
    obtain ⟨k, hk, hds, htoken, houtcomes, hunfinished⟩ := hs.batch
    exact ⟨k, hk, hds, htoken, houtcomes,
      hunfinished.trans (congrArg _ (hs.alive_after _ [] ha (.inr ht)).symm)⟩

theorem Shape.next (hs : j.Shape w) (h : j.Step backend w t w' res) : j.Shape w' := by
  cases h with
  | @metric i m d k out s ha hd hk ho hm =>
    obtain ⟨k₀, hk₀, hds, htoken, houtcomes, hunfinished⟩ := hs.batch
    obtain rfl : k₀ = k := Option.some.inj (hk₀.symm.trans hk)
    have hmoves := Metric.step_moves hm
    have ht := World.lt_of_activity? ha
    obtain ⟨-, -, hi⟩ := hs.place _ _ ha
    refine ⟨hmoves.options.trans hs.options, hmoves.fired.trans hs.fired,
      hmoves.router.parameters?.trans hs.parameters?, hs.place_after _ ht ?_ ?_, ?_, ?_⟩
    · intro a hx
      obtain ⟨m', -, rfl⟩ := Option.map_eq_some_iff.1 hx
      exact ⟨rfl, rfl, hi⟩
    · intro a hx
      obtain ⟨p, hp, rfl⟩ := List.mem_map.1 hx
      obtain ⟨c, rfl⟩ := Metric.step_spawns hm p hp
      exact ⟨c, rfl⟩
    · rw [World.length_after]
      exact Nat.lt_add_right _ hs.length
    · rcases Metric.step_batch hk hm with ⟨o, -, hnext, hk'⟩ | ⟨⟨m', hnext⟩, a, hk'⟩
      · refine ⟨_, hk', hds, htoken, by simpa [Batch.finish] using houtcomes, ?_⟩
        have hmem : i ∈ j.alive w := mem_alive.2 ⟨hi, by rw [ha]; rfl⟩
        rw [hnext]
        simp only [Next.stage?, Option.map_none, hs.alive_after_none _ _ ht,
          Finset.card_erase_of_mem hmem, Batch.finish, hunfinished]
      · refine ⟨_, hk', hds, htoken, houtcomes, ?_⟩
        rw [hs.alive_after _ _ ha (.inl (by simp [hnext, Next.stage?]))]
        exact hunfinished
  | closing ha => exact hs.after ha (.inr (hs.place _ _ ha)) (by simp) w.engine.storage
  | joining ha hk hu =>
    refine hs.after ha (.inl rfl) (fun a hx => ?_) w.engine.storage
    cases hx
    rfl
  | reporting ha => exact hs.after ha (.inl rfl) (by simp) _

/-! ### The beginning -/

/-- The world after the first step, which is taken at some moment. -/
def begun (j : Job) (now : Moment) : World :=
  j.world.after 0
    { j.engine with
      batches := j.engine.batches ++ [.start j.definitions j.token now j.admission] }
    (some (.batch (.joining j.index)))
    ((List.range j.definitions.length).map fun i => .metric j.index i .start)

theorem step_world : backend.step out 0 j.world = some (j.begun out.now, none) := by
  have hact : j.world.activity? 0 = some (.batch (.start j.definitions j.token)) := rfl
  have hstep : ∀ o, (BatchRun.start j.definitions j.token).step o j.engine =
      some ⟨(j.begun o.now).engine, .stage (.joining j.index),
        (List.range j.definitions.length).map (Spawn.metric j.index)⟩ := fun o => by
    simp [BatchRun.step, j.accepted, j.admitted, begun, index]
  have hengine : j.world.engine = j.engine := rfl
  simp only [Backend.step, World.step, hact, Activity.step, hengine, hstep, Option.map_some,
    Option.bind_eq_bind, Option.bind_some, EngineStep.within, Next.within]
  simp [begun, World.after, World.outside, Function.comp_def, Spawn.activity]

/-- The first step of a job begins the batch. -/
theorem eq_begun_of_step (h : backend.step out t j.world = some (w', res)) :
    w' = j.begun out.now := by
  obtain ⟨a, -, ha, -⟩ := World.step_eq_some h
  obtain rfl : t = 0 := Nat.lt_one_iff.1 (World.lt_of_activity? ha)
  rw [step_world] at h
  cases h
  rfl

theorem activity?_begun (now : Moment) (t : TaskId) :
    (j.begun now).activity? t = if t = 0 then some (.batch (.joining j.index)) else
      if t ≤ j.definitions.length then some (.metric j.index (t - 1) .start) else none := by
  rw [begun, World.activity?_after _ _ _ Nat.one_pos]
  rcases t with - | t
  · rfl
  · by_cases ht : t < j.definitions.length
    · simp [world, ht, Nat.succ_le_of_lt ht]
    · simp [world, ht, Nat.lt_succ_of_le (Nat.le_of_not_lt ht)]

theorem shape_begun (now : Moment) : j.Shape (j.begun now) where
  options := rfl
  fired := rfl
  parameters? := rfl
  place t a h := by
    rw [activity?_begun] at h
    split at h
    · rename_i ht
      cases h
      exact ⟨ht, rfl⟩
    · split at h <;> cases h
      rename_i hne hle
      exact ⟨rfl, (Nat.succ_pred_eq_of_ne_zero hne).symm, Nat.lt_of_lt_of_le (Nat.pred_lt hne) hle⟩
  length := by simp [begun, World.length_after, world]
  batch := by
    refine ⟨.start j.definitions j.token now j.admission, by simp [begun, index], rfl, rfl,
      by simp [Batch.start], ?_⟩
    have halive : j.alive (j.begun now) = Finset.range j.definitions.length := by
      ext i
      rw [mem_alive, activity?_begun, Finset.mem_range, if_neg (Nat.succ_ne_zero i)]
      refine ⟨And.left, fun hi => ⟨hi, ?_⟩⟩
      rw [if_pos (Nat.succ_le_of_lt hi)]
      rfl
    rw [halive, Finset.card_range]
    rfl

end Job

end MetricBoard
