import MetricBoard.Proofs.Refresh.Run
import MetricBoard.Proofs.Router.Grip

/-!
# Traffic on a router

The traffic on a router is what any number of tasks do with it, from the moment that it is made
(`Traffic`): calls are made at any time, on connections that were handed out, and the tasks take
their steps in any order, with any answers of the servers. The steps taken so far are kept
(`Move`), so that what has happened can be spoken of.

All through the traffic the world is in order (`World.Orderly`, `Traffic.orderly`): locks are in
the hands of the tasks that are inside, a slot that a task knows to be empty is empty, and every
connection that is not retired is in its slot or in the hands of a task that is about to retire it.
-/

namespace MetricBoard

/-- A step that a task has taken. -/
structure Move where
  before : World
  task : TaskId
  outside : Outside
  after : World
  result : Option Result

/-- The traffic of calls of some kind: the steps taken so far, and what they have led to. -/
inductive Traffic (made : Call → Prop) : List Move → World → Prop
  /-- A router that has opened no connection, and no task. -/
  | quiet {e : Engine} : e.router.slots = .const {} → e.router.connections = [] →
    Traffic made [] ⟨e, []⟩
  | call {xs : List Move} {w : World} {c : Call} : Traffic made xs w → made c →
    c.Begins w.engine.router → Traffic made xs (w.spawn [.call c])
  /-- The servers are configured anew. -/
  | configure {xs : List Move} {w : World} (servers : PerTarget (Option ServerConfig)) :
    Traffic made xs w → Traffic made xs { w with engine.router.servers := servers }
  | move {xs : List Move} {w w' : World} {t : TaskId} {out : Outside} {res : Option Result} :
    Traffic made xs w → w.step out t = some (w', res) →
    Traffic made (xs ++ [⟨w, t, out, w', res⟩]) w'

/-- The tasks of a world take steps, and nobody makes a call. -/
inductive Course (w : World) : List Move → World → Prop
  | refl : Course w [] w
  | move {xs : List Move} {w' w'' : World} {t : TaskId} {out : Outside} {res : Option Result} :
    Course w xs w' → w'.step out t = some (w'', res) →
    Course w (xs ++ [⟨w', t, out, w'', res⟩]) w''

theorem Traffic.course {made : Call → Prop} {xs ys : List Move} {w w' : World}
    (h : Traffic made xs w) (hc : Course w ys w') : Traffic made (xs ++ ys) w' := by
  induction hc with
  | refl => rwa [List.append_nil]
  | move _ hstep ih =>
    rw [← List.append_assoc]
    exact ih.move hstep

theorem Traffic.mono {made made' : Call → Prop} {xs : List Move} {w : World} (h : Traffic made xs w)
    (hmade : ∀ c, made c → made' c) : Traffic made' xs w := by
  induction h with
  | quiet hslots hconnections => exact .quiet hslots hconnections
  | call _ hc hbegins ih => exact ih.call (hmade _ hc) hbegins
  | configure servers _ ih => exact ih.configure servers
  | move _ hstep ih => exact ih.move hstep

namespace World

/-- The call that a task is at. -/
def call? (w : World) (t : TaskId) : Option Call :=
  match w.activity? t with
  | some (.call c) => some c
  | _ => none

/-- What a task has asked of a server and is waiting for. -/
def request? (w : World) (t : TaskId) : Option Request := (w.activity? t).bind Activity.request?

/-- How a task stands before a lock of the router. -/
def standing (w : World) (l : Lock) (t : TaskId) : Standing :=
  (w.call? t).elim .away fun c => c.current.standing l

/-- What a task has in hand. -/
def grip (w : World) (t : TaskId) : Grip := (w.call? t).elim {} fun c => c.current.grip

/-- The world after a step of a call. -/
def afterCall (w : World) (t : TaskId) (s : RouterStep Call CallResult) : World :=
  w.after t { w.engine with router := s.router } (s.next.stage?.map .call)
    (s.closes.toList.map fun c => .call (.closing c))

/-- What holds all through the traffic on a router. -/
structure Orderly (w : World) : Prop where
  calls : ∀ t a, w.activity? t = some a → ∃ c, a = .call c
  refers : ∀ t c, w.call? t = some c → c.current.Refers w.engine.router
  coherent : w.engine.router.Coherent
  locks : ∀ l, LockOk 1 (w.standing l) (w.engine.router.semaphore? l)
  vacant : ∀ t target, (w.grip t).vacant = some target → w.engine.router.cached target = none
  doomed : ∀ c target, w.engine.router.target? c = some target →
    w.engine.router.isRetired c = false →
      w.engine.router.cached target = some c ∨ ∃ t, (w.grip t).doomed = some c
  turns : ∀ c target, w.engine.router.target? c = some target →
    w.engine.router.serialized.get target = true →
      (w.engine.router.semaphore? (.turn c)).isSome = true

end World

namespace Move

/-- The elementary call that a step belongs to. -/
def call? (x : Move) : Option Call := (x.before.call? x.task).map Call.current

/-- What the elementary call comes to with the step, if it is its last. -/
def result? (x : Move) : Option CallResult :=
  x.call?.bind fun k =>
    (k.step x.task x.outside.answer x.before.engine.router).bind fun s => s.next.result?

end Move

namespace World

variable {w w' : World} {t u : TaskId} {c : Call} {s : RouterStep Call CallResult} {l : Lock}
  {ans : Option Answer}

theorem call?_eq_some : w.call? t = some c ↔ w.activity? t = some (.call c) := by
  unfold call?
  split
  · rename_i c' h
    simp [h]
  · rename_i h
    simp only [reduceCtorEq, false_iff]
    exact fun hc => h c hc

theorem lt_of_call? (h : w.call? t = some c) : t < w.tasks.length :=
  lt_of_activity? (call?_eq_some.1 h)

theorem call?_length : w.call? w.tasks.length = none := by
  rw [call?, activity?_of_le (Nat.le_refl _)]

theorem standing_of_call? (h : w.call? t = some c) : w.standing l t = c.current.standing l := by
  rw [standing, h, Option.elim_some]

theorem grip_of_call? (h : w.call? t = some c) : w.grip t = c.current.grip := by
  rw [grip, h, Option.elim_some]

/-! ## Worlds of calls -/

/-- What a task waits for is what its elementary call asks for. -/
theorem Orderly.request?_eq (hw : w.Orderly) (t : TaskId) :
    w.request? t = (w.call? t).bind fun c => c.current.request? := by
  cases ha : w.activity? t with
  | none => simp [request?, call?, ha]
  | some a =>
    obtain ⟨c, rfl⟩ := hw.calls t a ha
    simp [request?, call?, ha, Activity.request?, Call.request?_current]

/-- A step of the world is a step of a call. -/
theorem Orderly.step {out : Outside} {res : Option Result} (hw : w.Orderly)
    (h : w.step out t = some (w', res)) :
    ∃ c s, w.call? t = some c ∧ c.step t out.answer w.engine.router = some s ∧
      w' = w.afterCall t s ∧ res = s.next.result?.map .called := by
  obtain ⟨a, s, ha, hs, rfl, rfl⟩ := World.step_eq_some h
  obtain ⟨c, rfl⟩ := hw.calls t a ha
  obtain ⟨s', hs', rfl⟩ := Option.map_eq_some_iff.1 hs
  refine ⟨c, s', call?_eq_some.2 ha, hs', ?_, ?_⟩
  · simp only [afterCall, Engine.afterRouter, Next.stage?_within_done, List.map_map]
    rfl
  · simp only [Engine.afterRouter, Next.result?_within_done]

section After

variable (ht : t < w.tasks.length)
include ht

theorem call?_afterCall_self : (w.afterCall t s).call? t = s.next.stage? := by
  rw [call?, afterCall, activity?_after_self _ _ _ ht]
  cases s.next.stage? <;> rfl

/-- Another task is where it was, or it has been started to close a connection. -/
theorem call?_afterCall_of_ne (hu : u ≠ t) :
    (w.afterCall t s).call? u = w.call? u ∨
      ∃ d, s.closes = some d ∧ (w.afterCall t s).call? u = some (.closing d) ∧
        w.call? u = none := by
  rw [call?, call?, afterCall, activity?_after _ _ _ ht, if_neg hu]
  by_cases hlt : u < w.tasks.length
  · rw [if_pos hlt]
    exact .inl rfl
  · rw [if_neg hlt, activity?_of_le (Nat.le_of_not_lt hlt)]
    cases hcloses : s.closes with
    | none => exact .inl rfl
    | some d =>
      cases hi : u - w.tasks.length with
      | zero => exact .inr ⟨d, rfl, rfl, rfl⟩
      | succ i => exact .inl rfl

theorem standing_afterCall_of_ne (hu : u ≠ t) :
    (w.afterCall t s).standing l u = w.standing l u := by
  rcases call?_afterCall_of_ne ht hu with h | ⟨d, -, h, hnone⟩
  · rw [standing, standing, h]
  · rw [standing, standing, h, hnone]
    rfl

theorem standing_afterCall_self :
    (w.afterCall t s).standing l t = s.next.view (fun c => c.current.standing l) .away := by
  rw [standing, call?_afterCall_self ht]
  cases s.next <;> rfl

theorem grip_afterCall_self :
    (w.afterCall t s).grip t = s.next.view (fun c => c.current.grip) {} := by
  rw [grip, call?_afterCall_self ht]
  cases s.next <;> rfl

/-- Another task has in hand what it had, or a connection that it is started to close. -/
theorem grip_afterCall_of_ne (hu : u ≠ t) :
    (w.afterCall t s).grip u = w.grip u ∨
      ∃ d, s.closes = some d ∧ (w.afterCall t s).grip u = { taken := some d } ∧ w.grip u = {} := by
  rcases call?_afterCall_of_ne ht hu with h | ⟨d, hd, h, hnone⟩
  · exact .inl (by rw [grip, grip, h])
  · refine .inr ⟨d, hd, ?_, ?_⟩
    · rw [grip, h]
      rfl
    · rw [grip, hnone]
      rfl

theorem vacant_afterCall_of_ne (hu : u ≠ t) :
    ((w.afterCall t s).grip u).vacant = (w.grip u).vacant := by
  rcases grip_afterCall_of_ne ht hu with h | ⟨d, -, h, hnone⟩
  · rw [h]
  · rw [h, hnone]

theorem doomed_afterCall_of_ne (hu : u ≠ t) :
    ((w.afterCall t s).grip u).doomed = (w.grip u).doomed := by
  rcases grip_afterCall_of_ne ht hu with h | ⟨d, -, h, hnone⟩
  · rw [h]
  · rw [h, hnone]

end After

section Spawn

theorem activity?_spawn (a : Activity) :
    (w.spawn [a]).activity? u = if u = w.tasks.length then some a else w.activity? u := by
  simp only [activity?, World.spawn, List.map_cons, List.map_nil]
  rcases Nat.lt_trichotomy u w.tasks.length with h | rfl | h
  · rw [List.getElem?_append_left h, if_neg (Nat.ne_of_lt h)]
  · rw [List.getElem?_concat_length, if_pos rfl]
    rfl
  · rw [List.getElem?_eq_none (by simpa using Nat.succ_le_of_lt h),
      List.getElem?_eq_none (Nat.le_of_lt h), if_neg (Nat.ne_of_gt h)]

theorem call?_spawn :
    (w.spawn [.call c]).call? u = if u = w.tasks.length then some c else w.call? u := by
  rw [call?, activity?_spawn]
  by_cases hu : u = w.tasks.length
  · rw [if_pos hu, if_pos hu]
  · rw [if_neg hu, if_neg hu, call?]

/-- A task that has not begun its call is away from all locks. -/
theorem standing_spawn (hc : c.Begins w.engine.router) :
    (w.spawn [.call c]).standing l = w.standing l := by
  funext u
  rw [standing, standing, call?_spawn]
  split
  · rename_i hu
    rw [hu, call?_length, Option.elim_some, hc.starts.standing]
    rfl
  · rfl

/-- A task that has not begun its call has nothing in hand. -/
theorem grip_spawn (hc : c.Begins w.engine.router) : (w.spawn [.call c]).grip u = w.grip u := by
  rw [grip, grip, call?_spawn]
  split
  · rename_i hu
    rw [hu, call?_length, Option.elim_some, hc.starts.grip]
    rfl
  · rfl

end Spawn

/-! ## Mutual exclusion -/

namespace Orderly

/-- Of the tasks that have a lock, or have asked for it and have it by now, there is only one. -/
theorem eq_of_holds (hw : w.Orderly) {σ : Semaphore} (hs : w.engine.router.semaphore? l = some σ)
    (ht : w.standing l t = .inside ∨ t ∈ σ.holders)
    (hu : w.standing l u = .inside ∨ u ∈ σ.holders) : t = u := by
  obtain ⟨htracks, hinside, hlimit⟩ := hw.locks l σ hs
  have ht' : t ∈ σ.holders := ht.elim (hinside t) id
  have hu' : u ∈ σ.holders := hu.elim (hinside u) id
  refine Decidable.byContradiction fun hne => ?_
  have := htracks.two_le_limit ht' hu' hne
  omega

/-- Two tasks that are both inside a slot are one. -/
theorem eq_of_inside (hw : w.Orderly) {target : Target}
    (ht : w.standing (.slot target) t = .inside) (hu : w.standing (.slot target) u = .inside) :
    t = u :=
  hw.eq_of_holds rfl (.inl ht) (.inl hu)

/-- A slot that a task knows to be empty is locked by it. -/
theorem inside_of_vacant {target : Target} (h : (w.grip t).vacant = some target) :
    w.standing (.slot target) t = .inside := by
  cases hc : w.call? t with
  | none => simp [grip, hc] at h
  | some c =>
    rw [grip_of_call? hc] at h
    rw [standing_of_call? hc]
    exact Call.standing_of_vacant h

/-! ## Order is kept -/

/-- Nobody has asked for a turn on a connection that is yet to be opened. -/
theorem standing_turn_length (hw : w.Orderly) (u : TaskId) :
    w.standing (.turn w.engine.router.connections.length) u = .away := by
  refine Decidable.byContradiction fun hne => ?_
  cases hu : w.call? u with
  | none => simp [standing, hu] at hne
  | some c' =>
    rw [standing_of_call? hu] at hne
    obtain ⟨target, htarget⟩ := Call.target?_of_standing hne (hw.refers u c' hu)
    exact Nat.lt_irrefl _ (Router.target?_lt htarget)

section Step

variable (hw : w.Orderly) (hc : w.call? t = some c)
  (hs : c.step t ans w.engine.router = some s)
include hw hc hs

theorem moves_of_step : w.engine.router.Moves c.current.retires? s.router :=
  Call.moves_of_step hs (hw.refers t c hc) hw.coherent

theorem gripStep_of_step :
    GripStep w.engine.router s.router (w.grip t) ((w.afterCall t s).grip t) s.closes c.closes? := by
  rw [grip_of_call? hc, grip_afterCall_self (lt_of_call? hc)]
  exact Call.grip_of_step hs (hw.refers t c hc) hw.coherent

theorem lockStep_of_step (l : Lock) :
    LockStep t w.engine.router.connections.length l (w.standing l t)
      ((w.afterCall t s).standing l t) (w.engine.router.semaphore? l) (s.router.semaphore? l) := by
  rw [standing_of_call? hc, standing_afterCall_self (lt_of_call? hc)]
  exact Call.locks_of_step l hs (hw.refers t c hc) hw.coherent

/-- A connection that is there after a step was there before, or it is the one opened. -/
theorem target?_of_step {d : ConnectionId} {target : Target}
    (hd : s.router.target? d = some target) :
    w.engine.router.target? d = some target ∨
      d = w.engine.router.connections.length ∧ s.router = w.engine.router.opened target := by
  have hgrip := hw.gripStep_of_step hc hs
  have hlt := Router.target?_lt hd
  by_cases hold : d < w.engine.router.connections.length
  · have hk := List.getElem?_eq_getElem hold
    have hbefore : w.engine.router.target? d = some w.engine.router.connections[d].target := by
      rw [Router.target?, hk, Option.map_some]
    rw [(hw.moves_of_step hc hs).target _ _ hbefore] at hd
    exact .inl (hbefore.trans hd)
  · rcases hgrip.opened_or_length with ⟨u, hr⟩ | hlength
    · rw [hr, Router.length_opened] at hlt
      obtain rfl : d = w.engine.router.connections.length :=
        Nat.le_antisymm (Nat.le_of_lt_succ hlt) (Nat.le_of_not_lt hold)
      rw [hr, Router.target?_opened_self] at hd
      cases hd
      exact .inr ⟨rfl, hr⟩
    · exact absurd (hlength ▸ hlt) hold

theorem refers_afterCall {u : TaskId} {c' : Call} (h : (w.afterCall t s).call? u = some c') :
    c'.current.Refers s.router := by
  have ht := lt_of_call? hc
  by_cases hu : u = t
  · subst hu
    rw [call?_afterCall_self ht] at h
    cases hn : s.next with
    | stage c'' =>
      rw [hn] at h
      cases h
      exact Call.refers_of_step hs (hw.refers u c hc) hw.coherent hn
    | done x =>
      rw [hn] at h
      cases h
  · rcases call?_afterCall_of_ne ht hu with heq | ⟨d, -, heq, -⟩
    · exact (hw.refers u c' (heq.symm.trans h)).mono (hw.moves_of_step hc hs).extends
    · cases heq.symm.trans h
      trivial

theorem locks_afterCall (l : Lock) :
    LockOk 1 ((w.afterCall t s).standing l) (s.router.semaphore? l) := by
  refine (hw.lockStep_of_step hc hs l).lockOk (f := w.standing l)
    (g := (w.afterCall t s).standing l) (fun u hu => ?_) (fun hl => ?_) (hw.locks l)
  · exact standing_afterCall_of_ne (lt_of_call? hc) hu
  · exact ⟨rfl, fun u => hl ▸ hw.standing_turn_length u⟩

theorem vacant_afterCall {u : TaskId} {target : Target}
    (hv : ((w.afterCall t s).grip u).vacant = some target) : s.router.cached target = none := by
  have hgrip := hw.gripStep_of_step hc hs
  by_cases hu : u = t
  · subst hu
    exact hgrip.cached_of_vacant (hw.vacant u) hv
  · rw [vacant_afterCall_of_ne (lt_of_call? hc) hu] at hv
    refine (hgrip.cached_eq_none (hw.vacant u target hv)).resolve_right fun hboth => hu ?_
    exact hw.eq_of_inside (inside_of_vacant hv) (inside_of_vacant hboth.1)

theorem doomed_afterCall {d : ConnectionId} {target : Target}
    (hd : s.router.target? d = some target) (hret : s.router.isRetired d = false) :
    s.router.cached target = some d ∨ ∃ u, ((w.afterCall t s).grip u).doomed = some d := by
  rcases hw.target?_of_step hc hs hd with hbefore | ⟨rfl, hr⟩
  · have hfresh : w.engine.router.isRetired d = false := by
      cases h : w.engine.router.isRetired d with
      | false => rfl
      | true => exact absurd ((hw.moves_of_step hc hs).retired _ _ hbefore h) (by simp [hret])
    have hstep : _ → s.router.cached target = some d ∨ _ := fun h =>
      (hw.gripStep_of_step hc hs).cached_or_doomed (hw.vacant t) h hret
    rcases hw.doomed d target hbefore hfresh with hcached | ⟨u, hu⟩
    · exact (hstep (.inl hcached)).imp_right fun h => ⟨t, h⟩
    · by_cases hut : u = t
      · exact (hstep (.inr (hut ▸ hu))).imp_right fun h => ⟨t, h⟩
      · exact .inr ⟨u, (doomed_afterCall_of_ne (lt_of_call? hc) hut).trans hu⟩
  · exact .inl (by rw [hr, Router.opened, Router.cached_setCached, if_pos rfl])

theorem turns_afterCall {d : ConnectionId} {target : Target}
    (hd : s.router.target? d = some target) (hser : s.router.serialized.get target = true) :
    (s.router.semaphore? (.turn d)).isSome = true := by
  rw [(hw.gripStep_of_step hc hs).serialized_eq] at hser
  rcases hw.target?_of_step hc hs hd with hbefore | ⟨rfl, hr⟩
  · exact (hw.lockStep_of_step hc hs _).isSome (hw.turns d target hbefore hser)
  · rw [hr, Router.semaphore?_opened_self, hser]
    rfl

/-- **A step of a call keeps the world in order.** -/
theorem afterCall : (w.afterCall t s).Orderly where
  calls u a ha := by
    rw [World.afterCall, activity?_after _ _ _ (lt_of_call? hc)] at ha
    split at ha
    · obtain ⟨c', -, rfl⟩ := Option.map_eq_some_iff.1 ha
      exact ⟨c', rfl⟩
    · split at ha
      · exact hw.calls u a ha
      · obtain ⟨d, -, rfl⟩ := List.mem_map.1 (List.mem_of_getElem? ha)
        exact ⟨_, rfl⟩
  refers _ _ := hw.refers_afterCall hc hs
  coherent := (hw.moves_of_step hc hs).coherent hw.coherent
  locks := hw.locks_afterCall hc hs
  vacant _ _ := hw.vacant_afterCall hc hs
  doomed _ _ := hw.doomed_afterCall hc hs
  turns _ _ := hw.turns_afterCall hc hs

end Step

/-- The world is in order before any call. -/
theorem quiet {e : Engine} (hslots : e.router.slots = .const {})
    (hconnections : e.router.connections = []) : (World.mk e []).Orderly where
  calls _ _ h := by simp [activity?] at h
  refers _ _ h := by simp [call?, activity?] at h
  coherent target _ h := by simp [Router.cached, hslots] at h
  locks l := by
    refine .of_away (fun _ => rfl) fun σ hσ => ?_
    cases l with
    | slot target => simpa [Router.semaphore?, hslots, Semaphore.lock] using hσ.symm
    | turn c => simp [Router.semaphore?, hconnections] at hσ
    | permit | overall => cases hσ
  vacant _ _ h := by simp [grip, call?, activity?] at h
  doomed _ _ h := by simp [Router.target?, hconnections] at h
  turns _ _ h := by simp [Router.target?, hconnections] at h

/-- A call that begins keeps the world in order. -/
theorem spawn (hw : w.Orderly) (hc : c.Begins w.engine.router) :
    (w.spawn [.call c]).Orderly where
  calls u a ha := by
    rw [activity?_spawn] at ha
    split at ha
    · cases ha
      exact ⟨c, rfl⟩
    · exact hw.calls u a ha
  refers u c' h := by
    rw [call?_spawn] at h
    split at h
    · cases h
      exact hc.starts.refers
    · exact hw.refers u c' h
  coherent := hw.coherent
  locks l := by
    rw [standing_spawn hc]
    exact hw.locks l
  vacant u target h := hw.vacant u target (by rwa [grip_spawn hc] at h)
  doomed d target hd hret := by
    refine (hw.doomed d target hd hret).imp_right fun ⟨u, hu⟩ => ⟨u, ?_⟩
    rwa [grip_spawn hc]
  turns := hw.turns

/-- The configuration is no part of what is in order. -/
theorem configure (hw : w.Orderly) (servers : PerTarget (Option ServerConfig)) :
    World.Orderly { w with engine.router.servers := servers } where
  calls := hw.calls
  refers t c hc := (hw.refers t c hc).mono ⟨fun _ _ h => h, fun _ _ _ h => h⟩
  coherent := hw.coherent
  locks := hw.locks
  vacant := hw.vacant
  doomed := hw.doomed
  turns := hw.turns

end Orderly

end World

/-- **The world is in order all through the traffic.** -/
theorem Traffic.orderly {made : Call → Prop} {xs : List Move} {w : World}
    (h : Traffic made xs w) : w.Orderly := by
  induction h with
  | quiet hslots hconnections => exact .quiet hslots hconnections
  | call _ _ hc hw => exact hw.spawn hc
  | configure servers _ hw => exact hw.configure servers
  | move _ hstep hw =>
    obtain ⟨c, s, hc, hs, rfl, -⟩ := hw.step hstep
    exact hw.afterCall hc hs

namespace Traffic

variable {made : Call → Prop} {xs ys : List Move} {w : World} {x : Move}

/-- What has happened before a step is traffic as well. -/
theorem of_append (h : Traffic made (xs ++ x :: ys) w) :
    Traffic made xs x.before ∧
      x.before.step x.outside x.task = some (x.after, x.result) := by
  generalize hzs : xs ++ x :: ys = zs at h
  induction h generalizing ys with
  | quiet => simp at hzs
  | call _ _ _ ih => exact ih hzs
  | configure _ _ ih => exact ih hzs
  | move h hstep ih =>
    rcases List.eq_nil_or_concat ys with rfl | ⟨ys', y, rfl⟩
    · obtain ⟨rfl, hx⟩ := List.append_inj' hzs rfl
      cases hx
      exact ⟨h, hstep⟩
    · rw [List.concat_eq_append, ← List.cons_append, ← List.append_assoc] at hzs
      exact ih (List.append_inj' hzs rfl).1

/-- What holds of the world after a step, and of the steps taken since, and is kept by all that
happens, holds from then on. -/
theorem induction_since {P : List Move → World → Prop} (h : Traffic made (xs ++ x :: ys) w)
    (hx : P [] x.after) (hcall : ∀ {zs v c}, Traffic made (xs ++ x :: zs) v → P zs v →
      P zs (v.spawn [.call c]))
    (hconfigure : ∀ {zs} {v : World} servers, P zs v →
      P zs { v with engine.router.servers := servers })
    (hmove : ∀ {zs v v' t out res}, Traffic made (xs ++ x :: zs) v → P zs v →
      v.step out t = some (v', res) → P (zs ++ [⟨v, t, out, v', res⟩]) v') : P ys w := by
  generalize hzs : xs ++ x :: ys = zs at h
  induction h generalizing ys with
  | quiet => simp at hzs
  | call h _ _ ih => exact hcall (hzs ▸ h) (ih hzs)
  | configure servers _ ih => exact hconfigure servers (ih hzs)
  | move h hstep ih =>
    rcases List.eq_nil_or_concat ys with rfl | ⟨ys', y, rfl⟩
    · obtain ⟨-, hx'⟩ := List.append_inj' hzs rfl
      cases hx'
      exact hx
    · rw [List.concat_eq_append, ← List.cons_append, ← List.append_assoc] at hzs
      obtain ⟨hzs', hy⟩ := List.append_inj' hzs rfl
      cases hy
      rw [List.concat_eq_append]
      exact hmove (hzs' ▸ h) (ih hzs') hstep

/-- What holds after a step, and is kept by all that happens, holds from then on. -/
theorem induction_from {P : World → Prop} (h : Traffic made (xs ++ x :: ys) w) (hx : P x.after)
    (hcall : ∀ {zs v c}, Traffic made zs v → P v → P (v.spawn [.call c]))
    (hconfigure : ∀ {v : World} servers, P v → P { v with engine.router.servers := servers })
    (hmove : ∀ {zs v v' t out res}, Traffic made zs v → P v → v.step out t = some (v', res) →
      P v') : (∀ y ∈ ys, P y.before) ∧ P w := by
  refine h.induction_since (P := fun zs v => (∀ y ∈ zs, P y.before) ∧ P v) ⟨by simp, hx⟩
    (fun hz hv => ⟨hv.1, hcall hz hv.2⟩) (fun servers hv => ⟨hv.1, hconfigure servers hv.2⟩)
    fun hz hv hstep => ⟨?_, hmove hz hv.2 hstep⟩
  rw [List.forall_mem_append]
  exact ⟨hv.1, by simpa using hv.2⟩

theorem of_mem (h : Traffic made xs w) (hx : x ∈ xs) :
    ∃ ys, Traffic made ys x.before ∧
      x.before.step x.outside x.task = some (x.after, x.result) := by
  obtain ⟨ys, zs, rfl⟩ := List.append_of_mem hx
  exact ⟨ys, h.of_append⟩

end Traffic

/-! ## Traffic on cue -/

/-- What the world outside tells that matters to a call. -/
def Outside.answering (answer : Option Answer) : Outside := ⟨answer, .epoch, 0, "", 0, [], []⟩

/-- What happens next in the traffic: somebody makes a call, or a task takes a step. -/
inductive Cue where
  | acquire (target : Target)
  | query (c : ConnectionId) (sql : String) (limitMs : Nat)
  | execute (c : ConnectionId) (sql : String) (limitMs : Nat)
  | invalidate (c : ConnectionId)
  | discard (c : ConnectionId)
  | close (target : Target)
  | shutdown
  | move (t : TaskId) (answer : Option Answer)

namespace Cue

/-- The call that is made. -/
def call? (r : Router) : Cue → Option Call
  | acquire target => some (.acquire (.start target))
  | query c sql limitMs => (r.target? c).map fun _ => .statement (.start c sql limitMs)
  | execute c sql limitMs => (r.target? c).map fun _ => .execute (.start c sql limitMs)
  | invalidate c => (r.target? c).map fun target => .invalidate (.evicting c (.start target c))
  | discard c => (r.target? c).map fun target => .discard ⟨c, .start target c⟩
  | close target => some (.close (.start target))
  | shutdown => some (.shutdown .start)
  | move _ _ => none

theorem begins_of_call? {r : Router} {q : Cue} {c : Call} (h : q.call? r = some c) :
    c.Begins r := by
  cases q with
  | acquire target =>
    cases h
    exact .elementary (.acquire target)
  | query d sql limitMs =>
    obtain ⟨target, hd, rfl⟩ := Option.map_eq_some_iff.1 h
    exact .elementary (.statement sql limitMs hd)
  | execute d sql limitMs =>
    obtain ⟨target, hd, rfl⟩ := Option.map_eq_some_iff.1 h
    exact .execute sql limitMs hd
  | invalidate d =>
    obtain ⟨target, hd, rfl⟩ := Option.map_eq_some_iff.1 h
    exact .elementary (.invalidate hd)
  | discard d =>
    obtain ⟨target, hd, rfl⟩ := Option.map_eq_some_iff.1 h
    exact .elementary (.discard hd)
  | close target =>
    cases h
    exact .elementary (.close target)
  | shutdown =>
    cases h
    exact .shutdown
  | move => cases h

/-- Whether it is a step of a task. -/
def isMove : Cue → Bool
  | move _ _ => true
  | _ => false

/-- The traffic after a cue, where a task that is to take a step takes as many as `go` says; nothing
happens if it cannot be followed. -/
def follow (go : TaskId → Option Answer → World → Option (List Move × World))
    (p : List Move × World) (q : Cue) : List Move × World :=
  match q with
  | move t answer =>
    match go t answer p.2 with
    | some (xs, w) => (p.1 ++ xs, w)
    | none => p
  | q =>
    match q.call? p.2.engine.router with
    | some c => (p.1, p.2.spawn [.call c])
    | none => p

/-- What steps and calls keep holds after some cues have been followed. -/
theorem foldl_follow {go : TaskId → Option Answer → World → Option (List Move × World)}
    {P : List Move × World → Prop} {cues : List Cue} {p : List Move × World}
    (hmove : ∀ p t answer xs w, P p → go t answer p.2 = some (xs, w) → P (p.1 ++ xs, w))
    (hcall : ∀ p, ∀ q ∈ cues, ∀ c, P p → q.call? p.2.engine.router = some c →
      P (p.1, p.2.spawn [.call c])) (hp : P p) : P (cues.foldl (follow go) p) := by
  induction cues generalizing p with
  | nil => exact hp
  | cons q cues ih =>
    rw [List.foldl_cons]
    refine ih (fun p q hq => hcall p q (List.mem_cons_of_mem _ hq)) ?_
    have hq := hcall p q List.mem_cons_self
    unfold follow
    split
    · split
      · exact hmove p _ _ _ _ hp ‹_›
      · exact hp
    · split
      · exact hq _ hp ‹_›
      · exact hp

end Cue

/-- One step of a task. -/
def World.move (t : TaskId) (answer : Option Answer) (w : World) : Option (List Move × World) :=
  (w.step (.answering answer) t).map fun p => ([⟨w, t, .answering answer, p.1, p.2⟩], p.1)

theorem World.move_eq_some {t : TaskId} {answer : Option Answer} {w w' : World} {xs : List Move}
    (h : w.move t answer = some (xs, w')) : ∃ res, w.step (.answering answer) t = some (w', res) ∧
      xs = [⟨w, t, .answering answer, w', res⟩] := by
  obtain ⟨⟨w'', res⟩, hstep, heq⟩ := Option.map_eq_some_iff.1 h
  cases heq
  exact ⟨res, hstep, rfl⟩

/-- The traffic on a router that follows some cues. -/
def Router.enact (r : Router) (cues : List Cue) : List Move × World :=
  cues.foldl (Cue.follow World.move) ([], ⟨{ router := r }, []⟩)

/-- Cues for calls of some kind make traffic of these calls. -/
theorem Traffic.enact {made : Call → Prop} {r : Router} {cues : List Cue}
    (hslots : r.slots = .const {}) (hconnections : r.connections = [])
    (hcues : ∀ q ∈ cues, ∀ r c, q.call? r = some c → made c) :
    Traffic made (r.enact cues).1 (r.enact cues).2 := by
  refine Cue.foldl_follow (P := fun p => Traffic made p.1 p.2) (fun p t answer xs w hp h => ?_)
    (fun p q hq c hp hc => hp.call (hcues q hq _ c hc) (Cue.begins_of_call? hc))
    (.quiet hslots hconnections)
  obtain ⟨res, hstep, rfl⟩ := World.move_eq_some h
  exact hp.move hstep

/-- The tasks of a world take the steps that they are told to, if they can. -/
theorem Course.follow {w : World} {cues : List Cue} (hcues : ∀ q ∈ cues, q.isMove = true) :
    let p := cues.foldl (Cue.follow World.move) ([], w)
    Course w p.1 p.2 := by
  refine Cue.foldl_follow (P := fun p => Course w p.1 p.2) (fun p t answer xs w hp h => ?_)
    (fun p q hq c _ hc => ?_) .refl
  · obtain ⟨res, hstep, rfl⟩ := World.move_eq_some h
    exact hp.move hstep
  · have hmove := hcues q hq
    cases q with
    | move => cases hc
    | acquire | query | execute | invalidate | discard | close | shutdown => cases hmove

/-- A router that knows the relational server alone. -/
def Router.relationalOnly : Router where
  servers := ⟨some ⟨true, .relational ⟨"db", 1433, "metrics", "reader", none, true⟩⟩, none⟩

/-- The first task opens a connection to the relational server. -/
def Cue.opening : List Cue :=
  [.acquire .relational, .move 0 none, .move 0 none, .move 0 none, .move 0 (some .connected),
    .move 0 none, .move 0 none]

end MetricBoard
