import MetricBoard.Proofs.Router.Stretches

/-!
# One connection to a server

Where tasks give way only while they wait, tasks that come together share one connection. At most
one of them connects to a server at a time, since it has locked the slot, and the connection that is
not retired is the one in the slot (`Cooperative.one_connection`). So a task that finds it there
returns it, in the stretch in which it looks, and connects to nothing.
-/

namespace MetricBoard

/-! ## Connecting -/

/-- The server that is to be connected to. -/
def Request.connects? : Request → Option Target
  | connect target _ => some target
  | statement _ _ _ | close _ => none

/-- The server that a task is connecting to. -/
def World.connects? (w : World) (t : TaskId) : Option Target :=
  (w.request? t).bind Request.connects?

namespace Call

/-- The connection that has just been opened. -/
def opened? : Call → Option ConnectionId
  | acquire (.cached _ c) => some c
  | _ => none

variable {c : Call} {a : Acquire} {target : Target} {t : TaskId} {ans : Option Answer} {r : Router}
  {s : RouterStep Call CallResult}

/-- Only an acquisition connects to a server, and it has locked the slot. -/
theorem standing_of_connects? (he : c.IsElementary)
    (h : c.request?.bind Request.connects? = some target) :
    c.standing (.slot target) = .inside := by
  cases c with
  | acquire a =>
    cases a with
    | connecting u p =>
      cases h
      exact Standing.at_self _ _
    | start | queued | empty | cached | refused | leaving => cases h
  | statement q => cases q <;> cases h
  | invalidate i => cases i <;> cases h
  | close k => cases k <;> cases h
  | discard | closing => cases h
  | execute | shutdown => exact he.elim

theorem Starts.opened? (h : Starts r c) : c.opened? = none := by
  cases h <;> rfl

end Call

/-! ### The numbers of connections -/

/-- The number of connections after a step that opens none. -/
theorem Evict.step_length {t : TaskId} {r : Router} {v : Evict} {s : RouterStep Evict Bool}
    (h : v.step t r = some s) : s.router.connections.length = r.connections.length := by
  cases does_of_step h with
  | retire => exact List.length_modify ..
  | _ => rfl

theorem Close.step_length {t : TaskId} {ans : Option Answer} {r : Router} {k : Close}
    {s : RouterStep Close Unit} (h : k.step t ans r = some s) :
    s.router.connections.length = r.connections.length := by
  cases does_of_step h with
  | retire => exact List.length_modify ..
  | _ => rfl

theorem Acquire.step_range {t : TaskId} {ans : Option Answer} {r : Router} {a : Acquire}
    {s : RouterStep Acquire (Except AcquireError ConnectionId)} (h : a.step t ans r = some s) :
    List.range s.router.connections.length = List.range r.connections.length ++
      (s.next.view (fun a => (Call.acquire a).opened?) none).toList := by
  cases does_of_step h with
  | connect =>
    rw [show ((r.addConnection _).setCached _ (some r.connections.length)) = r.opened _ from rfl,
      Router.length_opened, List.range_succ]
    rfl
  | _ => exact (List.append_nil _).symm

namespace Call

variable {c : Call} {t : TaskId} {ans : Option Answer} {r : Router}
  {s : RouterStep Call CallResult}

/-- Connections are numbered in the order in which they are opened. -/
theorem step_range (h : c.step t ans r = some s) (he : c.IsElementary) :
    List.range s.router.connections.length = List.range r.connections.length ++
      (s.next.view opened? none).toList := by
  have hsame : s.router.connections.length = r.connections.length →
      s.next.view opened? none = none →
        List.range s.router.connections.length = List.range r.connections.length ++
          (s.next.view opened? none).toList := fun hlength hview => by
    rw [hlength, hview, Option.toList_none, List.append_nil]
  cases c with
  | acquire a =>
    obtain ⟨s', hs', rfl⟩ := Option.map_eq_some_iff.1 h
    rw [RouterStep.within, Next.view_within_done]
    exact Acquire.step_range hs'
  | statement q =>
    obtain ⟨s', hs', rfl⟩ := Option.map_eq_some_iff.1 h
    exact hsame (Statement.step_still hs').1.length
      (by cases hn : s'.next <;> simp [RouterStep.within, hn, Next.within, Next.view, opened?])
  | invalidate i =>
    obtain ⟨s', hs', rfl⟩ := Option.map_eq_some_iff.1 h
    refine hsame ?_
      (by cases hn : s'.next <;> simp [RouterStep.within, hn, Next.within, Next.view, opened?])
    cases i with
    | evicting c v =>
      obtain ⟨s'', hs'', rfl⟩ := Option.map_eq_some_iff.1 hs'
      exact Evict.step_length hs''
    | closing c =>
      obtain rfl := Invalidate.eq_of_closing hs'
      rfl
  | discard d =>
    obtain ⟨s', hs', rfl⟩ := Option.map_eq_some_iff.1 h
    refine hsame ?_
      (by cases hn : s'.next <;> simp [RouterStep.within, hn, Next.within, Next.view, opened?])
    obtain ⟨s'', hs'', rfl⟩ := Option.map_eq_some_iff.1 hs'
    exact Evict.step_length hs''
  | close k =>
    obtain ⟨s', hs', rfl⟩ := Option.map_eq_some_iff.1 h
    exact hsame (Close.step_length hs')
      (by cases hn : s'.next <;> simp [RouterStep.within, hn, Next.within, Next.view, opened?])
  | closing d =>
    obtain rfl := eq_of_closing h
    exact (List.append_nil _).symm
  | execute | shutdown => exact he.elim

end Call

/-- The connection that the step has opened. -/
def Move.opened? (x : Move) : Option ConnectionId :=
  (x.after.call? x.task).bind fun k => k.current.opened?

theorem Move.opened?_eq {w : World} {t : TaskId} {k : Call} {s : RouterStep Call CallResult}
    (hk : w.call? t = some k) (out : Outside) (res : Option Result) :
    Move.opened? ⟨w, t, out, w.afterCall t s, res⟩ =
      s.next.view (fun k => k.current.opened?) none := by
  show ((w.afterCall t s).call? t).bind _ = _
  rw [World.call?_afterCall_self (World.lt_of_call? hk)]
  cases s.next <;> rfl

/-- The connections that there are have been opened one after the other. -/
theorem Traffic.opened {made : Call → Prop} {xs : List Move} {w : World} (h : Traffic made xs w) :
    xs.filterMap Move.opened? = List.range w.engine.router.connections.length := by
  induction h with
  | quiet _ hconnections => simp [hconnections]
  | call _ _ _ ih => exact ih
  | configure _ _ ih => exact ih
  | move h hstep ih =>
    obtain ⟨k, s, hk, hs, rfl, -⟩ := h.orderly.step hstep
    obtain ⟨s', hs', hrouter, -, hgo⟩ := Call.step_current hs (h.orderly.refers _ k hk)
      h.orderly.coherent
    have hrange := Call.step_range hs' k.isElementary_current
    rw [hrouter, ← hgo.view_eq fun _ hc => hc.opened?, ← ih] at hrange
    rw [List.filterMap_append]
    cases ho : s.next.view (fun k => k.current.opened?) none with
    | none =>
      rw [List.filterMap_cons_none ((Move.opened?_eq hk _ _).trans ho)]
      exact (ho ▸ hrange).symm
    | some c =>
      rw [List.filterMap_cons_some ((Move.opened?_eq hk _ _).trans ho)]
      exact (ho ▸ hrange).symm

/-! ## Getting a connection -/

theorem Call.eq_of_current_acquire {c : Call} {a : Acquire} (h : c.current = acquire a) :
    c = acquire a ∨ ∃ sql limitMs, c = execute (.reconnecting sql limitMs a) := by
  cases c with
  | acquire => exact .inl h
  | execute x =>
    cases x with
    | reconnecting sql limitMs a' =>
      cases h
      exact .inr ⟨sql, limitMs, rfl⟩
    | first | second | discarding | invalidating => cases h
  | shutdown k => cases k <;> cases h
  | statement | invalidate | discard | close | closing => cases h

/-- A step of a task that gets a connection. -/
structure Acquiring (w : World) (t : TaskId) (a : Acquire)
    (s : RouterStep Acquire (Except AcquireError ConnectionId)) (x : Move) : Prop where
  step : a.step t x.outside.answer w.engine.router = some s
  result : x.result? = s.next.result?.map .acquired
  orderly : x.after.Orderly
  router : x.after.engine.router = s.router
  stage : ∀ a', s.next = .stage a' → ∃ k, x.after.call? t = some k ∧ k.current = .acquire a'
  failed : ∀ e, s.next = .done (.error e) → x.after.call? t = none
  done : ∀ c, s.next = .done (.ok c) → x.after.call? t = none ∨
    ∃ sql limitMs, x.after.call? t = some (.execute (.second limitMs c (.start c sql limitMs)))

/-- The answer that a stretch begins with. -/
def Move.firstAnswer? (xs : List Move) : Option Answer := xs.head?.bind fun x => x.outside.answer

/-- A stretch of a task begins with a step of it, and then it rests or goes on. -/
theorem Stretch.cases_step {t : TaskId} {w w' : World} {xs : List Move} (h : Stretch t w xs w') :
    ∃ x ys, xs = x :: ys ∧ x.before = w ∧ x.task = t ∧
      w.step x.outside t = some (x.after, x.result) ∧
      (x.after.rests t = true → ys = [] ∧ w' = x.after) ∧
      (x.after.rests t = false → Stretch t x.after ys w') := by
  cases h with
  | last hstep hrests =>
    exact ⟨_, [], rfl, rfl, rfl, hstep, fun _ => ⟨rfl, rfl⟩, fun h => by simp [hrests] at h⟩
  | more hstep hgoes h =>
    exact ⟨_, _, rfl, rfl, rfl, hstep, fun h => by simp [hgoes] at h, fun _ => h⟩

namespace World

variable {w w' : World} {t : TaskId} {k : Call} {a : Acquire} {x : Move}

theorem Orderly.acquiring (hw : w.Orderly) (hk : w.call? t = some k)
    (ha : k.current = .acquire a) (hb : x.before = w) (ht : x.task = t)
    (hstep : w.step x.outside t = some (x.after, x.result)) : ∃ s, Acquiring w t a s x := by
  obtain ⟨k', s, hk', hs, hafter, -⟩ := hw.step hstep
  obtain rfl : k = k' := Option.some.inj (hk.symm.trans hk')
  have hcall : x.call? = some (.acquire a) := by rw [Move.call?, hb, ht, hk, Option.map_some, ha]
  have hnext := call?_afterCall_self (s := s) (lt_of_call? hk)
  have horderly := hw.next hstep
  have hresult : ∀ s', a.step t x.outside.answer w.engine.router = some s' →
      x.result? = s'.next.result?.map .acquired := fun s' hs' => by
    rw [Move.result?, hcall, Option.bind_some, ht, hb, Call.step, hs', Option.map_some,
      Option.bind_some, RouterStep.within, Next.result?_within_done]
  rcases Call.eq_of_current_acquire ha with rfl | ⟨sql, limitMs, rfl⟩
  · obtain ⟨s', hs', rfl⟩ := Option.map_eq_some_iff.1 hs
    refine ⟨s', hs', hresult s' hs', horderly, by rw [hafter]; rfl, fun a' ha' => ?_,
      fun e he => ?_, fun c hc => .inl ?_⟩
    · exact ⟨.acquire a', by rw [hafter, hnext, RouterStep.within, ha']; rfl, rfl⟩
    · rw [hafter, hnext, RouterStep.within, he]
      rfl
    · rw [hafter, hnext, RouterStep.within, hc]
      rfl
  · obtain ⟨s₁, hs₁, rfl⟩ := Option.map_eq_some_iff.1 hs
    obtain ⟨s', hs', rfl⟩ := Option.map_eq_some_iff.1 hs₁
    refine ⟨s', hs', hresult s' hs', horderly, by rw [hafter]; rfl, fun a' ha' => ?_,
      fun e he => ?_, fun c hc => .inr ⟨sql, limitMs, ?_⟩⟩
    · exact ⟨.execute (.reconnecting sql limitMs a'),
        by rw [hafter, hnext, RouterStep.within, RouterStep.within, ha']; rfl, rfl⟩
    · rw [hafter, hnext, RouterStep.within, RouterStep.within, he]
      rfl
    · rw [hafter, hnext, RouterStep.within, RouterStep.within, hc]
      rfl

theorem Orderly.connects?_eq (hw : w.Orderly) (t : TaskId) : w.connects? t =
    (w.call? t).bind fun k => k.current.request?.bind Request.connects? := by
  rw [connects?, hw.request?_eq]
  cases w.call? t <;> rfl

/-- A task that connects to a server has locked the slot. -/
theorem Orderly.standing_of_connects? (hw : w.Orderly) {target : Target}
    (h : w.connects? t = some target) : w.standing (.slot target) t = .inside := by
  rw [hw.connects?_eq] at h
  cases hk : w.call? t with
  | none => simp [hk] at h
  | some k =>
    rw [hk] at h
    rw [standing_of_call? hk]
    exact Call.standing_of_connects? k.isElementary_current h

end World

namespace Stretch

variable {t : TaskId} {w w' : World} {xs : List Move} {k : Call} {target : Target}
  {p : ConnectionParameters}

/-- An acquisition that finds a connection which is not retired returns it, and connects to
nothing. -/
theorem acquire_cached {c : ConnectionId} (h : Stretch t w xs w') (hw : w.Orderly)
    (hk : w.call? t = some k) (ha : k.current = .acquire (.queued target p))
    (hc : w.engine.router.cached target = some c) (hret : w.engine.router.isRetired c = false) :
    (∃ x ∈ xs, x.result? = some (.acquired (.ok c))) ∧
      (∀ x ∈ xs, x.after.connects? t = none) ∧ w.engine.router.Still w'.engine.router := by
  -- it looks into the slot
  obtain ⟨x, ys, rfl, hbx, htx, hstepx, -, hgoesx⟩ := h.cases_step
  obtain ⟨s, hx⟩ := hw.acquiring hk ha hbx htx hstepx
  have hs := hx.step
  simp only [Acquire.step, hc, hret, Bool.false_eq_true, if_false] at hs
  split at hs <;> cases hs
  obtain ⟨k₁, hk₁, ha₁⟩ := hx.stage _ rfl
  have hnone₁ : x.after.connects? t = none := by
    rw [hx.orderly.connects?_eq, hk₁, Option.bind_some, ha₁]
    rfl
  -- it gives the lock back
  have hrests₁ : x.after.rests t = false := by
    rw [World.rests, hk₁, Option.all_some, ha₁]
    rfl
  obtain ⟨y, zs, rfl, hby, hty, hstepy, hendy, hgoesy⟩ := (hgoesx hrests₁).cases_step
  obtain ⟨s, hy⟩ := hx.orderly.acquiring hk₁ ha₁ hby hty hstepy
  cases hy.step
  have hresult : y.result? = some (.acquired (.ok c)) := hy.result
  have hstill : w.engine.router.Still y.after.engine.router := by
    rw [hy.router, hx.router]
    exact Router.still_releaseSlot
  rcases hy.done c rfl with hended | ⟨sql, limitMs, hsecond⟩
  · have hnone₂ : y.after.connects? t = none := by rw [hy.orderly.connects?_eq, hended]; rfl
    obtain ⟨rfl, rfl⟩ := hendy (by rw [World.rests, hended]; rfl)
    refine ⟨⟨y, by simp, hresult⟩, ?_, hstill⟩
    simpa using ⟨hnone₁, hnone₂⟩
  · -- and asks for its turn, if it has a statement to run
    have hnone₂ : y.after.connects? t = none := by rw [hy.orderly.connects?_eq, hsecond]; rfl
    obtain ⟨z, us, rfl, hbz, htz, hstepz, hendz, -⟩ :=
      (hgoesy (by rw [World.rests, hsecond]; rfl)).cases_step
    obtain ⟨k₂, s, hk₂, hs₂, hafter, -⟩ := hy.orderly.step hstepz
    obtain rfl := Option.some.inj (hsecond.symm.trans hk₂)
    cases hs₂
    have hcall : z.after.call? t = some (.execute (.second limitMs c (.queued c sql limitMs))) := by
      rw [hafter, World.call?_afterCall_self (World.lt_of_call? hk₂)]
      rfl
    have hnone₃ : z.after.connects? t = none := by
      rw [(hy.orderly.next hstepz).connects?_eq, hcall]
      rfl
    obtain ⟨rfl, rfl⟩ := hendz (by rw [World.rests, hcall]; rfl)
    refine ⟨⟨y, by simp, hresult⟩, by simpa using ⟨hnone₁, hnone₂, hnone₃⟩, ?_⟩
    rw [hafter]
    exact hstill.trans (Router.still_onConnection _)

/-- A connect that fails leaves the slot empty. -/
theorem acquire_refused {e : DriverError} (h : Stretch t w xs w') (hw : w.Orderly)
    (hk : w.call? t = some k) (ha : k.current = .acquire (.connecting target p))
    (he : Move.firstAnswer? xs = some (.refused e)) :
    (∃ x ∈ xs, x.result? = some (.acquired (.error (.connectionFailed target e)))) ∧
      w'.engine.router.cached target = none ∧ w'.engine.router.phase target = .absent := by
  have hempty : w.engine.router.cached target = none := by
    refine hw.vacant t target ?_
    rw [World.grip_of_call? hk, ha]
    rfl
  obtain ⟨x, ys, rfl, hbx, htx, hstepx, -, hgoesx⟩ := h.cases_step
  obtain ⟨s, hx⟩ := hw.acquiring hk ha hbx htx hstepx
  have hs := hx.step
  rw [show x.outside.answer = some (.refused e) from he] at hs
  cases hs
  obtain ⟨k₁, hk₁, ha₁⟩ := hx.stage _ rfl
  -- it sets the phase
  obtain ⟨y, zs, rfl, hby, hty, hstepy, -, hgoesy⟩ :=
    (hgoesx (by rw [World.rests, hk₁, Option.all_some, ha₁]; rfl)).cases_step
  obtain ⟨s, hy⟩ := hx.orderly.acquiring hk₁ ha₁ hby hty hstepy
  cases hy.step
  obtain ⟨k₂, hk₂, ha₂⟩ := hy.stage _ rfl
  -- it gives the lock back, and ends
  obtain ⟨z, us, rfl, hbz, htz, hstepz, hendz, -⟩ :=
    (hgoesy (by rw [World.rests, hk₂, Option.all_some, ha₂]; rfl)).cases_step
  obtain ⟨s, hz⟩ := hy.orderly.acquiring hk₂ ha₂ hbz htz hstepz
  cases hz.step
  obtain ⟨rfl, rfl⟩ := hendz (by rw [World.rests, hz.failed _ rfl]; rfl)
  refine ⟨⟨z, by simp, hz.result⟩, ?_, ?_⟩
  · rw [hz.router, Router.still_releaseSlot.cached, hy.router, (Router.still_setPhase _).cached,
      hx.router, hempty]
  · rw [hz.router, Router.phase_releaseSlot, hy.router, Router.phase_setPhase]

end Stretch

/-- An acquisition that has the lock of the slot looks into it. -/
theorem World.Orderly.exists_stretch_acquire {t : TaskId} {w : World} {k : Call} {target : Target}
    {p : ConnectionParameters} (hw : w.Orderly) (hk : w.call? t = some k)
    (ha : k.current = .acquire (.queued target p))
    (hlock : w.engine.router.holdsSlot target t = true) : ∃ ys w', Stretch t w ys w' := by
  have hsome : (k.step t (Outside.answering none).answer w.engine.router).isSome = true := by
    rw [← Call.isSome_step_current, ha, Call.step, Option.isSome_map, Acquire.step, if_pos hlock]
    split
    · split <;> rfl
    · rfl
  obtain ⟨w', res, hstep⟩ := World.exists_step hk hsome
  obtain ⟨ys, w'', hs⟩ := hw.exists_stretch hstep
  exact ⟨_, w'', hs⟩

/-- An acquisition that is refused the connection goes on. -/
theorem World.Orderly.exists_stretch_refused {t : TaskId} {w : World} {k : Call} {target : Target}
    {p : ConnectionParameters} (hw : w.Orderly) (hk : w.call? t = some k)
    (ha : k.current = .acquire (.connecting target p)) (e : DriverError) :
    ∃ ys w', Stretch t w ys w' ∧ Move.firstAnswer? ys = some (.refused e) := by
  have hsome : (k.step t (Outside.answering (some (.refused e))).answer
      w.engine.router).isSome = true := by
    rw [← Call.isSome_step_current, ha]
    rfl
  obtain ⟨w', res, hstep⟩ := World.exists_step hk hsome
  obtain ⟨ys, w'', hs⟩ := hw.exists_stretch hstep
  exact ⟨_, w'', hs, rfl⟩

/-- **At most one connection to a server.** Where tasks give way only while they wait, at most one
task connects to a server at a time, and the connection that is not retired, if there is one, is
that in the slot. Connections are numbered as they are opened. An acquisition that finds one in use
returns it without connecting, and a connect that fails leaves the slot empty. -/
theorem Cooperative.one_connection {made : Call → Prop} {xs : List Move} {w : World}
    (h : Cooperative made xs w) :
    (∀ target t u, w.connects? t = some target → w.connects? u = some target → t = u) ∧
      (∀ c target, w.engine.router.target? c = some target →
        w.engine.router.isRetired c = false → w.engine.router.cached target = some c) ∧
      (xs.filterMap Move.opened?).Pairwise (· < ·) ∧
      (∀ t k target p c, w.call? t = some k → k.current = .acquire (.queued target p) →
        w.engine.router.holdsSlot target t = true → w.engine.router.cached target = some c →
          w.engine.router.isRetired c = false → (∃ ys w', Stretch t w ys w') ∧
            ∀ ys w', Stretch t w ys w' → (∃ x ∈ ys, x.result? = some (.acquired (.ok c))) ∧
              (∀ x ∈ ys, x.after.connects? t = none) ∧ w.engine.router.Still w'.engine.router) ∧
      ∀ t k target p e, w.call? t = some k → k.current = .acquire (.connecting target p) →
        (∃ ys w', Stretch t w ys w' ∧ Move.firstAnswer? ys = some (.refused e)) ∧
          ∀ ys w', Stretch t w ys w' → Move.firstAnswer? ys = some (.refused e) →
            (∃ x ∈ ys, x.result? = some (.acquired (.error (.connectionFailed target e)))) ∧
              w'.engine.router.cached target = none ∧ w'.engine.router.phase target = .absent := by
  have hw := h.traffic.orderly
  refine ⟨fun target t u ht hu => ?_, fun c target => h.cached_of_not_retired, ?_,
    fun t k target p c hk ha hlock hc hret => ⟨hw.exists_stretch_acquire hk ha hlock, ?_⟩,
    fun t k target p e hk ha => ⟨hw.exists_stretch_refused hk ha e, ?_⟩⟩
  · exact hw.eq_of_inside (hw.standing_of_connects? ht) (hw.standing_of_connects? hu)
  · rw [h.traffic.opened]
    exact List.pairwise_lt_range
  · exact fun ys w' hs => hs.acquire_cached hw hk ha hc hret
  · exact fun ys w' hs he => hs.acquire_refused hw hk ha he

/-- Two tasks ask for a connection; the first one connects, and the second one waits. -/
def Cue.sharing : List Cue :=
  [.acquire .relational, .acquire .relational, .move 0 none, .move 1 none, .move 0 none,
    .move 0 (some .connected)]

theorem Cooperative.one_connection_sharing :
    let p := Router.relationalOnly.enactStretches Cue.sharing
    p.2.engine.router.cached .relational = some 0 ∧ p.1.filterMap Move.opened? = [0] ∧
      ∃ ys w', Stretch 1 p.2 ys w' ∧ (∃ x ∈ ys, x.result? = some (.acquired (.ok 0))) ∧
        (∀ x ∈ ys, x.after.connects? 1 = none) ∧ w'.engine.router.cached .relational = some 0 := by
  intro p
  have htraffic : Cooperative (fun _ => True) p.1 p.2 := .enact rfl rfl fun _ _ _ _ _ => trivial
  obtain ⟨-, hcached, -, hshares, -⟩ := htraffic.one_connection
  have hret : p.2.engine.router.isRetired 0 = false := by decide
  have hin := hcached 0 .relational (by decide) hret
  have hwaits : p.2.call? 1 = some (.acquire (.queued .relational
      (.relational ⟨"db", 1433, "metrics", "reader", none, true⟩))) := by decide
  obtain ⟨⟨ys, w', hs⟩, hreturns⟩ := hshares 1 _ _ _ 0 hwaits rfl (by decide) hin hret
  obtain ⟨hresult, hnone, hstill⟩ := hreturns ys w' hs
  exact ⟨hin, by decide, ys, w', hs, hresult, hnone,
    (hstill.cached .relational).trans hin⟩

end MetricBoard
