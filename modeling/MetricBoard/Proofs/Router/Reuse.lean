import MetricBoard.Proofs.Router.Stretches
import MetricBoard.Proofs.Router.Turns

/-!
# The reuse of poisoned connections

A statement that has ended in a timeout, or as its connection failed, may have left the connection
unusable. No statement is to be started on such a connection any more. Where the time of the
statement is over, none is: the connection is retired before the turn on it is given back. Where
the driver reports the failure, the turn is given back first, and only then does the executor ask
for the slot, to take the connection out and to retire it. Until it has done so, another statement
can be started on the connection, and this is the only way (`Traffic.reused_only_while_evicting`).
It does happen, even if tasks give way only where they wait (`Cooperative.reused`).
-/

namespace MetricBoard

/-- A statement that is answered in this way may leave its connection unusable. -/
def Answer.poisons : Answer → Bool
  | elapsed => true
  | failed e => e.kind.poisons
  | _ => false

/-- A statement on a connection ends with the step, in a timeout or as the connection failed. -/
def Move.Poisons (x : Move) (c : ConnectionId) : Prop :=
  x.before.runs? x.task = some c ∧ x.outside.answer.any Answer.poisons = true

instance Move.decidablePoisons (x : Move) : DecidablePred x.Poisons := fun c =>
  inferInstanceAs (Decidable (x.before.runs? x.task = some c ∧
    x.outside.answer.any Answer.poisons = true))

/-! ## Executions -/

namespace Execute

/-- A statement runs on the connection that it is executed on. -/
def Coheres : Execute → Prop
  | first _ _ c q | second _ c q => q.connection = c
  | reconnecting _ _ _ | discarding _ _ | invalidating _ _ => True

variable {t : TaskId} {ans : Option Answer} {r : Router} {x : Execute}
  {s : RouterStep Execute ExecuteResult}

theorem coheres_conclude (limitMs : Nat) (target : Target) (c : ConnectionId)
    (y : StatementResult) : (conclude limitMs target c y).All Coheres fun _ => True := by
  unfold conclude
  split
  · trivial
  · simp only
    split
    · trivial
    · split <;> trivial
  · trivial
  · trivial

theorem step_coheres (h : x.step t ans r = some s) (hx : x.Coheres) :
    s.next.All Coheres fun _ => True := by
  cases x with
  | first sql limitMs c q =>
    obtain ⟨s', hs', rfl⟩ := Option.map_eq_some_iff.1 h
    refine (Statement.step_connection hs').within (fun _ hq => hq.trans hx) fun y _ => ?_
    unfold afterFirst
    split
    · split
      · trivial
      · exact coheres_conclude ..
    · trivial
  | reconnecting sql limitMs a =>
    obtain ⟨s', hs', rfl⟩ := Option.map_eq_some_iff.1 h
    have hall : s'.next.All (fun _ => True) fun _ => True := by cases s'.next <;> trivial
    refine hall.within (fun _ _ => trivial) fun y _ => ?_
    cases y with
    | ok c => exact rfl
    | error e => trivial
  | second limitMs c q =>
    obtain ⟨s', hs', rfl⟩ := Option.map_eq_some_iff.1 h
    refine (Statement.step_connection hs').within (fun _ hq => hq.trans hx) fun y _ => ?_
    unfold afterSecond
    split
    · exact coheres_conclude ..
    · trivial
  | discarding | invalidating =>
    obtain ⟨s', hs', rfl⟩ := Option.map_eq_some_iff.1 h
    cases hn : s'.next <;> simp [RouterStep.within, Next.within, Next.All, hn, Coheres]

end Execute

namespace Call

/-- A statement is executed, or a connection is acquired to do so. -/
def IsExecution : Call → Prop
  | acquire _ | execute _ => True
  | _ => False

/-- What a task may be at where statements are executed. -/
def Executes : Call → Prop
  | acquire _ | closing _ => True
  | execute x => x.Coheres
  | _ => False

variable {c : Call} {d : ConnectionId} {t : TaskId} {ans : Option Answer} {r : Router}
  {s : RouterStep Call CallResult}

theorem step_executes (h : c.step t ans r = some s) (hc : c.Executes) :
    s.next.All Executes fun _ => True := by
  cases c with
  | acquire a =>
    obtain ⟨s', hs', rfl⟩ := Option.map_eq_some_iff.1 h
    cases hn : s'.next <;> simp [RouterStep.within, Next.within, Next.All, hn, Executes]
  | execute x =>
    obtain ⟨s', hs', rfl⟩ := Option.map_eq_some_iff.1 h
    exact (Execute.step_coheres hs' hc).within (fun _ hx => hx) fun _ _ => trivial
  | closing =>
    obtain rfl := eq_of_closing h
    trivial
  | statement | invalidate | discard | close | shutdown => exact hc.elim

/-- A connection that a task is to retire has been taken out of a slot that is still locked, unless
the slot was emptied whatever it held. -/
theorem close_or_vacant_of_doomed (he : c.IsElementary) (hr : c.Refers r)
    (h : c.grip.doomed = some d) :
    (∃ k, c = close k) ∨ ∃ target, r.target? d = some target ∧ c.grip.vacant = some target := by
  have hevict : ∀ {d' : ConnectionId} {v : Evict}, v.Refers r d' → (v.grip d').doomed = some d →
      ∃ target, r.target? d = some target ∧ (v.grip d').vacant = some target := by
    intro d' v hv hd
    cases v with
    | removed target | hidden target =>
      cases hd
      exact ⟨target, hv.2, rfl⟩
    | leaving target wasCached => cases wasCached <;> cases hd
    | start | queued => cases hd
  cases c with
  | acquire a => cases a <;> cases h
  | statement | closing => cases h
  | invalidate i =>
    cases i with
    | evicting d' v => exact .inr (hevict hr h)
    | closing => cases h
  | discard x => exact .inr (hevict hr h)
  | close k => exact .inl ⟨k, rfl⟩
  | execute | shutdown => exact he.elim

theorem vacant_of_doomed (hc : c.Executes) (hr : c.current.Refers r)
    (h : c.current.grip.doomed = some d) :
    ∃ target, r.target? d = some target ∧ c.current.grip.vacant = some target := by
  refine (close_or_vacant_of_doomed c.isElementary_current hr h).resolve_left fun ⟨k, hk⟩ => ?_
  cases c with
  | execute x => cases x <;> cases hk
  | acquire | closing => cases hk
  | statement | invalidate | discard | close | shutdown => exact hc.elim

end Call

/-- All that goes on is that statements are executed. -/
def World.Executing (w : World) : Prop := ∀ t c, w.call? t = some c → c.Executes

theorem Traffic.executing {xs : List Move} {w : World} (h : Traffic Call.IsExecution xs w) :
    w.Executing := by
  induction h with
  | quiet => simp [World.Executing, World.call?, World.activity?]
  | @call xs w c _ hmade hbegins ih =>
    intro t k hk
    rw [World.call?_spawn] at hk
    split at hk
    · cases hk
      cases hbegins with
      | execute => exact rfl
      | shutdown => exact hmade.elim
      | elementary hstarts =>
        cases hstarts with
        | acquire => trivial
        | statement | invalidate | discard | close => exact hmade.elim
    · exact ih t k hk
  | configure _ _ ih => exact ih
  | @move xs w w' t out res h hstep ih =>
    obtain ⟨c, s, hc, hs, rfl, -⟩ := h.orderly.step hstep
    intro u k hk
    by_cases hu : u = t
    · subst hu
      rw [World.call?_afterCall_self (World.lt_of_call? hc)] at hk
      have hnext := Call.step_executes hs (ih u c hc)
      cases hn : s.next with
      | stage c' =>
        rw [hn] at hnext hk
        cases hk
        exact hnext
      | done y =>
        rw [hn] at hk
        cases hk
    · rcases World.call?_afterCall_of_ne (s := s) (World.lt_of_call? hc) hu with
        heq | ⟨d, -, heq, -⟩
      · exact ih u k (heq.symm.trans hk)
      · cases heq.symm.trans hk
        trivial

/-- Where statements are executed, a task that has got the lock of a slot finds the connection there
that is not retired. -/
theorem World.Orderly.cached_of_holdsSlot {w : World} {t : TaskId} {c : ConnectionId}
    {target : Target} (hw : w.Orderly) (hx : w.Executing)
    (ht : w.standing (.slot target) t = .queued)
    (hlock : w.engine.router.holdsSlot target t = true)
    (hc : w.engine.router.target? c = some target) (hret : w.engine.router.isRetired c = false) :
    w.engine.router.cached target = some c := by
  refine (hw.doomed c target hc hret).resolve_right fun ⟨u, hu⟩ => ?_
  have hinside : w.standing (.slot target) u = .inside := by
    refine World.Orderly.inside_of_vacant ?_
    cases hk : w.call? u with
    | none => simp [grip, hk] at hu
    | some k =>
      rw [grip_of_call? hk] at hu ⊢
      obtain ⟨target', hc', hvacant⟩ := Call.vacant_of_doomed (hx u k hk) (hw.refers u k hk) hu
      rwa [Option.some.inj (hc.symm.trans hc')]
  have hsame : u = t := hw.eq_of_holds (l := .slot target) rfl (.inl hinside)
    (.inr (Semaphore.isHeldBy_iff.1 hlock))
  rw [hsame, ht] at hinside
  cases hinside

/-! ## What becomes of a poisoned connection -/

/-- A connection to a server whose statements take turns has been retired, or a task is still at a
call of some kind. -/
structure World.Unless (P : Call → Prop) (t : TaskId) (c : ConnectionId) (target : Target)
    (w : World) : Prop where
  belongs : w.engine.router.target? c = some target
  serialized : w.engine.router.serialized.get target = true
  state : w.engine.router.isRetired c = true ∨ ∃ k, w.call? t = some k ∧ P k

namespace World.Unless

variable {P : Call → Prop} {t u : TaskId} {c : ConnectionId} {target : Target} {w : World}
  {k : Call} {s : RouterStep Call CallResult} {ans : Option Answer}

theorem spawn (h : w.Unless P t c target) : (w.spawn [.call k]).Unless P t c target := by
  refine ⟨h.belongs, h.serialized, h.state.imp_right fun ⟨k', hk', hp⟩ => ⟨k', ?_, hp⟩⟩
  rw [call?_spawn, if_neg, hk']
  exact Nat.ne_of_lt (lt_of_call? hk')

/-- A step keeps it so, if the task's own steps do. -/
theorem afterCall (hw : w.Orderly) (h : w.Unless P t c target) (hk : w.call? u = some k)
    (hs : k.step u ans w.engine.router = some s)
    (hown : u = t → P k → s.router.isRetired c = false → ∃ k', s.next = .stage k' ∧ P k') :
    (w.afterCall u s).Unless P t c target := by
  have hmoves := hw.moves_of_step hk hs
  refine ⟨hmoves.target _ _ h.belongs, ?_, ?_⟩
  · rw [World.afterCall, engine_after, (hw.gripStep_of_step hk hs).serialized_eq]
    exact h.serialized
  · cases hret : s.router.isRetired c with
    | true => exact .inl hret
    | false =>
      obtain ⟨k', hk', hp⟩ := h.state.resolve_left fun hbefore => by
        rw [hmoves.retired _ _ h.belongs hbefore] at hret
        cases hret
      right
      by_cases hut : u = t
      · subst hut
        obtain rfl := Option.some.inj (hk.symm.trans hk')
        obtain ⟨k'', hnext, hp'⟩ := hown rfl hp hret
        refine ⟨k'', ?_, hp'⟩
        rw [call?_afterCall_self (lt_of_call? hk), hnext]
        rfl
      · refine ⟨k', ?_, hp⟩
        rcases call?_afterCall_of_ne (s := s) (lt_of_call? hk) (Ne.symm hut) with
          heq | ⟨d, -, -, hnone⟩
        · exact heq.trans hk'
        · rw [hk'] at hnone
          cases hnone

end World.Unless

/-- Who has the turn on a connection keeps others from starting a statement on it. -/
theorem World.Orderly.not_starts {w w' : World} {t u : TaskId} {c : ConnectionId} {target : Target}
    {out : Outside} {res : Option Result} (hw : w.Orderly)
    (hc : w.engine.router.target? c = some target)
    (hser : w.engine.router.serialized.get target = true)
    (ht : w.standing (.turn c) t = .inside) (h : w.step out u = some (w', res)) :
    w'.runs? u ≠ some c := by
  intro hruns
  obtain ⟨hqueued, hturn, -⟩ := hw.starts h hruns
  obtain ⟨σ, hσ⟩ := Option.isSome_iff_exists.1 (hw.turns c target hc hser)
  have hholds : u ∈ σ.holders := by
    rw [Router.semaphore?, Option.bind_eq_some_iff] at hσ
    obtain ⟨k, hk, hturn'⟩ := hσ
    simp only [Router.hasTurn, hk, hturn'] at hturn
    exact Semaphore.isHeldBy_iff.1 hturn
  have hsame : t = u := hw.eq_of_holds hσ (.inl ht) (.inr hholds)
  rw [hsame, hqueued] at ht
  cases ht

namespace Call

/-- A statement on a connection has failed in a way that may leave the connection unusable, and the
turn is still to be given back. -/
def Fails (c : ConnectionId) : Call → Prop
  | statement (.leaving d (.answered (.error e))) => d = c ∧ e.kind.poisons = true
  | _ => False

/-- A connection is to be taken out of its slot, or it was taken out, and is still to be retired. -/
def Evicts (c : ConnectionId) : Call → Prop
  | discard ⟨d, v⟩ | invalidate (.evicting d v) => d = c ∧ v.connection? = some c
  | _ => False

/-- The executor is about to give a connection up. -/
def Condemns (c : ConnectionId) (k : Call) : Prop :=
  k.Executes ∧ (k.current.Fails c ∨ k.current.Evicts c)

end Call

/-- Where the slot holds a connection as long as it is not retired, taking it out goes on until it
has been retired. -/
theorem Evict.step_evicts {t : TaskId} {r : Router} {c : ConnectionId} {v : Evict}
    {s : RouterStep Evict Bool} (h : v.step t r = some s) (hv : v.connection? = some c)
    (hrefers : v.Refers r c)
    (hlook : ∀ target, v.standing (.slot target) = .queued → r.target? c = some target →
      r.holdsSlot target t = true → r.isRetired c = false → r.cached target = some c)
    (hret : s.router.isRetired c = false) :
    ∃ v', s.next = .stage v' ∧ v'.connection? = some c := by
  cases does_of_step h with
  | ask | remove | hide => exact ⟨_, rfl, hv⟩
  | spare hlock hcached =>
    cases hv
    exact absurd (hlook _ (Standing.at_self _ _) hrefers.2 hlock hret) hcached
  | retire =>
    cases hv
    rw [Router.isRetired_retire_self] at hret
    cases hret
  | leave => cases hv

/-- The executor gives a connection up after a failure that may have left it unusable. -/
theorem Execute.conclude_evicts {c : ConnectionId} {e : DriverError} (he : e.kind.poisons = true)
    (limitMs : Nat) (target : Target) :
    ∃ x, conclude limitMs target c (.answered (.error e)) = .stage x ∧
      (Call.execute x).current.Evicts c := by
  by_cases htimeout : e.kind = .timeout
  · exact ⟨.discarding ⟨e.kind, e.text⟩ ⟨c, .start target c⟩, by simp [conclude, htimeout],
      rfl, rfl⟩
  · exact ⟨.invalidating ⟨e.kind, e.text⟩ (.evicting c (.start target c)),
      by simp [conclude, htimeout, he], rfl, rfl⟩

namespace Call

variable {k : Call} {c : ConnectionId} {t : TaskId} {ans : Option Answer} {r : Router}
  {s : RouterStep Call CallResult}

theorem eq_leaving_of_fails {q : Statement} (h : (statement q).Fails c) :
    ∃ e : DriverError, q = .leaving c (.answered (.error e)) ∧ e.kind.poisons = true := by
  cases q with
  | leaving d y =>
    cases y with
    | answered y =>
      cases y with
      | error e =>
        obtain ⟨rfl, he⟩ := h
        exact ⟨e, rfl, he⟩
      | ok rows => exact h.elim
    | elapsed | brokeDown => exact h.elim
  | start | queued | running | overdue => exact h.elim

/-- A call that is about to give the turn back still has it. -/
theorem standing_of_fails (h : k.current.Fails c) : k.current.standing (.turn c) = .inside := by
  cases hcurrent : k.current with
  | statement q =>
    rw [hcurrent] at h
    obtain ⟨e, rfl, -⟩ := eq_leaving_of_fails h
    exact Standing.at_self _ _
  | acquire | execute | invalidate | discard | close | shutdown | closing =>
    exact (hcurrent ▸ h).elim

/-- The executor goes on to give a connection up until the connection has been retired. -/
theorem step_evicts_or_fails {x : Execute} (h : (execute x).step t ans r = some s)
    (hcoheres : x.Coheres) (hx : (execute x).current.Fails c ∨ (execute x).current.Evicts c)
    (hrefers : (execute x).current.Refers r)
    (hlook : ∀ target, (execute x).current.standing (.slot target) = .queued →
      r.target? c = some target → r.holdsSlot target t = true → r.isRetired c = false →
        r.cached target = some c) (hret : s.router.isRetired c = false) :
    ∃ x', s.next = .stage (execute x') ∧
      ((execute x').current.Fails c ∨ (execute x').current.Evicts c) := by
  obtain ⟨s₁, hs₁, rfl⟩ := Option.map_eq_some_iff.1 h
  cases x with
  | first sql limitMs d q =>
    obtain ⟨s', hs', rfl⟩ := Option.map_eq_some_iff.1 hs₁
    obtain ⟨e, rfl, he⟩ := eq_leaving_of_fails (hx.resolve_right id)
    obtain rfl : c = d := hcoheres
    obtain ⟨target, htarget⟩ := hrefers
    cases hs'
    have htarget' : (r.releaseTurn c t).target? c = some target :=
      (Router.moves_releaseTurn none).target c target htarget
    obtain ⟨x', hx', hevicts⟩ := Execute.conclude_evicts he limitMs target
    have hnot : Execute.isRetried (r.releaseTurn c t) c (.answered (.error e)) = false := by
      have : (r.releaseTurn c t).isRetired c = false := hret
      simp [Execute.isRetried, this]
    refine ⟨x', ?_, .inr hevicts⟩
    simp only [RouterStep.within, Next.within, Execute.afterFirst, htarget', hnot,
      Bool.false_eq_true, if_false, hx']
  | second limitMs d q =>
    obtain ⟨s', hs', rfl⟩ := Option.map_eq_some_iff.1 hs₁
    obtain ⟨e, rfl, he⟩ := eq_leaving_of_fails (hx.resolve_right id)
    obtain rfl : c = d := hcoheres
    obtain ⟨target, htarget⟩ := hrefers
    cases hs'
    have htarget' : (r.releaseTurn c t).target? c = some target :=
      (Router.moves_releaseTurn none).target c target htarget
    obtain ⟨x', hx', hevicts⟩ := Execute.conclude_evicts he limitMs target
    refine ⟨x', ?_, .inr hevicts⟩
    simp only [RouterStep.within, Next.within, Execute.afterSecond, htarget', hx']
  | reconnecting sql limitMs a => exact (hx.elim id id).elim
  | discarding f d =>
    obtain ⟨s', hs', rfl⟩ := Option.map_eq_some_iff.1 hs₁
    obtain ⟨s'', hs'', rfl⟩ := Option.map_eq_some_iff.1 hs'
    obtain ⟨rfl, hv⟩ := hx.resolve_left id
    obtain ⟨v', hnext, hv'⟩ := Evict.step_evicts hs'' hv hrefers hlook hret
    exact ⟨.discarding f ⟨d.connection, v'⟩, by simp [RouterStep.within, Next.within, hnext],
      .inr ⟨rfl, hv'⟩⟩
  | invalidating f i =>
    obtain ⟨s', hs', rfl⟩ := Option.map_eq_some_iff.1 hs₁
    cases i with
    | closing => exact (hx.elim id id).elim
    | evicting d v =>
      obtain ⟨s'', hs'', rfl⟩ := Option.map_eq_some_iff.1 hs'
      obtain ⟨rfl, hv⟩ := hx.resolve_left id
      obtain ⟨v', hnext, hv'⟩ := Evict.step_evicts hs'' hv hrefers hlook hret
      exact ⟨.invalidating f (.evicting d v'), by simp [RouterStep.within, Next.within, hnext],
        .inr ⟨rfl, hv'⟩⟩

theorem Condemns.step (h : k.step t ans r = some s) (hk : k.Condemns c)
    (hrefers : k.current.Refers r)
    (hlook : ∀ target, k.current.standing (.slot target) = .queued →
      r.target? c = some target → r.holdsSlot target t = true → r.isRetired c = false →
        r.cached target = some c) (hret : s.router.isRetired c = false) :
    ∃ k', s.next = .stage k' ∧ k'.Condemns c := by
  obtain ⟨hexecutes, hstate⟩ := hk
  have hnext := step_executes h hexecutes
  cases k with
  | execute x =>
    obtain ⟨x', hx', hstate'⟩ := step_evicts_or_fails h hexecutes hstate hrefers hlook hret
    rw [hx'] at hnext
    exact ⟨.execute x', hx', hnext, hstate'⟩
  | acquire | closing => exact (hstate.elim id id).elim
  | statement | invalidate | discard | close | shutdown => exact hexecutes.elim

end Call

/-! ## The step that poisons -/

namespace World.Orderly

variable {w w' : World} {t : TaskId} {c : ConnectionId} {out : Outside} {res : Option Result}

/-- A statement that is answered leaves its task with the turn, which is still to be given back. -/
theorem stage_of_answered (hw : w.Orderly) (h : w.step out t = some (w', res))
    (hruns : w.runs? t = some c) : ∃ k q, w'.call? t = some k ∧ k.current = .statement q ∧
      (out.answer = some .elapsed → q = .overdue c) ∧
      ∀ e, out.answer = some (.failed e) → q = .leaving c (.answered (.error e)) := by
  obtain ⟨k, hk, hrunning⟩ := hw.runs?_eq_some hruns
  obtain ⟨k₀, s, hk₀, hs, rfl, -⟩ := hw.step h
  obtain rfl := Option.some.inj (hk.symm.trans hk₀)
  obtain ⟨sql, limitMs, hcurrent⟩ := Call.eq_running_of_runs? k.isElementary_current hrunning
  obtain ⟨s', hs', -, -, hgo⟩ := Call.step_current hs (hw.refers t k hk) hw.coherent
  rw [hcurrent] at hs'
  obtain ⟨s'', hs'', rfl⟩ := Option.map_eq_some_iff.1 hs'
  have hgo' : ∀ q, s''.next = .stage q → ∃ k', (w.afterCall t s).call? t = some k' ∧
      k'.current = .statement q := fun q hq => by
    rw [RouterStep.within, hq] at hgo
    obtain ⟨k', hnext, hk'⟩ := hgo
    refine ⟨k', ?_, hk'⟩
    rw [call?_afterCall_self (lt_of_call? hk), hnext]
    rfl
  have hq : ∃ q, s''.next = .stage q ∧ (out.answer = some .elapsed → q = .overdue c) ∧
      ∀ e, out.answer = some (.failed e) → q = .leaving c (.answered (.error e)) := by
    cases Statement.does_of_step hs'' with
    | rows hanswer | fail hanswer | elapse hanswer | breakDown hanswer => simp [hanswer]
  obtain ⟨q, hnext, helapsed, hfailed⟩ := hq
  obtain ⟨k', hk', hq'⟩ := hgo' q hnext
  exact ⟨k', q, hk', hq', helapsed, hfailed⟩

end World.Orderly

namespace Traffic

variable {xs ys : List Move} {w : World} {x y : Move} {t : TaskId} {c : ConnectionId}
  {target : Target}

/-- Nothing is forgotten of a connection, nor of how statements on it are run. -/
theorem kept {made : Call → Prop} (h : Traffic made (xs ++ x :: ys) w) :
    w.engine.router.serialized = x.before.engine.router.serialized ∧
      x.before.engine.router.Extends w.engine.router := by
  obtain ⟨hbefore, hstep⟩ := h.of_append
  have hone : ∀ {zs v v' t out res}, Traffic made zs v → v.step out t = some (v', res) →
      v'.engine.router.serialized = v.engine.router.serialized ∧
        v.engine.router.Extends v'.engine.router := fun hz hstep => by
    obtain ⟨k, s, hk, hs, rfl, -⟩ := hz.orderly.step hstep
    exact ⟨(hz.orderly.gripStep_of_step hk hs).serialized_eq,
      (hz.orderly.moves_of_step hk hs).extends⟩
  refine (h.induction_from (P := fun v =>
    v.engine.router.serialized = x.before.engine.router.serialized ∧
      x.before.engine.router.Extends v.engine.router) (hone hbefore hstep) (fun _ hv => hv)
    (fun _ hv => ⟨hv.1, hv.2.trans ⟨fun _ _ h => h, fun _ _ _ h => h⟩⟩) fun hz hv hstep => ?_).2
  exact ⟨(hone hz hstep).1.trans hv.1, hv.2.trans (hone hz hstep).2⟩

/-- Where the own steps of a task keep it at calls of some kind until the connection is retired, the
task is at such a call, or the connection is retired, from then on. -/
theorem unless_before {made P : Call → Prop} (h : Traffic made (xs ++ x :: ys) w)
    (hx : x.after.Unless P t c target)
    (hown : ∀ {zs v k s out}, Traffic made zs v → v.call? t = some k →
      k.step t out v.engine.router = some s → P k → s.router.isRetired c = false →
        ∃ k', s.next = .stage k' ∧ P k') (hy : y ∈ ys) :
    y.before.Unless P t c target := by
  refine (h.induction_from hx (fun _ => .spawn)
    (fun _ hv => ⟨hv.belongs, hv.serialized, hv.state⟩) fun {zs v v' u out res} hz hv hstep => ?_).1
    y hy
  obtain ⟨k, s, hk, hs, rfl, -⟩ := hz.orderly.step hstep
  refine hv.afterCall hz.orderly hk hs fun hut => ?_
  subst hut
  exact hown hz hk hs

/-- A task whose statement's time is over retires the connection with its next step. -/
theorem unless_overdue {made : Call → Prop} (h : Traffic made (xs ++ x :: ys) w)
    (hx : x.after.Unless (fun k => k.current = .statement (.overdue c)) t c target)
    (hy : y ∈ ys) :
    y.before.Unless (fun k => k.current = .statement (.overdue c)) t c target := by
  refine h.unless_before hx (fun {zs v k s out} hz hk hs hoverdue hret => ?_) hy
  obtain ⟨s', hs', hrouter, -⟩ := Call.step_current hs (hz.orderly.refers _ k hk)
    hz.orderly.coherent
  rw [hoverdue] at hs'
  cases hs'
  have hretired : (v.engine.router.retire c).isRetired c = false := by
    rw [← hrouter] at hret
    exact hret
  rw [Router.isRetired_retire_self] at hretired
  cases hretired

/-- The executor goes on to give a connection up until the connection has been retired. -/
theorem unless_condemned (h : Traffic Call.IsExecution (xs ++ x :: ys) w)
    (hx : x.after.Unless (Call.Condemns c) t c target) (hy : y ∈ ys) :
    y.before.Unless (Call.Condemns c) t c target := by
  refine h.unless_before hx (fun {zs v k s out} hz hk hs hcondemns hret => ?_) hy
  refine hcondemns.step hs (hz.orderly.refers _ k hk) (fun _ hqueued hu hlock hfresh => ?_) hret
  refine hz.orderly.cached_of_holdsSlot hz.executing ?_ hlock hu hfresh
  rw [World.standing_of_call? hk, hqueued]

/-- A statement is started on a connection only while the connection is not retired, and while
nobody has the turn on it. -/
theorem of_starts {made : Call → Prop} {P : Call → Prop} (h : Traffic made xs w) (hy : y ∈ xs)
    (hstarts : y.Starts c) (hu : y.before.Unless P t c target) :
    ∃ k, y.before.call? t = some k ∧ P k ∧ k.current.standing (.turn c) ≠ .inside := by
  obtain ⟨zs, hzs, hstep⟩ := h.of_mem hy
  have hfresh := (hzs.orderly.starts hstep hstarts.2).2.2
  obtain ⟨k, hk, hp⟩ := hu.state.resolve_left (by simp [hfresh])
  refine ⟨k, hk, hp, fun hinside => ?_⟩
  rw [← World.standing_of_call? hk] at hinside
  exact hzs.orderly.not_starts hu.belongs hu.serialized hinside hstep hstarts.2

/-- A statement is started after another one has poisoned the connection only while the executor is
giving the connection up. -/
theorem evicts_of_starts (h : Traffic Call.IsExecution (xs ++ x :: ys) w)
    (hc : w.engine.router.target? c = some target)
    (hser : w.engine.router.serialized.get target = true) (hx : x.Poisons c)
    (hy : y ∈ ys) (hstarts : y.Starts c) :
    (∃ e, x.outside.answer = some (.failed e)) ∧
      ∃ k, y.before.call? x.task = some k ∧ k.current.Evicts c := by
  obtain ⟨hbefore, hstep⟩ := h.of_append
  obtain ⟨hruns, hpoisons⟩ := hx
  obtain ⟨k, q, hk, hq, helapsed, hfailed⟩ := hbefore.orderly.stage_of_answered hstep hruns
  have hy' : y ∈ xs ++ x :: ys := List.mem_append_right xs (List.mem_cons_of_mem x hy)
  have hafter : Traffic Call.IsExecution (xs ++ [x]) x.after := hbefore.move hstep
  have hunless : ∀ {P : Call → Prop}, P k → x.after.Unless P x.task c target := fun hp => by
    obtain ⟨u, hu⟩ := hbefore.orderly.target?_of_runs? hruns
    obtain rfl := Option.some.inj ((h.kept.2.target c u hu).symm.trans hc)
    exact ⟨hafter.kept.2.target c u hu, by rwa [hafter.kept.1, ← h.kept.1], .inr ⟨k, hk, hp⟩⟩
  cases hanswer : x.outside.answer with
  | none => simp [hanswer] at hpoisons
  | some ans =>
    rw [hanswer, Option.any_some] at hpoisons
    cases ans with
    | elapsed =>
      obtain rfl := helapsed hanswer
      obtain ⟨k', -, hoverdue, hturn⟩ := h.of_starts hy' hstarts (h.unless_overdue (hunless hq) hy)
      rw [hoverdue] at hturn
      exact absurd (Standing.at_self _ _) hturn
    | failed e =>
      obtain rfl := hfailed e hanswer
      have hcondemns : k.Condemns c :=
        ⟨hafter.executing _ k hk, .inl (by rw [hq]; exact ⟨rfl, hpoisons⟩)⟩
      obtain ⟨k', hk', ⟨-, hfails | hevicts⟩, hturn⟩ :=
        h.of_starts hy' hstarts (h.unless_condemned (hunless hcondemns) hy)
      · exact absurd (Call.standing_of_fails hfails) hturn
      · exact ⟨⟨e, rfl⟩, k', hk', hevicts⟩
    | connected | refused | rows | brokeDown | closed => cases hpoisons

/-- **A poisoned connection is reused only while it is being given up.** Where statements are
executed on a server and take turns, a statement is started on a connection on which another one has
ended in a timeout, or as the connection failed, only if it was the driver that reported the
failure, and its task has not yet retired the connection, which it is to take out of the slot. -/
theorem reused_only_while_evicting (h : Traffic Call.IsExecution xs w)
    (hc : w.engine.router.target? c = some target)
    (hser : w.engine.router.serialized.get target = true) :
    xs.Pairwise fun x y => x.Poisons c → y.Starts c →
      (∃ e, x.outside.answer = some (.failed e)) ∧
        ∃ k, y.before.call? x.task = some k ∧ k.current.Evicts c := by
  refine List.pairwise_iff_forall_sublist.2 fun {x y} hxy hx hy => ?_
  obtain ⟨front, rest, rfl, hfront, hrest⟩ := List.cons_sublist_iff.1 hxy
  obtain ⟨xs, ys, rfl⟩ := List.append_of_mem hfront
  rw [List.append_assoc, List.cons_append] at h
  exact h.evicts_of_starts hc hser hx
    (List.mem_append_right ys (List.singleton_sublist.1 hrest)) hy

end Traffic

namespace Cue

/-- Whether it is a step, or a call to execute a statement or to acquire a connection to do so. -/
def isExecution : Cue → Bool
  | acquire _ | execute _ _ _ | move _ _ => true
  | _ => false

theorem isExecution_of_call? {q : Cue} {r : Router} {c : Call} (hq : q.isExecution = true)
    (h : q.call? r = some c) : c.IsExecution := by
  cases q with
  | acquire target =>
    cases h
    trivial
  | execute d sql limitMs =>
    obtain ⟨target, -, rfl⟩ := Option.map_eq_some_iff.1 h
    trivial
  | move => cases h
  | query | invalidate | discard | close | shutdown => cases hq

/-- The time of a statement runs out, and its connection is given up. Two more are to be executed,
and both tasks ask for a new connection: one gets it, its statement ends in a timeout of the driver,
and then it has to wait for the slot, which the other one has locked by then. -/
def reuse : List Cue :=
  [.acquire .relational, .move 0 none, .move 0 none, .move 0 (some .connected),
    .execute 0 "first" 1000, .move 1 none, .move 1 none, .move 1 (some .elapsed), .move 1 none,
    .move 2 (some .closed),
    .execute 0 "second" 1000, .execute 0 "third" 1000, .move 3 none, .move 3 none, .move 3 none,
    .move 4 none, .move 4 none, .move 3 (some .connected), .move 3 none,
    .move 3 (some (.failed ⟨.timeout, none, some "query timeout expired"⟩)), .move 4 none,
    .move 4 none]

theorem isExecution_of_mem_reuse {q : Cue} (hq : q ∈ reuse) : q.isExecution = true := by
  revert q
  decide

end Cue

set_option maxRecDepth 20000 in
theorem Traffic.reused_only_while_evicting_waiting :
    let p := Router.relationalOnly.enactStretches Cue.reuse
    ∃ x ∈ p.1, ∃ y ∈ p.1, x.Poisons 1 ∧ y.Starts 1 ∧
      ∃ k, y.before.call? x.task = some k ∧ k.current.Evicts 1 := by
  intro p
  have htraffic : Cooperative Call.IsExecution p.1 p.2 :=
    .enact rfl rfl fun q hq r c => Cue.isExecution_of_call? (Cue.isExecution_of_mem_reuse hq)
  have htarget : p.2.engine.router.target? 1 = some .relational := by decide
  have hpairs := htraffic.traffic.reused_only_while_evicting htarget (by decide)
  have hreused : ∃ x y, [x, y].Sublist p.1 ∧ x.Poisons 1 ∧ y.Starts 1 := by
    by_contra hnone
    have hpairwise : p.1.Pairwise fun x y => x.Poisons 1 → ¬ y.Starts 1 :=
      List.pairwise_iff_forall_sublist.2 fun hxy hx hy => hnone ⟨_, _, hxy, hx, hy⟩
    exact absurd hpairwise (by decide)
  obtain ⟨x, y, hxy, hx, hy⟩ := hreused
  exact ⟨x, hxy.mem (by simp), y, hxy.mem (by simp), hx, hy,
    (List.pairwise_iff_forall_sublist.1 hpairs hxy hx hy).2⟩

set_option maxRecDepth 20000 in
/-- A poisoned connection is reused even if tasks give way only where they wait. -/
theorem Cooperative.reused :
    let p := Router.relationalOnly.enactStretches Cue.reuse
    Cooperative Call.IsExecution p.1 p.2 ∧ p.2.engine.router.target? 1 = some .relational ∧
      p.2.engine.router.serialized.get .relational = true ∧
        ¬ p.1.Pairwise fun x y => x.Poisons 1 → ¬ y.Starts 1 := by
  refine ⟨.enact rfl rfl fun q hq r c => Cue.isExecution_of_call? ?_, by decide⟩
  exact Cue.isExecution_of_mem_reuse hq

end MetricBoard
