import MetricBoard.Proofs.Router.Stretches

/-!
# The phase of a slot

Whoever changes what a slot holds stores the slot's phase thereafter, and owes it in between
(`Debt`). There are only a few ways in which a step can change a debt, the phase and what the slot
holds (`PhaseStep`), and each elementary call is shown once to make no others.

A debt is paid under the lock of the slot, with one exception: the lock is given back before the
phase of a slot that was emptied is stored (`World.Late`). If no other task takes a step in between
(`Move.Prompt`), at most one task owes the phase of a slot, and the phase tells what the slot holds
and whether a connection is being opened for it (`Traffic.phase_tells`). Tasks that give way only
where they wait are prompt (`Cooperative.prompt`).

In other traffic a phase may be stored late, over a newer one: a slot may be said to be empty when it
is not (`Traffic.exists_late_phase`). It is never said to hold a connection when it does not, nor
that one is being opened when there is none (`Traffic.phase_sound`).
-/

namespace MetricBoard

/-- How a call stands to the phase of a slot. -/
inductive Debt where
  /-- It owes nothing. -/
  | clear
  /-- The slot is empty, and the phase is still to be stored. -/
  | emptied
  /-- The slot is empty, and its phase says that a connection is being opened. -/
  | connecting
  /-- The slot holds a new connection, and its phase says that it is being opened. -/
  | opened
  deriving DecidableEq, Repr

namespace Debt

/-- A debt to one slot and to no other. -/
def at_ (d : Debt) (target u : Target) : Debt := if u = target then d else clear

@[simp] theorem at_self (d : Debt) (target : Target) : d.at_ target target = d := if_pos rfl

@[simp] theorem clear_at (target u : Target) : clear.at_ target u = clear := ite_self _

theorem eq_of_at_ne {d : Debt} {target u : Target} (h : d.at_ target u ≠ clear) : u = target :=
  Decidable.byContradiction fun hne => h (if_neg hne)

/-- What a slot is like, by its phase and what it holds, as long as a call owes this debt. -/
def Fits : Debt → Phase → Option ConnectionId → Prop
  | clear, phase, cached => phase = if cached.isSome then .ready else .absent
  | emptied, _, cached => cached = none
  | connecting, phase, cached => phase = .connecting ∧ cached = none
  | opened, phase, cached => phase = .connecting ∧ cached.isSome = true

end Debt

/-- What a task owes to a slot at a stage. -/
def Acquire.debt : Acquire → Target → Debt
  | empty target _ => Debt.emptied.at_ target
  | connecting target _ | refused target _ => Debt.connecting.at_ target
  | cached target _ => Debt.opened.at_ target
  | start _ | queued _ _ | leaving _ _ => fun _ => .clear

/-- What a task owes to a slot at a stage. -/
def Evict.debt : Evict → Target → Debt
  | removed target _ => Debt.emptied.at_ target
  | start _ _ | queued _ _ | hidden _ _ | leaving _ _ => fun _ => .clear

/-- What a task owes to a slot at a stage. -/
def Close.debt : Close → Target → Debt
  | removed target _ | released target _ => Debt.emptied.at_ target
  | start _ | queued _ | hidden _ | closing _ => fun _ => .clear

/-- What a task owes to a slot that is at an elementary call. -/
def Call.debt : Call → Target → Debt
  | acquire a => a.debt
  | invalidate (.evicting _ v) => v.debt
  | discard d => d.evict.debt
  | close k => k.debt
  | statement _ | execute _ | invalidate (.closing _) | shutdown _ | closing _ => fun _ => .clear

theorem Call.Starts.debt {r : Router} {c : Call} (h : Starts r c) (u : Target) :
    c.debt u = .clear := by
  cases h <;> rfl

/-! ## Steps -/

/-- What a step of task `t` does to what it owes to the slot of `u`, and to the slot. -/
inductive PhaseStep (t : TaskId) (r r' : Router) (u : Target) : Debt → Debt → Prop
  | stay (d : Debt) : r'.phase u = r.phase u → r'.cached u = r.cached u → PhaseStep t r r' u d d
  /-- The slot is found empty, or emptied. -/
  | empty : r.holdsSlot u t = true → r'.phase u = r.phase u → r'.cached u = none →
    PhaseStep t r r' u .clear .emptied
  /-- It is said that a connection is being opened. -/
  | announce : r'.phase u = .connecting → r'.cached u = r.cached u →
    PhaseStep t r r' u .emptied .connecting
  | open_ : r'.phase u = r.phase u → (r'.cached u).isSome = true →
    PhaseStep t r r' u .connecting .opened
  | ready : r'.phase u = .ready → r'.cached u = r.cached u → PhaseStep t r r' u .opened .clear
  | absent (d : Debt) : d = .emptied ∨ d = .connecting → r'.phase u = .absent →
    r'.cached u = r.cached u → PhaseStep t r r' u d .clear

namespace Router

variable {r : Router} {target u : Target}

theorem phase_onSlot_of_ne (f : Slot → Slot) (h : u ≠ target) :
    (r.onSlot target f).phase u = r.phase u := by
  rw [phase, phase, onSlot, PerTarget.get_modify_of_ne _ _ h]

theorem cached_onSlot_of_ne (f : Slot → Slot) (h : u ≠ target) :
    (r.onSlot target f).cached u = r.cached u := by
  rw [cached_onSlot, if_neg h]

end Router

namespace PhaseStep

variable {t : TaskId} {r r' : Router} {u target : Target} {d d' : Debt}

theorem refl (r : Router) (d : Debt) : PhaseStep t r r u d d := .stay d rfl rfl

/-- A step that changes one slot at most is a step for each. -/
theorem at_ (h : PhaseStep t r r' target d d')
    (hother : u ≠ target → r'.phase u = r.phase u ∧ r'.cached u = r.cached u) :
    PhaseStep t r r' u (d.at_ target u) (d'.at_ target u) := by
  by_cases hu : u = target
  · rw [hu, Debt.at_self, Debt.at_self]
    exact h
  · rw [Debt.at_, if_neg hu, Debt.at_, if_neg hu]
    exact .stay _ (hother hu).1 (hother hu).2

theorem onSlot {f : Slot → Slot} (h : PhaseStep t r (r.onSlot target f) target d d') :
    PhaseStep t r (r.onSlot target f) u (d.at_ target u) (d'.at_ target u) :=
  h.at_ fun hu => ⟨Router.phase_onSlot_of_ne f hu, Router.cached_onSlot_of_ne f hu⟩

/-- A step that changes only the lock of a slot, or nothing of it. -/
theorem keep {f : Slot → Slot} (hphase : ∀ s, (f s).phase = s.phase)
    (hcached : ∀ s, (f s).cached = s.cached) (d : Debt) :
    PhaseStep t r (r.onSlot target f) u d d :=
  .stay d (Router.phase_onSlot hphase u) ((Router.still_onSlot hcached).cached u)

theorem requestSlot (d : Debt) : PhaseStep t r (r.requestSlot target t) u d d :=
  .keep (f := fun s => { s with lock := s.lock.request t }) (fun _ => rfl) (fun _ => rfl) d

theorem releaseSlot (d : Debt) : PhaseStep t r (r.releaseSlot target t) u d d :=
  .keep (f := fun s => { s with lock := s.lock.release t }) (fun _ => rfl) (fun _ => rfl) d

/-- A slot is emptied by the task that has its lock. -/
theorem setCached_none (h : r.holdsSlot target t = true) :
    PhaseStep t r (r.setCached target none) u .clear (Debt.emptied.at_ target u) := by
  rw [← Debt.clear_at target u]
  refine .onSlot (.empty h ?_ ?_)
  · exact Router.phase_onSlot (f := fun s => { s with cached := none }) (fun _ => rfl) target
  · rw [Router.cached_onSlot, if_pos rfl]

/-- A phase that is owed is stored. -/
theorem setPhase {phase : Phase}
    (h : (r.setPhase target phase).phase target = phase →
      (r.setPhase target phase).cached target = r.cached target →
        PhaseStep t r (r.setPhase target phase) target d d') :
    PhaseStep t r (r.setPhase target phase) u (d.at_ target u) (d'.at_ target u) :=
  .onSlot (h (Router.phase_setPhase phase) ((Router.still_setPhase phase).cached target))

theorem setPhase_absent (h : d = .emptied ∨ d = .connecting) :
    PhaseStep t r (r.setPhase target .absent) u (d.at_ target u) .clear := by
  rw [← Debt.clear_at target u]
  exact .setPhase (.absent d h)

theorem setPhase_ready :
    PhaseStep t r (r.setPhase target .ready) u (Debt.opened.at_ target u) .clear := by
  rw [← Debt.clear_at target u]
  exact .setPhase .ready

/-- **A slot that fits what a task owes fits what it owes after its step.** -/
theorem fits (h : PhaseStep t r r' u d d') (hd : d.Fits (r.phase u) (r.cached u)) :
    d'.Fits (r'.phase u) (r'.cached u) := by
  cases h with
  | stay _ hphase hcached => rwa [hphase, hcached]
  | empty _ _ hcached => exact hcached
  | announce hphase hcached => exact ⟨hphase, hcached.trans hd⟩
  | open_ hphase hcached => exact ⟨hphase.trans hd.1, hcached⟩
  | ready hphase hcached =>
    rw [Debt.Fits, hphase, hcached, if_pos hd.2]
  | absent _ hor hphase hcached =>
    have hnone : r.cached u = none := by
      rcases hor with rfl | rfl
      · exact hd
      · exact hd.2
    rw [Debt.Fits, hphase, hcached, hnone]
    rfl

end PhaseStep

variable {t : TaskId} {ans : Option Answer} {r : Router}

theorem Acquire.step_debt {a : Acquire}
    {s : RouterStep Acquire (Except AcquireError ConnectionId)} (u : Target)
    (h : a.step t ans r = some s) :
    PhaseStep t r s.router u (a.debt u) (s.next.view (debt · u) .clear) := by
  cases does_of_step h with
  | ask => exact .requestSlot _
  | unconfigured | reuse | refuse => exact .refl _ _
  | drop hheld => exact .setCached_none hheld
  | @miss target _ hheld hnone =>
    change PhaseStep t r r u .clear (Debt.emptied.at_ target u)
    rw [← Debt.clear_at target u]
    exact .at_ (.empty hheld rfl hnone) fun _ => ⟨rfl, rfl⟩
  | announce => exact .setPhase .announce
  | @connect target =>
    refine .at_ (.open_ ?_ ?_) fun hu =>
      ⟨Router.phase_onSlot_of_ne _ hu, Router.cached_onSlot_of_ne _ hu⟩
    · exact Router.phase_onSlot (r := r.addConnection target)
        (f := fun s => { s with cached := some r.connections.length }) (fun _ => rfl) target
    · rw [Router.cached_setCached, if_pos rfl]
      rfl
  | ready => exact .setPhase_ready
  | giveUp => exact .setPhase_absent (.inr rfl)
  | leave => exact .releaseSlot _

theorem Statement.step_debt {q : Statement} {s : RouterStep Statement StatementResult} (u : Target)
    (h : q.step t ans r = some s) : PhaseStep t r s.router u .clear .clear := by
  cases does_of_step h with
  | discard | run | rows | fail | elapse | breakDown => exact .refl _ _
  | ask | retire | leave => exact .stay _ rfl rfl

theorem Evict.step_debt {v : Evict} {s : RouterStep Evict Bool} (u : Target)
    (h : v.step t r = some s) :
    PhaseStep t r s.router u (v.debt u) (s.next.view (debt · u) .clear) := by
  cases does_of_step h with
  | ask => exact .requestSlot _
  | remove hheld => exact .setCached_none hheld
  | spare => exact .refl _ _
  | hide => exact .setPhase_absent (.inl rfl)
  | retire => exact .stay _ rfl rfl
  | leave => exact .releaseSlot _

theorem Invalidate.step_debt {i : Invalidate} {s : RouterStep Invalidate Bool} (u : Target)
    (h : i.step t ans r = some s) :
    PhaseStep t r s.router u ((Call.invalidate i).debt u)
      (s.next.view (fun i => (Call.invalidate i).debt u) .clear) := by
  cases i with
  | evicting c v =>
    obtain ⟨s', hs', rfl⟩ := Option.map_eq_some_iff.1 h
    have hdebt := Evict.step_debt u hs'
    simp only [RouterStep.within]
    cases hn : s'.next with
    | stage v' =>
      rw [hn] at hdebt
      exact hdebt
    | done wasCached =>
      rw [hn] at hdebt
      cases wasCached <;> exact hdebt
  | closing c =>
    obtain rfl := eq_of_closing h
    exact .refl _ _

theorem Discard.step_debt {d : Discard} {s : RouterStep Discard Bool} (u : Target)
    (h : d.step t r = some s) :
    PhaseStep t r s.router u (d.evict.debt u) (s.next.view (fun d => d.evict.debt u) .clear) := by
  obtain ⟨s', hs', rfl⟩ := Option.map_eq_some_iff.1 h
  have hdebt := Evict.step_debt u hs'
  simp only [RouterStep.within]
  cases hn : s'.next <;> rw [hn] at hdebt <;> exact hdebt

theorem Close.step_debt {k : Close} {s : RouterStep Close Unit} (u : Target)
    (h : k.step t ans r = some s) :
    PhaseStep t r s.router u (k.debt u) (s.next.view (debt · u) .clear) := by
  cases does_of_step h with
  | ask => exact .requestSlot _
  | empty hheld => exact .setCached_none hheld
  | unlock => exact .releaseSlot _
  | hide | finish => exact .setPhase_absent (.inl rfl)
  | retire => exact .stay _ rfl rfl
  | close => exact .refl _ _

namespace Call

variable {c : Call} {s : RouterStep Call CallResult}

theorem step_debt (u : Target) (h : c.step t ans r = some s) (he : c.IsElementary) :
    PhaseStep t r s.router u (c.debt u) (s.next.view (debt · u) .clear) := by
  cases c with
  | acquire a =>
    obtain ⟨s', hs', rfl⟩ := Option.map_eq_some_iff.1 h
    rw [RouterStep.within, Next.view_within_done]
    exact Acquire.step_debt u hs'
  | statement q =>
    obtain ⟨s', hs', rfl⟩ := Option.map_eq_some_iff.1 h
    rw [RouterStep.within, Next.view_within_done]
    have hdebt := Statement.step_debt u hs'
    cases hn : s'.next <;> exact hdebt
  | invalidate i =>
    obtain ⟨s', hs', rfl⟩ := Option.map_eq_some_iff.1 h
    rw [RouterStep.within, Next.view_within_done]
    exact Invalidate.step_debt u hs'
  | discard d =>
    obtain ⟨s', hs', rfl⟩ := Option.map_eq_some_iff.1 h
    rw [RouterStep.within, Next.view_within_done]
    exact Discard.step_debt u hs'
  | close k =>
    obtain ⟨s', hs', rfl⟩ := Option.map_eq_some_iff.1 h
    rw [RouterStep.within, Next.view_within_done]
    exact Close.step_debt u hs'
  | closing d =>
    obtain rfl := eq_of_closing h
    exact .refl _ _
  | execute | shutdown => exact he.elim

/-- **What a step does to the phase of a slot.** -/
theorem debt_of_step (u : Target) (h : c.step t ans r = some s) (hc : c.current.Refers r)
    (hr : r.Coherent) :
    PhaseStep t r s.router u (c.current.debt u)
      (s.next.view (fun c => c.current.debt u) .clear) := by
  obtain ⟨s', hs', hrouter, -, hgo⟩ := step_current h hc hr
  have hdebt := step_debt u hs' c.isElementary_current
  rwa [hrouter, ← hgo.view_eq fun _ hs => hs.debt u] at hdebt

/-- A slot that was emptied is not locked any more, and its phase is still to be stored. -/
def IsLate (c : Call) (u : Target) : Prop := ∃ o, c = .close (.released u o)

/-- A phase is owed by the task that has the lock of the slot, or late. -/
theorem inside_or_isLate {u : Target} (h : c.debt u ≠ .clear) :
    c.standing (.slot u) = .inside ∨ c.IsLate u := by
  have hevict : ∀ {v : Evict}, v.debt u ≠ .clear → v.standing (.slot u) = .inside := by
    intro v hv
    cases v with
    | removed =>
      obtain rfl := Debt.eq_of_at_ne hv
      exact Standing.at_self _ _
    | start | queued | hidden | leaving => exact absurd rfl hv
  cases c with
  | acquire a =>
    cases a with
    | empty | connecting | refused | cached =>
      obtain rfl := Debt.eq_of_at_ne h
      exact .inl (Standing.at_self _ _)
    | start | queued | leaving => exact absurd rfl h
  | invalidate i =>
    cases i with
    | evicting d v => exact .inl (hevict h)
    | closing => exact absurd rfl h
  | discard d => exact .inl (hevict h)
  | close k =>
    cases k with
    | removed =>
      obtain rfl := Debt.eq_of_at_ne h
      exact .inl (Standing.at_self _ _)
    | released target o =>
      obtain rfl := Debt.eq_of_at_ne h
      exact .inr ⟨o, rfl⟩
    | start | queued | hidden | closing => exact absurd rfl h
  | statement | execute | shutdown | closing => exact absurd rfl h

theorem debt_of_isLate {u : Target} (h : c.IsLate u) : c.debt u = .emptied := by
  obtain ⟨o, rfl⟩ := h
  exact Debt.at_self _ _

end Call

namespace World

variable {w : World} {u : Target} {v : TaskId} {c : Call} {s : RouterStep Call CallResult}

/-- What a task owes to a slot. -/
def debt (w : World) (u : Target) (t : TaskId) : Debt :=
  (w.call? t).elim .clear fun c => c.current.debt u

/-- A task has emptied a slot and unlocked it, and is still to store its phase. -/
def Late (w : World) (u : Target) (t : TaskId) : Prop :=
  ∃ c, w.call? t = some c ∧ c.current.IsLate u

theorem debt_of_call? (h : w.call? t = some c) : w.debt u t = c.current.debt u := by
  rw [debt, h, Option.elim_some]

theorem inside_or_late (h : w.debt u t ≠ .clear) :
    w.standing (.slot u) t = .inside ∨ w.Late u t := by
  cases hc : w.call? t with
  | none => simp [debt, hc] at h
  | some c =>
    rw [debt_of_call? hc] at h
    rw [standing_of_call? hc]
    exact (Call.inside_or_isLate h).imp_right fun hl => ⟨c, hc, hl⟩

theorem debt_of_late (h : w.Late u t) : w.debt u t = .emptied := by
  obtain ⟨c, hc, hl⟩ := h
  rw [debt_of_call? hc]
  exact Call.debt_of_isLate hl

/-- A task that opens a connection has said so. -/
theorem debt_of_connect {p : ConnectionParameters} (hw : w.Orderly)
    (h : w.request? t = some (.connect u p)) : w.debt u t = .connecting := by
  rw [hw.request?_eq, Option.bind_eq_some_iff] at h
  obtain ⟨c, hc, hreq⟩ := h
  rw [debt_of_call? hc]
  have he := c.isElementary_current
  cases hk : c.current with
  | acquire a =>
    rw [hk] at hreq
    cases a with
    | connecting =>
      cases hreq
      exact Debt.at_self _ _
    | start | queued | empty | cached | refused | leaving => cases hreq
  | statement q =>
    rw [hk] at hreq
    cases q <;> cases hreq
  | invalidate i =>
    rw [hk] at hreq
    cases i <;> cases hreq
  | close k =>
    rw [hk] at hreq
    cases k <;> cases hreq
  | discard | closing =>
    rw [hk] at hreq
    cases hreq
  | execute | shutdown =>
    rw [hk] at he
    exact he.elim

section Step

variable (hw : w.Orderly) (hc : w.call? t = some c)
  (hs : c.step t ans w.engine.router = some s)
include hc

theorem debt_afterCall_of_ne (hv : v ≠ t) : (w.afterCall t s).debt u v = w.debt u v := by
  rcases call?_afterCall_of_ne (lt_of_call? hc) hv with h | ⟨d, -, h, hnone⟩
  · rw [debt, debt, h]
  · rw [debt, debt, h, hnone]
    rfl

include hw hs

theorem phaseStep_of_step (u : Target) :
    PhaseStep t w.engine.router s.router u (w.debt u t) ((w.afterCall t s).debt u t) := by
  have hstep := Call.debt_of_step u hs (hw.refers t c hc) hw.coherent
  rw [debt_of_call? hc, debt, call?_afterCall_self (lt_of_call? hc)]
  cases hn : s.next <;> rw [hn] at hstep <;> exact hstep

end Step

theorem debt_spawn (hc : c.Begins w.engine.router) : (w.spawn [.call c]).debt u v = w.debt u v := by
  rw [debt, debt, call?_spawn]
  split
  · rename_i hv
    rw [hv, call?_length, Option.elim_some, hc.starts.debt]
    rfl
  · rfl

/-- Nobody else can take the lock of a slot as long as a task owes its phase, unless it is late. -/
theorem Orderly.eq_of_holdsSlot (hw : w.Orderly) (hheld : w.engine.router.holdsSlot u t = true)
    (hv : w.debt u v ≠ .clear) (hlate : w.Late u v → v = t) : v = t := by
  rcases inside_or_late hv with hin | hl
  · exact hw.eq_of_holds rfl (.inl hin) (.inr (Semaphore.isHeldBy_iff.1 hheld))
  · exact hlate hl

/-- A slot that a task is inside of is seen by its phase. -/
theorem Orderly.slotState_of_inside (hw : w.Orderly) (h : w.standing (.slot u) t = .inside) :
    w.engine.router.slotState u = w.engine.router.phase u := by
  obtain ⟨-, hinside, hlimit⟩ := hw.locks (.slot u) _ rfl
  have hpos := List.length_pos_of_mem (hinside t h)
  have hfull : (w.engine.router.slots.get u).lock.hasFree = false := by
    simp only [Semaphore.hasFree, Bool.and_eq_false_iff, decide_eq_false_iff_not]
    omega
  rw [Router.slotState, hfull]
  rfl

/-! ## Never too much -/

/-- The phase of a slot says no more than is so. -/
structure PhaseSound (w : World) (u : Target) : Prop where
  opened : ∀ t, w.debt u t = .opened → (w.engine.router.cached u).isSome = true
  connecting : w.engine.router.phase u = .connecting →
    ∃ t, w.debt u t = .connecting ∨ w.debt u t = .opened
  ready : w.engine.router.phase u = .ready →
    (w.engine.router.cached u).isSome = true ∨ ∃ t, w.debt u t ≠ .clear

theorem PhaseSound.afterCall (h : w.PhaseSound u) (hw : w.Orderly) (hc : w.call? t = some c)
    (hs : c.step t ans w.engine.router = some s) : (w.afterCall t s).PhaseSound u := by
  have hothers : ∀ v, v ≠ t → (w.afterCall t s).debt u v = w.debt u v := fun v =>
    debt_afterCall_of_ne hc
  have hstep := phaseStep_of_step hw hc hs u
  generalize hd : w.debt u t = d at hstep
  generalize hd' : (w.afterCall t s).debt u t = d' at hstep
  -- a debt that the task does not owe after its step is another's, who owed it before
  have hanother : ∀ {v e}, (w.afterCall t s).debt u v = e → d' ≠ e → v ≠ t ∧ w.debt u v = e := by
    intro v e hv hne
    have hvt : v ≠ t := fun heq => hne (hd'.symm.trans (heq ▸ hv))
    exact ⟨hvt, (hothers v hvt).symm.trans hv⟩
  cases hstep with
  | stay _ hphase hcached =>
    have hsame : (w.afterCall t s).debt u = w.debt u := by
      funext v
      by_cases hv : v = t
      · rw [hv, hd, hd']
      · exact hothers v hv
    refine ⟨?_, ?_, ?_⟩ <;> rw [hsame]
    · exact fun v hv => hcached ▸ h.opened v hv
    · exact fun hp => h.connecting (hphase ▸ hp)
    · exact fun hp => hcached ▸ h.ready (hphase ▸ hp)
  | empty hheld hphase hcached =>
    refine ⟨fun v hv => ?_, fun hp => ?_, fun _ => .inr ⟨t, by simp [hd']⟩⟩
    · obtain ⟨hvt, hv⟩ := hanother hv (by simp)
      refine absurd (hw.eq_of_holdsSlot hheld (by simp [hv]) fun hlate => ?_) hvt
      rw [debt_of_late hlate] at hv
      cases hv
    · obtain ⟨v, hv⟩ := h.connecting (hphase ▸ hp)
      have hvt : v ≠ t := by
        rintro rfl
        simp [hd] at hv
      exact ⟨v, hothers v hvt ▸ hv⟩
  | announce hphase hcached =>
    refine ⟨fun v hv => ?_, fun _ => ⟨t, .inl hd'⟩, fun hp => ?_⟩
    · exact hcached ▸ h.opened v (hanother hv (by simp)).2
    · cases hphase.symm.trans hp
  | open_ _ hcached => exact ⟨fun _ _ => hcached, fun _ => ⟨t, .inr hd'⟩, fun _ => .inl hcached⟩
  | ready hphase hcached =>
    have hholds := hcached ▸ h.opened t hd
    refine ⟨fun _ _ => hholds, fun hp => ?_, fun _ => .inl hholds⟩
    cases hphase.symm.trans hp
  | absent _ _ hphase hcached =>
    refine ⟨fun v hv => ?_, fun hp => ?_, fun hp => ?_⟩
    · exact hcached ▸ h.opened v (hanother hv (by simp)).2
    · cases hphase.symm.trans hp
    · cases hphase.symm.trans hp

/-! ## The whole truth -/

/-- All tasks but one owe a slot nothing, and the slot fits what that one owes. -/
def PhaseKept (w : World) (u : Target) : Prop :=
  ∃ t, (∀ v, v ≠ t → w.debt u v = .clear) ∧
    (w.debt u t).Fits (w.engine.router.phase u) (w.engine.router.cached u)

/-- A step of a task keeps it, if no other task is late. -/
theorem PhaseKept.afterCall (h : w.PhaseKept u) (hw : w.Orderly) (hc : w.call? t = some c)
    (hs : c.step t ans w.engine.router = some s) (hlate : ∀ v, w.Late u v → v = t) :
    (w.afterCall t s).PhaseKept u := by
  obtain ⟨v, hclear, hfits⟩ := h
  have hstep := phaseStep_of_step hw hc hs u
  by_cases hv : v = t ∨ w.debt u v = .clear
  · -- nobody owes anything but the task itself
    have ht : w.debt u t = w.debt u v := by
      by_cases htv : t = v
      · rw [htv]
      · rw [hclear t htv, hv.resolve_left (Ne.symm htv)]
    refine ⟨t, fun x hx => ?_, hstep.fits (ht ▸ hfits)⟩
    rw [debt_afterCall_of_ne hc hx]
    by_cases hxv : x = v
    · exact hxv ▸ hv.resolve_left (hxv ▸ hx)
    · exact hclear x hxv
  · -- another task owes the phase, so that this one cannot come by the lock
    obtain ⟨hvt, hv⟩ := not_or.1 hv
    rw [hclear t (Ne.symm hvt)] at hstep
    generalize hd' : (w.afterCall t s).debt u t = d' at hstep
    cases hstep with
    | stay _ hphase hcached =>
      refine ⟨v, fun x hx => ?_, ?_⟩
      · by_cases hxt : x = t
        · rw [hxt, hd']
        · rw [debt_afterCall_of_ne hc hxt, hclear x hx]
      · rw [debt_afterCall_of_ne hc hvt]
        exact hphase.symm ▸ hcached.symm ▸ hfits
    | empty hheld => exact absurd (hw.eq_of_holdsSlot hheld hv (hlate v)) hvt
    | absent _ hor => simp at hor

end World

/-- No other task than the one that takes the step has unlocked a slot and not stored its phase. -/
def Move.Prompt (x : Move) : Prop := ∀ u t, x.before.Late u t → t = x.task

namespace Traffic

variable {made : Call → Prop} {xs : List Move} {w : World}

theorem phaseSound (h : Traffic made xs w) (u : Target) : w.PhaseSound u := by
  induction h with
  | quiet hslots _ =>
    refine ⟨fun t ht => ?_, fun hp => ?_, fun hp => ?_⟩
    · simp [World.debt, World.call?, World.activity?] at ht
    · simp [Router.phase, hslots] at hp
    · simp [Router.phase, hslots] at hp
  | call _ _ hc ih =>
    refine ⟨fun t ht => ih.opened t ?_, fun hp => ?_, fun hp => ?_⟩
    · rwa [World.debt_spawn hc] at ht
    · simpa only [World.debt_spawn hc] using ih.connecting hp
    · rcases ih.ready hp with hcached | ⟨t, ht⟩
      · exact .inl hcached
      · exact .inr ⟨t, by rwa [World.debt_spawn hc]⟩
  | configure servers _ ih => exact ⟨ih.opened, ih.connecting, ih.ready⟩
  | move h hstep ih =>
    obtain ⟨c, s, hc, hs, rfl, -⟩ := h.orderly.step hstep
    exact ih.afterCall h.orderly hc hs

/-- **A phase never claims too much**, in whatever order steps are taken: it says that a connection
is being opened only while a task opens one or has just done so, and once nobody owes it to the slot
it says that the slot is ready only if it holds a connection. -/
theorem phase_sound (h : Traffic made xs w) (u : Target) :
    (w.engine.router.phase u = .connecting →
      ∃ t, w.debt u t = .connecting ∨ w.debt u t = .opened) ∧
    ((∀ t, w.debt u t = .clear) → w.engine.router.phase u = .ready →
      (w.engine.router.cached u).isSome = true) := by
  have hsound := h.phaseSound u
  refine ⟨hsound.connecting, fun hclear hp => (hsound.ready hp).resolve_right ?_⟩
  rintro ⟨t, ht⟩
  exact ht (hclear t)

theorem phaseKept (h : Traffic made xs w) (hprompt : ∀ x ∈ xs, x.Prompt) (u : Target) :
    w.PhaseKept u := by
  induction h with
  | quiet hslots _ =>
    refine ⟨0, fun t _ => ?_, ?_⟩
    · simp [World.debt, World.call?, World.activity?]
    · simp [World.debt, World.call?, World.activity?, Debt.Fits, Router.phase, Router.cached,
        hslots]
  | call _ _ hc ih =>
    obtain ⟨t, hclear, hfits⟩ := ih hprompt
    refine ⟨t, fun v hv => ?_, ?_⟩
    · rw [World.debt_spawn hc, hclear v hv]
    · rw [World.debt_spawn hc]
      exact hfits
  | configure servers _ ih => exact ih hprompt
  | move h hstep ih =>
    obtain ⟨hxs, hx⟩ := List.forall_mem_append.1 hprompt
    obtain ⟨c, s, hc, hs, rfl, -⟩ := h.orderly.step hstep
    exact (ih hxs).afterCall h.orderly hc hs fun v => hx _ (List.mem_singleton_self _) u v

/-- **The phase of a slot tells the truth**, if tasks that empty a slot store its phase before any
other task takes a step: while a connection is being opened it is seen, and once nobody owes the
phase it says whether the slot holds a connection. -/
theorem phase_tells (h : Traffic made xs w) (hprompt : ∀ x ∈ xs, x.Prompt) (u : Target) :
    (∀ t p, w.request? t = some (.connect u p) → w.engine.router.slotState u = .connecting) ∧
    ((∀ t, w.debt u t = .clear) → w.engine.router.phase u =
      if (w.engine.router.cached u).isSome then .ready else .absent) := by
  obtain ⟨v, hclear, hfits⟩ := h.phaseKept hprompt u
  refine ⟨fun t p hreq => ?_, fun hall => ?_⟩
  · have hdebt := World.debt_of_connect h.orderly hreq
    have htv : t = v := by
      refine Decidable.byContradiction fun hne => ?_
      rw [hclear t hne] at hdebt
      cases hdebt
    subst htv
    rw [hdebt] at hfits
    have hin : w.standing (.slot u) t = .inside := by
      refine (World.inside_or_late (by simp [hdebt])).resolve_right fun hlate => ?_
      rw [World.debt_of_late hlate] at hdebt
      cases hdebt
    rw [h.orderly.slotState_of_inside hin, hfits.1]
  · rw [hall v] at hfits
    exact hfits

end Traffic

/-! ## Tasks that give way where they wait -/

namespace World

variable {w w' : World} {u : Target} {v : TaskId} {c : Call} {out : Outside} {res : Option Result}

theorem not_late_of_rests (h : w.rests t = true) : ¬w.Late u t := by
  rintro ⟨c, hc, o, hlate⟩
  rw [rests, hc, Option.all_some, hlate] at h
  cases h

theorem late_spawn (hc : c.Begins w.engine.router) (h : (w.spawn [.call c]).Late u v) :
    w.Late u v := by
  have hdebt := debt_of_late h
  rw [debt_spawn hc] at hdebt
  obtain ⟨k, hk, hlate⟩ := h
  rw [call?_spawn] at hk
  split at hk
  · rename_i hv
    rw [hv, debt, call?_length] at hdebt
    cases hdebt
  · exact ⟨k, hk, hlate⟩

theorem Orderly.late_of_ne (hw : w.Orderly) (h : w.step out t = some (w', res)) (hv : v ≠ t)
    (hlate : w'.Late u v) : w.Late u v := by
  obtain ⟨c, s, hc, -, rfl, -⟩ := hw.step h
  obtain ⟨k, hk, hl⟩ := hlate
  rcases call?_afterCall_of_ne (lt_of_call? hc) hv with heq | ⟨d, -, heq, -⟩
  · exact ⟨k, heq.symm.trans hk, hl⟩
  · obtain rfl := Option.some.inj (heq.symm.trans hk)
    obtain ⟨o, ho⟩ := hl
    cases ho

end World

/-- In a stretch nobody is late but the task itself, and in the end nobody is. -/
theorem Stretch.prompt {t : TaskId} {xs : List Move} {w w' : World} (hs : Stretch t w xs w')
    (hw : w.Orderly) (h : ∀ u v, v ≠ t → ¬w.Late u v) :
    (∀ x ∈ xs, x.Prompt) ∧ ∀ u v, ¬w'.Late u v := by
  induction hs with
  | last hstep hrests =>
    refine ⟨List.forall_mem_singleton.2 fun u v hlate => ?_, fun u v hlate => ?_⟩
    · exact Decidable.byContradiction fun hv => h u v hv hlate
    · by_cases hv : v = t
      · exact World.not_late_of_rests hrests (hv ▸ hlate)
      · exact h u v hv (hw.late_of_ne hstep hv hlate)
  | more hstep _ _ ih =>
    obtain ⟨hxs, hend⟩ := ih (hw.next hstep) fun u v hv hlate =>
      h u v hv (hw.late_of_ne hstep hv hlate)
    refine ⟨List.forall_mem_cons.2 ⟨fun u v hlate => ?_, hxs⟩, hend⟩
    exact Decidable.byContradiction fun hv => h u v hv hlate

/-- Tasks that give way only where they wait store the phase of a slot that they empty before any
other task takes a step. -/
theorem Cooperative.prompt {made : Call → Prop} {xs : List Move} {w : World}
    (h : Cooperative made xs w) : (∀ x ∈ xs, x.Prompt) ∧ ∀ u v, ¬w.Late u v := by
  induction h with
  | quiet =>
    refine ⟨fun x hx => absurd hx List.not_mem_nil, ?_⟩
    rintro u v ⟨c, hc, -⟩
    simp [World.call?, World.activity?] at hc
  | call _ _ hc ih => exact ⟨ih.1, fun u v hlate => ih.2 u v (World.late_spawn hc hlate)⟩
  | configure _ _ ih => exact ih
  | stretch hx hs ih =>
    obtain ⟨hys, hend⟩ := hs.prompt hx.traffic.orderly fun u v _ => ih.2 u v
    exact ⟨List.forall_mem_append.2 ⟨ih.1, hys⟩, hend⟩

/-- Among tasks that give way only where they wait, the phase of a slot tells the truth. -/
theorem Cooperative.phase_tells {made : Call → Prop} {xs : List Move} {w : World}
    (h : Cooperative made xs w) (u : Target) :
    (∀ t p, w.request? t = some (.connect u p) → w.engine.router.slotState u = .connecting) ∧
    ((∀ t, w.debt u t = .clear) → w.engine.router.phase u =
      if (w.engine.router.cached u).isSome then .ready else .absent) :=
  h.traffic.phase_tells h.prompt.1 u

/-! ## A phase that is stored late -/

theorem World.call?_of_all_isNone {w : World} (h : w.tasks.all Option.isNone = true) (t : TaskId) :
    w.call? t = none := by
  cases ht : w.tasks[t]? with
  | none => simp [call?, activity?, ht]
  | some a =>
    have ha := List.all_eq_true.1 h a (List.mem_of_getElem? ht)
    simp [call?, activity?, ht, Option.isNone_iff_eq_none.1 ha]

/-- A task empties the slot of the relational server and unlocks it; before it stores the phase
another task finds the slot empty. -/
def Cue.overtaking : List Cue :=
  [.close .relational, .acquire .relational, .move 0 none, .move 0 none, .move 0 none,
    .move 1 none, .move 1 none, .move 1 none]

/-- **A phase that is stored late hides a newer one.** While a connection is being opened the slot may
be seen as empty, and when all calls have ended it may hold a connection and its phase say that it is
empty. -/
theorem Traffic.exists_late_phase :
    (∃ xs w t p, Traffic (fun _ => True) xs w ∧
      w.request? t = some (.connect .relational p) ∧
      w.engine.router.slotState .relational = .absent) ∧
    ∃ xs w, Traffic (fun _ => True) xs w ∧ (∀ t, w.call? t = none) ∧
      (w.engine.router.cached .relational).isSome = true ∧
      w.engine.router.phase .relational = .absent := by
  constructor
  · let p := Router.relationalOnly.enact (Cue.overtaking ++ [.move 0 none])
    have htraffic : Traffic (fun _ => True) p.1 p.2 := .enact rfl rfl fun _ _ _ _ _ => trivial
    exact ⟨_, _, 1, .relational ⟨"db", 1433, "metrics", "reader", none, true⟩, htraffic,
      by decide, by decide⟩
  · let p := Router.relationalOnly.enact (Cue.overtaking ++
      [.move 1 (some .connected), .move 1 none, .move 1 none, .move 0 none])
    have htraffic : Traffic (fun _ => True) p.1 p.2 := .enact rfl rfl fun _ _ _ _ _ => trivial
    have hended : p.2.tasks.all Option.isNone = true := by decide
    exact ⟨_, _, htraffic, World.call?_of_all_isNone hended, by decide, by decide⟩

end MetricBoard
