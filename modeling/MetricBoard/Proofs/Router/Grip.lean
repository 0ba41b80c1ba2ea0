import MetricBoard.Proofs.Router.Calls

/-!
# What calls have in hand

A call that has locked a slot may know that it is empty, as it found or made it so. A call that has
taken a connection out of its slot is to retire it, unless it was retired, and to close it or to
see that it is closed. This is all that calls have in hand (`Grip`), and there are only a few ways
in which a step can change it and what the slots hold (`GripStep`). Each elementary call is shown
once to make no others (`Call.step_grip`); what follows for connections, whoever uses them, is then
said of `GripStep` alone.
-/

namespace MetricBoard

/-- What a call has in hand at a stage. -/
structure Grip where
  /-- The slot that it has locked and knows to be empty. -/
  vacant : Option Target := none
  /-- The connection that it has taken out of its slot and that is to be closed by it. -/
  taken : Option ConnectionId := none
  /-- The connection that it has taken out of its slot and is still to retire. -/
  doomed : Option ConnectionId := none
  deriving DecidableEq, Repr

/-- The connection that is asked to be closed. -/
def Request.closes? : Request → Option ConnectionId
  | close c => some c
  | connect _ _ | statement _ _ _ => none

namespace Acquire

/-- What a task has in hand at a stage. -/
def grip : Acquire → Grip
  | empty target _ | connecting target _ | refused target _ => { vacant := some target }
  | start _ | queued _ _ | cached _ _ | leaving _ _ => {}

end Acquire

namespace Evict

/-- What a task has in hand at a stage of taking out a connection that it is to close. -/
def grip (c : ConnectionId) : Evict → Grip
  | removed target _ | hidden target _ => ⟨some target, some c, some c⟩
  | leaving target true => ⟨some target, some c, none⟩
  | start _ _ | queued _ _ | leaving _ false => {}

end Evict

namespace Close

/-- What a task has in hand at a stage. -/
def grip : Close → Grip
  | removed target c => ⟨some target, c, c⟩
  | released _ c => ⟨none, c, c⟩
  | hidden c => ⟨none, some c, some c⟩
  | closing c => ⟨none, some c, none⟩
  | start _ | queued _ => {}

end Close

namespace Call

/-- What a task has in hand that is at an elementary call. -/
def grip : Call → Grip
  | acquire a => a.grip
  | invalidate (.evicting c v) => v.grip c
  | discard d => d.evict.grip d.connection
  | close k => k.grip
  | invalidate (.closing c) | closing c => { taken := some c }
  | statement _ | execute _ | shutdown _ => {}

/-- The connection that is being closed at a stage. -/
def closes? (c : Call) : Option ConnectionId := c.request?.bind Request.closes?

variable {r : Router} {c : Call}

theorem Starts.grip (h : Starts r c) : c.grip = {} := by
  cases h <;> rfl

end Call

namespace Router

variable {r : Router} {target : Target} {c : ConnectionId} {t : TaskId}

/-- No slot changes what it holds, and no connection is opened. -/
structure Still (r r' : Router) : Prop where
  cached : ∀ target, r'.cached target = r.cached target
  length : r'.connections.length = r.connections.length
  serialized : r'.serialized = r.serialized

theorem Still.refl (r : Router) : r.Still r := ⟨fun _ => rfl, rfl, rfl⟩

theorem Still.trans {r r' r'' : Router} (h : r.Still r') (h' : r'.Still r'') : r.Still r'' :=
  ⟨fun u => (h'.cached u).trans (h.cached u), h'.length.trans h.length,
    h'.serialized.trans h.serialized⟩

theorem still_onSlot {f : Slot → Slot} (hf : ∀ s, (f s).cached = s.cached) :
    r.Still (r.onSlot target f) where
  cached u := by
    rw [cached_onSlot, hf]
    split
    · rename_i h
      rw [h]
      rfl
    · rfl
  length := rfl
  serialized := rfl

theorem still_requestSlot : r.Still (r.requestSlot target t) := still_onSlot fun _ => rfl

theorem still_releaseSlot : r.Still (r.releaseSlot target t) := still_onSlot fun _ => rfl

theorem still_setPhase (phase : Phase) : r.Still (r.setPhase target phase) :=
  still_onSlot fun _ => rfl

/-- The phase of a slot. -/
def phase (r : Router) (target : Target) : Phase := (r.slots.get target).phase

theorem phase_onSlot {u : Target} {f : Slot → Slot}
    (hf : ∀ s, (f s).phase = s.phase) (target : Target) :
    (r.onSlot u f).phase target = r.phase target := by
  by_cases h : target = u
  · rw [h, phase, onSlot, PerTarget.get_modify_self, hf, phase]
  · rw [phase, onSlot, PerTarget.get_modify_of_ne _ _ h, phase]

theorem phase_requestSlot {u : Target} (target : Target) :
    (r.requestSlot u t).phase target = r.phase target :=
  phase_onSlot (f := fun s => { s with lock := s.lock.request t }) (fun _ => rfl) target

theorem phase_releaseSlot {u : Target} (target : Target) :
    (r.releaseSlot u t).phase target = r.phase target :=
  phase_onSlot (f := fun s => { s with lock := s.lock.release t }) (fun _ => rfl) target

theorem phase_setPhase (phase : Phase) : (r.setPhase target phase).phase target = phase := by
  rw [setPhase, Router.phase, onSlot, PerTarget.get_modify_self]

theorem still_onConnection (f : Connection → Connection) : r.Still (r.onConnection c f) where
  cached _ := rfl
  length := List.length_modify ..
  serialized := rfl

theorem cached_setCached (o : Option ConnectionId) (u : Target) :
    (r.setCached target o).cached u = if u = target then o else r.cached u :=
  cached_onSlot ..

theorem still_setCached_none (h : r.cached target = none) : r.Still (r.setCached target none) where
  cached u := by
    rw [cached_setCached]
    split
    · rename_i hu
      rw [hu, h]
    · rfl
  length := rfl
  serialized := rfl

theorem semaphore?_opened_self :
    (r.opened target).semaphore? (.turn r.connections.length) =
      if r.serialized.get target then some .lock else none := by
  simp [semaphore?, opened, addConnection, setCached, onSlot]

end Router

/-- What a step does to the slots and to what its call has in hand, from `g` to `g'`. The step may
leave a connection to be closed by a task of its own, and it may end the closing of one. -/
inductive GripStep (r r' : Router) :
    Grip → Grip → Option ConnectionId → Option ConnectionId → Prop
  /-- The slots stay as they are; the call may look into one, or turn to other things. -/
  | keep (g : Grip) (v : Option Target) : r.Still r' →
    (∀ target, v = some target → g.vacant = some target ∨ r.cached target = none) →
    GripStep r r' g { g with vacant := v } none none
  /-- A connection is opened, and put into a slot that is empty. -/
  | opened (target : Target) : r' = r.opened target →
    GripStep r r' { vacant := some target } {} none none
  /-- A connection is taken out of its slot. -/
  | take (target : Target) (c : ConnectionId) : r.cached target = some c →
    r' = r.setCached target none → GripStep r r' {} ⟨some target, some c, some c⟩ none none
  /-- A connection that was retired is taken out of its slot, for another one. -/
  | replace (target : Target) (c : ConnectionId) : r.cached target = some c →
    r.isRetired c = true → r' = r.setCached target none →
    GripStep r r' {} { vacant := some target } (some c) none
  | retire (v : Option Target) (c : ConnectionId) : r' = r.retire c →
    GripStep r r' ⟨v, some c, some c⟩ ⟨v, some c, none⟩ none none
  /-- A connection is left to be closed. -/
  | handOver (v : Option Target) (c : ConnectionId) : r.Still r' →
    GripStep r r' ⟨v, some c, none⟩ {} (some c) none
  | close (c : ConnectionId) : r' = r → GripStep r r' { taken := some c } {} none (some c)

namespace GripStep

variable {r r' : Router}

theorem idle (h : r.Still r') : GripStep r r' {} {} none none := .keep {} none h (by simp)

theorem same (g : Grip) (h : r.Still r') : GripStep r r' g g none none :=
  .keep g g.vacant h fun _ hv => .inl hv

variable {g g' : Grip} {closes closed : Option ConnectionId} {target : Target} {c : ConnectionId}

/-- At most one connection is opened in a step. -/
theorem opened_or_length (h : GripStep r r' g g' closes closed) :
    (∃ target, r' = r.opened target) ∨ r'.connections.length = r.connections.length := by
  cases h with
  | opened target hr => exact .inl ⟨target, hr⟩
  | keep _ _ hstill | handOver _ _ hstill => exact .inr hstill.length
  | take target c _ hr | replace target c _ _ hr => exact .inr (by rw [hr]; rfl)
  | retire _ c hr => exact .inr (by rw [hr]; exact List.length_modify ..)
  | close c hr => exact .inr (by rw [hr])

theorem serialized_eq (h : GripStep r r' g g' closes closed) : r'.serialized = r.serialized := by
  cases h with
  | keep _ _ hstill | handOver _ _ hstill => exact hstill.serialized
  | opened _ hr | take _ _ _ hr | replace _ _ _ _ hr | retire _ _ hr | close _ hr =>
    exact hr ▸ rfl

/-- A slot that is empty stays empty, unless it is the one that a connection is opened for. -/
theorem cached_eq_none (h : GripStep r r' g g' closes closed) (hc : r.cached target = none) :
    r'.cached target = none ∨ g.vacant = some target ∧ g'.vacant = none := by
  cases h with
  | keep _ _ hstill | handOver _ _ hstill => exact .inl (hstill.cached target ▸ hc)
  | opened u hr =>
    by_cases hu : target = u
    · exact .inr ⟨hu ▸ rfl, rfl⟩
    · exact .inl (by rw [hr, Router.opened, Router.cached_setCached, if_neg hu]; exact hc)
  | take u d _ hr | replace u d _ _ hr =>
    rw [hr, Router.cached_setCached, hc, ite_self]
    exact .inl rfl
  | retire _ d hr => exact .inl (by rw [hr]; exact hc)
  | close d hr => exact .inl (by rw [hr]; exact hc)

/-- A slot that a call knows to be empty after a step is empty. -/
theorem cached_of_vacant (h : GripStep r r' g g' closes closed)
    (hg : ∀ target, g.vacant = some target → r.cached target = none)
    (hv : g'.vacant = some target) : r'.cached target = none := by
  have hstays : r.cached target = none → r'.cached target = none := fun hc =>
    (h.cached_eq_none hc).resolve_right fun hne => by simp [hv] at hne
  cases h with
  | keep _ _ _ hlooked => exact hstays ((hlooked target hv).elim (hg target) id)
  | take u d _ hr | replace u d _ _ hr =>
    cases hv
    rw [hr, Router.cached_setCached, if_pos rfl]
  | retire => exact hstays (hg target hv)
  | opened | handOver | close => cases hv

/-- A connection in its slot, or in the hands of a task that is to retire it, is there after a step
unless it was retired. -/
theorem cached_or_doomed (h : GripStep r r' g g' closes closed)
    (hg : ∀ target, g.vacant = some target → r.cached target = none)
    (hc : r.cached target = some c ∨ g.doomed = some c) (hret : r'.isRetired c = false) :
    r'.cached target = some c ∨ g'.doomed = some c := by
  cases h with
  | keep _ _ hstill => exact hc.imp (hstill.cached target).trans id
  | opened u hr =>
    obtain hc : r.cached target = some c := hc.resolve_right (by simp)
    by_cases hu : target = u
    · rw [hg target (hu ▸ rfl)] at hc
      cases hc
    · exact .inl (by rw [hr, Router.opened, Router.cached_setCached, if_neg hu]; exact hc)
  | take u d hd hr =>
    obtain hc : r.cached target = some c := hc.resolve_right (by simp)
    by_cases hu : target = u
    · rw [hu, hd] at hc
      exact .inr hc
    · exact .inl (by rw [hr, Router.cached_setCached, if_neg hu]; exact hc)
  | replace u d hd hdret hr =>
    obtain hc : r.cached target = some c := hc.resolve_right (by simp)
    by_cases hu : target = u
    · rw [hu, hd] at hc
      obtain rfl := Option.some.inj hc
      have : r'.isRetired d = r.isRetired d := by rw [hr]; rfl
      rw [this, hdret] at hret
      cases hret
    · exact .inl (by rw [hr, Router.cached_setCached, if_neg hu]; exact hc)
  | retire _ d hr =>
    have hne : d ≠ c := by
      rintro rfl
      rw [hr, Router.isRetired_retire_self] at hret
      cases hret
    exact .inl (by rw [hr]; exact hc.resolve_right fun hd => hne (Option.some.inj hd))
  | handOver _ _ hstill => exact .inl ((hstill.cached target).trans (hc.resolve_right (by simp)))
  | close d hr => exact .inl (by rw [hr]; exact hc.resolve_right (by simp))

end GripStep

variable {t : TaskId} {ans : Option Answer} {r : Router}

theorem Acquire.step_grip {a : Acquire}
    {s : RouterStep Acquire (Except AcquireError ConnectionId)} (h : a.step t ans r = some s) :
    GripStep r s.router a.grip (s.next.view grip {}) s.closes none := by
  cases does_of_step h with
  | ask => exact .idle Router.still_requestSlot
  | unconfigured | reuse => exact .idle (.refl _)
  | drop _ hc hret => exact .replace _ _ hc hret rfl
  | @miss target _ _ hnone =>
    exact .keep {} (some target) (.refl _) fun u hu => .inr (Option.some.inj hu ▸ hnone)
  | announce => exact .same _ (Router.still_setPhase _)
  | connect => exact .opened _ rfl
  | refuse => exact .same _ (.refl _)
  | ready => exact .idle (Router.still_setPhase _)
  | giveUp => exact .keep _ none (Router.still_setPhase _) (by simp)
  | leave => exact .idle Router.still_releaseSlot

theorem Statement.step_still {q : Statement} {s : RouterStep Statement StatementResult}
    (h : q.step t ans r = some s) : r.Still s.router ∧ s.closes = none := by
  cases does_of_step h with
  | discard | run | rows | fail | elapse | breakDown => exact ⟨.refl _, rfl⟩
  | ask | retire | leave => exact ⟨Router.still_onConnection _, rfl⟩

namespace Evict

variable {c : ConnectionId} {v : Evict} {s : RouterStep Evict Bool}

/-- What a task has in hand after a step, if it waits for the close itself. -/
def gripAfter (c : ConnectionId) : Next Evict Bool → Grip
  | .stage v => v.grip c
  | .done wasCached => if wasCached then { taken := some c } else {}

theorem step_grip (h : v.step t r = some s) (hv : v.Refers r c) :
    GripStep r s.router (v.grip c) (gripAfter c s.next) none none := by
  cases does_of_step h with
  | ask => exact .idle Router.still_requestSlot
  | @remove target _ _ hcached =>
    obtain ⟨rfl, -⟩ := hv
    exact .take target _ hcached rfl
  | spare => exact .idle (.refl _)
  | hide => exact .same _ (Router.still_setPhase _)
  | retire =>
    obtain ⟨rfl, -⟩ := hv
    exact .retire _ _ rfl
  | @leave _ wasCached =>
    cases wasCached with
    | true => exact .keep _ none Router.still_releaseSlot (by simp)
    | false => exact .idle Router.still_releaseSlot

theorem of_done {wasCached : Bool} (h : v.step t r = some s) (hn : s.next = .done wasCached) :
    ∃ target, v = .leaving target wasCached ∧ s.router = r.releaseSlot target t := by
  cases does_of_step h with
  | leave =>
    cases hn
    exact ⟨_, rfl, rfl⟩
  | _ => cases hn

end Evict

theorem Invalidate.step_grip {i : Invalidate} {s : RouterStep Invalidate Bool}
    (h : i.step t ans r = some s) (hi : (Call.invalidate i).Refers r) :
    GripStep r s.router (Call.invalidate i).grip
      (s.next.view (fun i => (Call.invalidate i).grip) {}) s.closes
      (i.request?.bind Request.closes?) := by
  cases i with
  | evicting c v =>
    obtain ⟨s', hs', rfl⟩ := Option.map_eq_some_iff.1 h
    have hgrip := Evict.step_grip hs' hi
    have hcloses : s'.closes = none := Evict.step_closes hs'
    simp only [RouterStep.within, hcloses]
    cases hn : s'.next with
    | stage v' =>
      rw [hn] at hgrip
      exact hgrip
    | done wasCached =>
      rw [hn] at hgrip
      cases wasCached <;> exact hgrip
  | closing c =>
    obtain rfl := eq_of_closing h
    exact .close c rfl

theorem Discard.step_grip {d : Discard} {s : RouterStep Discard Bool} (h : d.step t r = some s)
    (hd : d.evict.Refers r d.connection) :
    GripStep r s.router (Call.discard d).grip (s.next.view (fun d => (Call.discard d).grip) {})
      s.closes none := by
  obtain ⟨s', hs', rfl⟩ := Option.map_eq_some_iff.1 h
  have hgrip := Evict.step_grip hs' hd
  simp only [RouterStep.within]
  cases hn : s'.next with
  | stage v' =>
    rw [hn] at hgrip
    simp only [Next.within, Next.view, reduceCtorEq, if_false]
    exact hgrip
  | done wasCached =>
    obtain ⟨target, hv, hrouter⟩ := Evict.of_done hs' hn
    have hstill : r.Still s'.router := hrouter ▸ Router.still_releaseSlot
    cases wasCached with
    | true =>
      simpa [Call.grip, hv, Evict.grip, Next.within, Next.view] using
        GripStep.handOver (some target) d.connection hstill
    | false => simpa [Call.grip, hv, Evict.grip, Next.within, Next.view] using GripStep.idle hstill

theorem Close.step_grip {k : Close} {s : RouterStep Close Unit} (h : k.step t ans r = some s) :
    GripStep r s.router k.grip (s.next.view grip {}) s.closes
      (k.request?.bind Request.closes?) := by
  cases does_of_step h with
  | ask => exact .idle Router.still_requestSlot
  | @empty target =>
    cases hc : r.cached target with
    | none =>
      refine .keep {} (some target) (Router.still_setCached_none hc) fun u hu => .inr ?_
      exact Option.some.inj hu ▸ hc
    | some c => exact .take target c hc rfl
  | unlock => exact .keep _ none Router.still_releaseSlot (by simp)
  | hide => exact .same _ (Router.still_setPhase _)
  | finish => exact .idle (Router.still_setPhase _)
  | retire => exact .retire none _ rfl
  | close => exact .close _ rfl

namespace Call

variable {c : Call} {s : RouterStep Call CallResult}

theorem step_grip (h : c.step t ans r = some s) (he : c.IsElementary) (hc : c.Refers r) :
    GripStep r s.router c.grip (s.next.view grip {}) s.closes c.closes? := by
  cases c with
  | acquire a =>
    obtain ⟨s', hs', rfl⟩ := Option.map_eq_some_iff.1 h
    have hcloses : (acquire a).closes? = none := by cases a <;> rfl
    rw [hcloses, RouterStep.within, Next.view_within_done]
    exact Acquire.step_grip hs'
  | statement q =>
    obtain ⟨s', hs', rfl⟩ := Option.map_eq_some_iff.1 h
    obtain ⟨hstill, hnone⟩ := Statement.step_still hs'
    have hcloses : (statement q).closes? = none := by cases q <;> rfl
    have hgrip : s'.next.view (grip ∘ statement) {} = {} := by cases s'.next <;> rfl
    rw [hcloses, RouterStep.within, Next.view_within_done, hgrip, hnone]
    exact .idle hstill
  | invalidate i =>
    obtain ⟨s', hs', rfl⟩ := Option.map_eq_some_iff.1 h
    rw [RouterStep.within, Next.view_within_done]
    exact Invalidate.step_grip hs' hc
  | discard d =>
    obtain ⟨s', hs', rfl⟩ := Option.map_eq_some_iff.1 h
    rw [RouterStep.within, Next.view_within_done]
    exact Discard.step_grip hs' hc
  | close k =>
    obtain ⟨s', hs', rfl⟩ := Option.map_eq_some_iff.1 h
    rw [RouterStep.within, Next.view_within_done]
    exact Close.step_grip hs'
  | closing d =>
    obtain rfl := eq_of_closing h
    exact .close d rfl
  | execute | shutdown => exact he.elim

/-- **What a step does to what is in hand.** -/
theorem grip_of_step (h : c.step t ans r = some s) (hc : c.current.Refers r) (hr : r.Coherent) :
    GripStep r s.router c.current.grip (s.next.view (fun c => c.current.grip) {}) s.closes
      c.closes? := by
  obtain ⟨s', hs', hrouter, hcloses, hgo⟩ := step_current h hc hr
  have hgrip := step_grip hs' c.isElementary_current hc
  rwa [hrouter, hcloses, ← hgo.view_eq fun _ hs => hs.grip, closes?, request?_current] at hgrip

/-- A slot that a call knows to be empty is locked by it. -/
theorem standing_of_vacant {target : Target} (h : c.grip.vacant = some target) :
    c.standing (.slot target) = .inside := by
  have hevict : ∀ {d : ConnectionId} {v : Evict}, (v.grip d).vacant = some target →
      v.standing (.slot target) = .inside := by
    intro d v hv
    cases v with
    | leaving u wasCached =>
      cases wasCached with
      | true =>
        cases hv
        exact Standing.at_self _ _
      | false => cases hv
    | start | queued => cases hv
    | removed | hidden =>
      cases hv
      exact Standing.at_self _ _
  cases c with
  | acquire a =>
    cases a <;> cases h
    all_goals exact Standing.at_self _ _
  | invalidate i =>
    cases i with
    | evicting d v => exact hevict h
    | closing d => cases h
  | discard d => exact hevict h
  | close k =>
    cases k <;> cases h
    exact Standing.at_self _ _
  | statement | execute | shutdown | closing => cases h

end Call

end MetricBoard
