import MetricBoard.Proofs.Router.Steps

/-!
# What a step does to the router

Whatever call a step belongs to, it leaves the configuration alone, it never forgets a connection
or its server, and a connection that was retired stays retired (`Router.Moves`). What a slot holds
is a connection to its own server (`Router.Coherent`), and steps keep that. The one thing that
calls differ in is which connection a step may retire; `retires?` reads it off the stage.
-/

namespace MetricBoard

namespace Router

variable {r r' r'' : Router} {target : Target} {t : TaskId} {c : ConnectionId}

/-- Every slot holds a connection to its own server, if it holds one. -/
def Coherent (r : Router) : Prop :=
  ∀ target c, r.cached target = some c → r.target? c = some target

/-- What any step does at most, if it may retire the connection `gone`. -/
structure Moves (gone : Option ConnectionId) (r r' : Router) : Prop where
  servers : r'.servers = r.servers
  drivers : r'.drivers = r.drivers
  target : ∀ c target, r.target? c = some target → r'.target? c = some target
  retired : ∀ c target, r.target? c = some target → r.isRetired c = true → r'.isRetired c = true
  gone : ∀ c, r'.isRetired c = true → r.isRetired c = true ∨ gone = some c
  opened : ∀ c target, r'.target? c = some target →
    r.target? c = some target ∨ r'.isRetired c = false
  coherent : r.Coherent → r'.Coherent

theorem Moves.refl (r : Router) (gone : Option ConnectionId) : Moves gone r r :=
  ⟨rfl, rfl, fun _ _ h => h, fun _ _ _ h => h, fun _ h => .inl h, fun _ _ h => .inl h, fun h => h⟩

theorem parameters?_congr (hs : r'.servers = r.servers) (hd : r'.drivers = r.drivers) :
    r'.parameters? = r.parameters? := by
  funext target
  simp only [parameters?, hs, hd]

theorem Moves.parameters? {gone : Option ConnectionId} (h : Moves gone r r') :
    r'.parameters? = r.parameters? :=
  parameters?_congr h.servers h.drivers

/-! ## Slots -/

theorem cached_onSlot (f : Slot → Slot) (target u : Target) :
    (r.onSlot target f).cached u =
      if u = target then (f (r.slots.get target)).cached else r.cached u := by
  by_cases h : u = target
  · subst h
    simp [cached, onSlot]
  · simp [cached, onSlot, PerTarget.get_modify_of_ne _ _ h, h]

/-- Changing a slot so that it holds what it held, or nothing. -/
theorem moves_onSlot {f : Slot → Slot} (gone : Option ConnectionId)
    (hf : ∀ s : Slot, (f s).cached = s.cached ∨ (f s).cached = none) :
    Moves gone r (r.onSlot target f) where
  servers := rfl
  drivers := rfl
  target _ _ h := h
  retired _ _ _ h := h
  gone _ h := .inl h
  opened _ _ h := .inl h
  coherent h u c hc := by
    rw [cached_onSlot] at hc
    split at hc
    · rename_i hu
      subst hu
      rcases hf (r.slots.get u) with he | he
      · exact h u c (he.symm.trans hc)
      · exact absurd (he.symm.trans hc) (by simp)
    · exact h u c hc

theorem moves_requestSlot (gone : Option ConnectionId) : Moves gone r (r.requestSlot target t) :=
  moves_onSlot gone fun _ => .inl rfl

theorem moves_releaseSlot (gone : Option ConnectionId) : Moves gone r (r.releaseSlot target t) :=
  moves_onSlot gone fun _ => .inl rfl

theorem moves_setPhase (gone : Option ConnectionId) (phase : Phase) :
    Moves gone r (r.setPhase target phase) :=
  moves_onSlot gone fun _ => .inl rfl

theorem moves_setCached_none (gone : Option ConnectionId) :
    Moves gone r (r.setCached target none) :=
  moves_onSlot gone fun _ => .inr rfl

/-! ## Connections -/

theorem target?_onConnection {f : Connection → Connection}
    (hf : ∀ k, (f k).target = k.target) (d : ConnectionId) :
    (r.onConnection c f).target? d = r.target? d := by
  simp only [target?, onConnection, List.getElem?_modify]
  cases r.connections[d]? with
  | none => rfl
  | some k => by_cases h : c = d <;> simp [h, hf]

theorem isRetired_onConnection (f : Connection → Connection) (d : ConnectionId) :
    (r.onConnection c f).isRetired d =
      match r.connections[d]? with
      | some k => if c = d then (f k).retired else k.retired
      | none => true := by
  simp only [isRetired, onConnection, List.getElem?_modify]
  cases r.connections[d]? with
  | none => rfl
  | some k => by_cases h : c = d <;> simp [h]

/-- Changing a connection so that it stays what it was, but for its turns. -/
theorem moves_onConnection {f : Connection → Connection} (gone : Option ConnectionId)
    (ht : ∀ k, (f k).target = k.target) (hr : ∀ k, (f k).retired = k.retired) :
    Moves gone r (r.onConnection c f) := by
  have hretired : ∀ d, (r.onConnection c f).isRetired d = r.isRetired d := by
    intro d
    rw [isRetired_onConnection, isRetired]
    cases r.connections[d]? with
    | none => rfl
    | some k => simp [hr]
  refine ⟨rfl, rfl, fun d u h => ?_, fun d _ _ h => ?_, fun d h => ?_, fun d u h => .inl ?_,
    fun h u d hd => ?_⟩
  · rwa [target?_onConnection ht]
  · rwa [hretired]
  · exact .inl (hretired d ▸ h)
  · rwa [target?_onConnection ht] at h
  · rw [target?_onConnection ht]
    exact h u d hd

theorem moves_requestTurn (gone : Option ConnectionId) : Moves gone r (r.requestTurn c t) :=
  moves_onConnection gone (fun _ => rfl) fun _ => rfl

theorem moves_releaseTurn (gone : Option ConnectionId) : Moves gone r (r.releaseTurn c t) :=
  moves_onConnection gone (fun _ => rfl) fun _ => rfl

@[simp] theorem target?_retire (d : ConnectionId) : (r.retire c).target? d = r.target? d :=
  target?_onConnection (f := fun k => { k with retired := true }) (fun _ => rfl) d

theorem isRetired_retire_self : (r.retire c).isRetired c = true := by
  rw [retire, isRetired_onConnection]
  cases r.connections[c]? <;> simp

theorem isRetired_retire_of_ne {d : ConnectionId} (h : c ≠ d) :
    (r.retire c).isRetired d = r.isRetired d := by
  rw [retire, isRetired_onConnection, isRetired]
  cases r.connections[d]? <;> simp [h]

theorem moves_retire : Moves (some c) r (r.retire c) := by
  refine ⟨rfl, rfl, fun d u h => ?_, fun d _ _ h => ?_, fun d h => ?_, fun d u h => .inl ?_,
    fun h u d hd => ?_⟩
  · rwa [target?_retire]
  · by_cases hd : c = d
    · exact hd ▸ isRetired_retire_self
    · rwa [isRetired_retire_of_ne hd]
  · by_cases hd : c = d
    · exact .inr (hd ▸ rfl)
    · exact .inl (isRetired_retire_of_ne hd ▸ h)
  · rwa [target?_retire] at h
  · rw [target?_retire]
    exact h u d hd

/-! ## Opening -/

/-- The router after a connection was opened and put into its slot. -/
def opened (r : Router) (target : Target) : Router :=
  (r.addConnection target).setCached target (some r.connections.length)

theorem length_opened : (r.opened target).connections.length = r.connections.length + 1 := by
  simp [opened, addConnection, setCached, onSlot]

theorem target?_lt (h : r.target? c = some target) : c < r.connections.length := by
  simp only [target?, Option.map_eq_some_iff] at h
  obtain ⟨k, hk, -⟩ := h
  exact (List.getElem?_eq_some_iff.1 hk).1

theorem target?_opened_self : (r.opened target).target? r.connections.length = some target := by
  simp [opened, target?, addConnection, setCached, onSlot]

theorem target?_opened_of_lt (h : c < r.connections.length) :
    (r.opened target).target? c = r.target? c := by
  simp [opened, target?, addConnection, setCached, onSlot, List.getElem?_append_left h]

theorem isRetired_opened_self : (r.opened target).isRetired r.connections.length = false := by
  simp [opened, isRetired, addConnection, setCached, onSlot]

theorem isRetired_opened_of_lt (h : c < r.connections.length) :
    (r.opened target).isRetired c = r.isRetired c := by
  simp [opened, isRetired, addConnection, setCached, onSlot, List.getElem?_append_left h]

theorem moves_opened (gone : Option ConnectionId) : Moves gone r (r.opened target) := by
  refine ⟨rfl, rfl, fun c u h => ?_, fun c _ h hr => ?_, fun c h => ?_, fun c u h => ?_,
    fun h u c hc => ?_⟩
  · rwa [target?_opened_of_lt (target?_lt h)]
  · rwa [isRetired_opened_of_lt (target?_lt h)]
  · by_cases hc : c < r.connections.length
    · rw [isRetired_opened_of_lt hc] at h
      exact .inl h
    · -- a connection that is not there counts as retired
      left
      simp [isRetired, List.getElem?_eq_none (Nat.le_of_not_lt hc)]
  · rcases Nat.lt_or_ge c r.connections.length with hc | hc
    · rw [target?_opened_of_lt hc] at h
      exact .inl h
    · have hlt := target?_lt h
      rw [length_opened] at hlt
      obtain rfl : c = r.connections.length := Nat.le_antisymm (Nat.le_of_lt_succ hlt) hc
      exact .inr isRetired_opened_self
  · rw [opened, setCached, cached_onSlot] at hc
    split at hc
    · rename_i hu
      subst hu
      obtain rfl : r.connections.length = c := by simpa using hc
      exact target?_opened_self
    · have := h u c hc
      rwa [target?_opened_of_lt (target?_lt this)]

end Router

/-! ## Calls -/

namespace Acquire

theorem step_moves {t : TaskId} {ans : Option Answer} {r : Router} {a : Acquire}
    {s : RouterStep Acquire (Except AcquireError ConnectionId)} (gone : Option ConnectionId)
    (h : a.step t ans r = some s) : r.Moves gone s.router := by
  cases does_of_step h with
  | ask => exact Router.moves_requestSlot gone
  | drop => exact Router.moves_setCached_none gone
  | unconfigured | reuse | miss | refuse => exact .refl _ gone
  | announce | ready | giveUp => exact Router.moves_setPhase gone _
  | connect => exact Router.moves_opened gone
  | leave => exact Router.moves_releaseSlot gone

end Acquire

namespace Statement

/-- The connection that the step retires. -/
def retires? : Statement → Option ConnectionId
  | overdue c => some c
  | _ => none

theorem step_moves {t : TaskId} {ans : Option Answer} {r : Router} {q : Statement}
    {s : RouterStep Statement StatementResult} (h : q.step t ans r = some s) :
    r.Moves q.retires? s.router := by
  cases does_of_step h with
  | ask => exact Router.moves_requestTurn _
  | discard | run | rows | fail | elapse | breakDown => exact .refl _ _
  | retire => exact Router.moves_retire
  | leave => exact Router.moves_releaseTurn _

end Statement

namespace Evict

/-- The connection that the step retires. -/
def retires? : Evict → Option ConnectionId
  | hidden _ c => some c
  | _ => none

theorem step_moves {t : TaskId} {r : Router} {e : Evict} {s : RouterStep Evict Bool}
    (h : e.step t r = some s) : r.Moves e.retires? s.router := by
  cases does_of_step h with
  | ask => exact Router.moves_requestSlot _
  | remove => exact Router.moves_setCached_none _
  | spare => exact .refl _ _
  | hide => exact Router.moves_setPhase _ _
  | retire => exact Router.moves_retire
  | leave => exact Router.moves_releaseSlot _

end Evict

namespace Invalidate

/-- The connection that the step retires. -/
def retires? : Invalidate → Option ConnectionId
  | evicting _ e => e.retires?
  | closing _ => none

theorem step_moves {t : TaskId} {ans : Option Answer} {r : Router} {i : Invalidate}
    {s : RouterStep Invalidate Bool} (h : i.step t ans r = some s) :
    r.Moves i.retires? s.router := by
  cases i with
  | evicting c e =>
    obtain ⟨s', hs', rfl⟩ := Option.map_eq_some_iff.1 h
    exact Evict.step_moves hs'
  | closing c =>
    obtain rfl := eq_of_closing h
    exact .refl _ _

end Invalidate

namespace Discard

/-- The connection that the step retires. -/
def retires? (d : Discard) : Option ConnectionId := d.evict.retires?

theorem step_moves {t : TaskId} {r : Router} {d : Discard} {s : RouterStep Discard Bool}
    (h : d.step t r = some s) : r.Moves d.retires? s.router := by
  obtain ⟨s', hs', rfl⟩ := Option.map_eq_some_iff.1 h
  exact Evict.step_moves hs'

end Discard

namespace Execute

/-- The connection that the step retires. -/
def retires? : Execute → Option ConnectionId
  | first _ _ _ q | second _ _ q => q.retires?
  | reconnecting _ _ _ => none
  | discarding _ d => d.retires?
  | invalidating _ i => i.retires?

theorem step_moves {t : TaskId} {ans : Option Answer} {r : Router} {x : Execute}
    {s : RouterStep Execute ExecuteResult} (h : x.step t ans r = some s) :
    r.Moves x.retires? s.router := by
  cases x with
  | first sql limitMs c q =>
    obtain ⟨s', hs', rfl⟩ := Option.map_eq_some_iff.1 h
    exact Statement.step_moves hs'
  | reconnecting sql limitMs a =>
    obtain ⟨s', hs', rfl⟩ := Option.map_eq_some_iff.1 h
    exact Acquire.step_moves _ hs'
  | second limitMs c q =>
    obtain ⟨s', hs', rfl⟩ := Option.map_eq_some_iff.1 h
    exact Statement.step_moves hs'
  | discarding f d =>
    obtain ⟨s', hs', rfl⟩ := Option.map_eq_some_iff.1 h
    exact Discard.step_moves hs'
  | invalidating f i =>
    obtain ⟨s', hs', rfl⟩ := Option.map_eq_some_iff.1 h
    exact Invalidate.step_moves hs'

end Execute

end MetricBoard
