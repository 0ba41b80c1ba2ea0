import MetricBoard.Router.Basic

/-!
# Giving connections up

A connection is taken out of its slot by the task that found it unusable (`Evict`), and then closed,
either before the task goes on (`Invalidate`) or on a task of its own (`Discard`). A slot that holds
another connection by then is left alone. A server's slot may also be emptied whatever it holds
(`Close`), and both slots when the router is shut down (`Shutdown`).
-/

namespace MetricBoard

/-- The stages of taking a connection out of its slot. -/
inductive Evict where
  | start (target : Target) (c : ConnectionId)
  /-- Waiting for the lock of the slot. -/
  | queued (target : Target) (c : ConnectionId)
  /-- The connection is out of the slot. -/
  | removed (target : Target) (c : ConnectionId)
  /-- The phase is set. -/
  | hidden (target : Target) (c : ConnectionId)
  /-- About to give the lock back. -/
  | leaving (target : Target) (wasCached : Bool)
  deriving DecidableEq, Repr

/-- The step that task `t` can take. -/
def Evict.step (t : TaskId) (r : Router) : Evict → Option (RouterStep Evict Bool)
  | start target c => some ⟨r.requestSlot target t, .stage (queued target c), none⟩
  | queued target c =>
    if r.holdsSlot target t then
      if r.cached target = some c then
        some ⟨r.setCached target none, .stage (removed target c), none⟩
      else some ⟨r, .stage (leaving target false), none⟩
    else none
  | removed target c => some ⟨r.setPhase target .absent, .stage (hidden target c), none⟩
  | hidden target c => some ⟨r.retire c, .stage (leaving target true), none⟩
  | leaving target wasCached => some ⟨r.releaseSlot target t, .done wasCached, none⟩

/-- The stages of giving a connection up and waiting for its close. -/
inductive Invalidate where
  | evicting (c : ConnectionId) (e : Evict)
  | closing (c : ConnectionId)
  deriving DecidableEq, Repr

namespace Invalidate

/-- What the stage asks of a server. -/
def request? : Invalidate → Option Request
  | closing c => some (.close c)
  | _ => none

/-- The step that task `t` can take, given the server's answer if it has come. The result says
whether the connection was in its slot. -/
def step (t : TaskId) (answer : Option Answer) (r : Router) :
    Invalidate → Option (RouterStep Invalidate Bool)
  | evicting c e =>
    (e.step t r).map <| RouterStep.within (evicting c) fun wasCached =>
      if wasCached then .stage (closing c) else .done false
  | closing _ => if answer = some .closed then some ⟨r, .done true, none⟩ else none

end Invalidate

/-- The stages of giving a connection up without waiting for its close. -/
structure Discard where
  connection : ConnectionId
  evict : Evict
  deriving DecidableEq, Repr

/-- The step that task `t` can take. The result says whether the connection was in its slot. -/
def Discard.step (t : TaskId) (r : Router) (d : Discard) : Option (RouterStep Discard Bool) :=
  (d.evict.step t r).map fun s =>
    { s.within (Discard.mk d.connection) Next.done with
      closes := if s.next = .done true then some d.connection else none }

/-- The stages of emptying a slot. -/
inductive Close where
  | start (target : Target)
  /-- Waiting for the lock of the slot. -/
  | queued (target : Target)
  /-- What was cached is out of the slot, which is still locked. -/
  | removed (target : Target) (c : Option ConnectionId)
  /-- The lock is given back. -/
  | released (target : Target) (c : Option ConnectionId)
  /-- The phase is set. -/
  | hidden (c : ConnectionId)
  | closing (c : ConnectionId)
  deriving DecidableEq, Repr

namespace Close

/-- What the stage asks of a server. -/
def request? : Close → Option Request
  | closing c => some (.close c)
  | _ => none

/-- The step that task `t` can take, given the server's answer if it has come. -/
def step (t : TaskId) (answer : Option Answer) (r : Router) : Close → Option (RouterStep Close Unit)
  | start target => some ⟨r.requestSlot target t, .stage (queued target), none⟩
  | queued target =>
    if r.holdsSlot target t then
      some ⟨r.setCached target none, .stage (removed target (r.cached target)), none⟩
    else none
  | removed target c => some ⟨r.releaseSlot target t, .stage (released target c), none⟩
  | released target c =>
    some ⟨r.setPhase target .absent,
      match c with
      | some c => .stage (hidden c)
      | none => .done (), none⟩
  | hidden c => some ⟨r.retire c, .stage (closing c), none⟩
  | closing _ => if answer = some .closed then some ⟨r, .done (), none⟩ else none

end Close

/-- The stages of emptying both slots, one after the other. -/
inductive Shutdown where
  | first (c : Close)
  | second (c : Close)
  deriving DecidableEq, Repr

namespace Shutdown

/-- The first stage. -/
def start : Shutdown := first (.start .relational)

/-- What the stage asks of a server. -/
def request? : Shutdown → Option Request
  | first c | second c => c.request?

/-- The step that task `t` can take, given the server's answer if it has come. -/
def step (t : TaskId) (answer : Option Answer) (r : Router) :
    Shutdown → Option (RouterStep Shutdown Unit)
  | first c =>
    (c.step t answer r).map <|
      RouterStep.within first fun _ => .stage (second (.start .fileDatabase))
  | second c => (c.step t answer r).map <| RouterStep.within second Next.done

end Shutdown

end MetricBoard
