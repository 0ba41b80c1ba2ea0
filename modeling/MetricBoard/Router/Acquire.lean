import MetricBoard.Router.Basic

/-!
# Getting a connection

A task that needs a connection holds the lock of the slot while it looks for a cached connection
and, if there is none it can use, while it opens one. So at most one connection to a server is
being opened, and tasks that come together share it.
-/

namespace MetricBoard

/-- The stages of getting a connection. -/
inductive Acquire where
  | start (target : Target)
  /-- Waiting for the lock of the slot. -/
  | queued (target : Target) (parameters : ConnectionParameters)
  /-- The slot is empty and locked. -/
  | empty (target : Target) (parameters : ConnectionParameters)
  | connecting (target : Target) (parameters : ConnectionParameters)
  /-- The new connection is cached. -/
  | cached (target : Target) (c : ConnectionId)
  | refused (target : Target) (e : DriverError)
  /-- About to give the lock back. -/
  | leaving (target : Target) (result : Except AcquireError ConnectionId)
  deriving DecidableEq, Repr

namespace Acquire

/-- What the stage asks of a server. -/
def request? : Acquire → Option Request
  | connecting target parameters => some (.connect target parameters)
  | _ => none

/-- The step that task `t` can take, given the server's answer if it has come. -/
def step (t : TaskId) (answer : Option Answer) (r : Router) :
    Acquire → Option (RouterStep Acquire (Except AcquireError ConnectionId))
  | start target =>
    match r.parameters? target with
    | some p => some ⟨r.requestSlot target t, .stage (queued target p), none⟩
    | none => some ⟨r, .done (.error (.configurationMissing target)), none⟩
  | queued target p =>
    if r.holdsSlot target t then
      match r.cached target with
      | some c =>
        if r.isRetired c then some ⟨r.setCached target none, .stage (empty target p), some c⟩
        else some ⟨r, .stage (leaving target (.ok c)), none⟩
      | none => some ⟨r, .stage (empty target p), none⟩
    else none
  | empty target p => some ⟨r.setPhase target .connecting, .stage (connecting target p), none⟩
  | connecting target _ =>
    match answer with
    | some .connected =>
      let c := r.connections.length
      some ⟨(r.addConnection target).setCached target (some c), .stage (cached target c), none⟩
    | some (.refused e) => some ⟨r, .stage (refused target e), none⟩
    | _ => none
  | cached target c => some ⟨r.setPhase target .ready, .stage (leaving target (.ok c)), none⟩
  | refused target e =>
    some ⟨r.setPhase target .absent, .stage (leaving target (.error (.connectionFailed target e))),
      none⟩
  | leaving target result => some ⟨r.releaseSlot target t, .done result, none⟩

end Acquire

end MetricBoard
