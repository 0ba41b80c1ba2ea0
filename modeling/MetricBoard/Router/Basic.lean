import MetricBoard.Concurrency.Semaphore
import MetricBoard.Connection.DriverError
import MetricBoard.Connection.Parameters
import MetricBoard.Connection.Row
import MetricBoard.PerTarget

/-!
# The router of connections

The router keeps at most one connection for each server in that server's slot. A slot has a lock,
the connection that is cached in it, and a phase that can be read without the lock. Connections are
numbered in the order in which they were opened, over both servers; a connection once retired is
never handed out again.

What a call on the router does is split into steps, each of which touches the router once. A call
is a stage together with a step function; a step may need the answer of a server, or its turn at a
lock, and is not there while it has to wait. The calls of many tasks may be interleaved in any way.
-/

namespace MetricBoard

instance decidableEqExcept {ε α : Type} [DecidableEq ε] [DecidableEq α] :
    DecidableEq (Except ε α)
  | .ok a, .ok b => decidable_of_iff (a = b) (by simp)
  | .error a, .error b => decidable_of_iff (a = b) (by simp)
  | .ok _, .error _ => isFalse (by simp)
  | .error _, .ok _ => isFalse (by simp)

/-- A connection, by its place in the order of opening. -/
abbrev ConnectionId := Nat

/-- What a slot is doing, as far as can be seen without its lock. -/
inductive Phase where
  | absent
  | connecting
  | ready
  deriving DecidableEq, Repr

/-- The name of a phase. -/
def Phase.name : Phase → String
  | absent => "Absent"
  | connecting => "Connecting"
  | ready => "Ready"

/-- The slot of a server. -/
structure Slot where
  lock : Semaphore := .lock
  cached : Option ConnectionId := none
  phase : Phase := .absent
  deriving DecidableEq, Repr

/-- A connection that was opened. -/
structure Connection where
  target : Target
  /-- The lock that statements take turns by, if they have to. -/
  turn : Option Semaphore
  /-- Whether the router has given the connection up. -/
  retired : Bool := false
  deriving DecidableEq, Repr

/-- The router. -/
structure Router where
  servers : PerTarget (Option ServerConfig)
  /-- Whether there is a driver for a server. -/
  drivers : PerTarget Bool := .const true
  /-- Whether statements on a connection to a server take turns. -/
  serialized : PerTarget Bool := .const true
  slots : PerTarget Slot := .const {}
  connections : List Connection := []
  deriving DecidableEq, Repr

/-- Why there is no connection. -/
inductive AcquireError where
  | configurationMissing (target : Target)
  | connectionFailed (target : Target) (cause : DriverError)
  deriving DecidableEq, Repr

namespace AcquireError

/-- The kind of an error. -/
def kind : AcquireError → ErrorKind
  | configurationMissing _ => .configurationMissing
  | connectionFailed _ _ => .connectionFailed

/-- The wording of an error. -/
def message : AcquireError → String
  | configurationMissing target =>
    "no enabled server configuration or driver for " ++ target.code
  | connectionFailed target cause => "connecting to " ++ target.code ++ " failed: " ++ cause.text

end AcquireError

/-- What is asked of a server. -/
inductive Request where
  | connect (target : Target) (parameters : ConnectionParameters)
  /-- A statement, and the milliseconds that it may take. -/
  | statement (connection : ConnectionId) (sql : String) (limitMs : Nat)
  | close (connection : ConnectionId)
  deriving DecidableEq, Repr

/-- What comes of it. -/
inductive Answer where
  | connected
  | refused (e : DriverError)
  | rows (rows : List Row)
  | failed (e : DriverError)
  /-- The statement is given up as its time is over. -/
  | elapsed
  /-- The driver breaks down instead of answering. -/
  | brokeDown
  /-- The connection is closed, or closing it failed, which nobody minds. -/
  | closed
  deriving DecidableEq, Repr

/-- Where a call is after a step: at a further stage, or at its end. -/
inductive Next (σ ρ : Type) where
  | stage (s : σ)
  | done (r : ρ)
  deriving DecidableEq, Repr

namespace Next

variable {σ τ ρ : Type}

/-- A call within a call: its stages are stages of the outer one, and its end leads on. -/
def within (inner : σ → τ) (after : ρ → Next τ ρ') : Next σ ρ → Next τ ρ'
  | stage s => .stage (inner s)
  | done r => after r

end Next

/-- What a step of a call comes to. -/
structure RouterStep (σ ρ : Type) where
  router : Router
  next : Next σ ρ
  /-- A connection that is to be closed on a task of its own. -/
  closes : Option ConnectionId := none
  deriving DecidableEq, Repr

/-- The step of an inner call as a step of the outer one. -/
def RouterStep.within {σ τ ρ ρ' : Type} (inner : σ → τ) (after : ρ → Next τ ρ')
    (s : RouterStep σ ρ) : RouterStep τ ρ' :=
  ⟨s.router, s.next.within inner after, s.closes⟩

namespace Router

/-- The parameters of a server that is configured, enabled and has a driver. -/
def parameters? (r : Router) (target : Target) : Option ConnectionParameters :=
  match r.servers.get target with
  | some s => if s.enabled && r.drivers.get target then some s.parameters else none
  | none => none

/-- The router with a slot changed. -/
def onSlot (r : Router) (target : Target) (f : Slot → Slot) : Router :=
  { r with slots := r.slots.modify target f }

/-- A task asks for the lock of a slot. -/
def requestSlot (r : Router) (target : Target) (t : TaskId) : Router :=
  r.onSlot target fun s => { s with lock := s.lock.request t }

/-- A task gives the lock of a slot back. -/
def releaseSlot (r : Router) (target : Target) (t : TaskId) : Router :=
  r.onSlot target fun s => { s with lock := s.lock.release t }

/-- Whether a task holds the lock of a slot. -/
def holdsSlot (r : Router) (target : Target) (t : TaskId) : Bool :=
  (r.slots.get target).lock.isHeldBy t

/-- The connection that is cached in a slot. -/
def cached (r : Router) (target : Target) : Option ConnectionId := (r.slots.get target).cached

/-- Puts a connection into a slot, or takes it out. -/
def setCached (r : Router) (target : Target) (c : Option ConnectionId) : Router :=
  r.onSlot target fun s => { s with cached := c }

/-- Sets the phase of a slot. -/
def setPhase (r : Router) (target : Target) (phase : Phase) : Router :=
  r.onSlot target fun s => { s with phase := phase }

/-- What is seen of a slot: whether a connection is cached if the lock is free, else the phase. -/
def slotState (r : Router) (target : Target) : Phase :=
  let s := r.slots.get target
  if s.lock.hasFree then if s.cached.isSome then .ready else .absent else s.phase

/-- The router with a connection changed. -/
def onConnection (r : Router) (c : ConnectionId) (f : Connection → Connection) : Router :=
  { r with connections := r.connections.modify c f }

/-- Whether a connection was retired; one that is unknown was. -/
def isRetired (r : Router) (c : ConnectionId) : Bool :=
  match r.connections[c]? with
  | some k => k.retired
  | none => true

/-- Retires a connection. -/
def retire (r : Router) (c : ConnectionId) : Router :=
  r.onConnection c fun k => { k with retired := true }

/-- The server of a connection. -/
def target? (r : Router) (c : ConnectionId) : Option Target :=
  r.connections[c]?.map Connection.target

/-- Whether statements on a connection take turns. -/
def isSerialized (r : Router) (c : ConnectionId) : Bool :=
  match r.connections[c]? with
  | some k => k.turn.isSome
  | none => false

/-- A task asks for its turn on a connection. -/
def requestTurn (r : Router) (c : ConnectionId) (t : TaskId) : Router :=
  r.onConnection c fun k => { k with turn := k.turn.map fun s => s.request t }

/-- A task gives its turn on a connection back. -/
def releaseTurn (r : Router) (c : ConnectionId) (t : TaskId) : Router :=
  r.onConnection c fun k => { k with turn := k.turn.map fun s => s.release t }

/-- Whether it is a task's turn on a connection; without turns it always is. -/
def hasTurn (r : Router) (c : ConnectionId) (t : TaskId) : Bool :=
  match r.connections[c]? with
  | some k =>
    match k.turn with
    | some s => s.isHeldBy t
    | none => true
  | none => true

/-- Adds a connection that was opened. -/
def addConnection (r : Router) (target : Target) : Router :=
  { r with
    connections := r.connections ++
      [⟨target, if r.serialized.get target then some .lock else none, false⟩] }

end Router

end MetricBoard
