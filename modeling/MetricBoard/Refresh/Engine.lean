import MetricBoard.Concurrency.Bell
import MetricBoard.Refresh.Batch
import MetricBoard.Refresh.Storage
import MetricBoard.Router.Call

/-!
# The refresh engine

What the tasks of the engine share: the router, the storage, the batches with their permits, the
tokens that have been fired, and the scheduler. A step of a task is given what the world outside
knows at that moment (`Outside`), and may ask for further tasks to be started.
-/

namespace MetricBoard

/-- The scheduler of batches. -/
structure Scheduler where
  intervalMs : Nat := 3600000
  retentionDays : Nat := 90
  /-- The task whose batch is in progress. -/
  busy : Option TaskId := none
  lastReport : Option Report := none
  /-- Rung when a batch is wanted. -/
  bell : Bell := {}
  /-- The loops that a stop has to wait for. -/
  started : List TaskId := []
  /-- The loops that have not ended. -/
  alive : List TaskId := []
  deriving DecidableEq, Repr

/-- What the tasks of the engine share. -/
structure Engine where
  router : Router
  options : RefreshOptions := {}
  storage : Storage := {}
  fired : List Token := []
  batches : List Batch := []
  scheduler : Scheduler := {}
  deriving DecidableEq, Repr

/-- What ends the wait of the refresh loop. -/
inductive Wake where
  | stop
  | tick
  | ring
  deriving DecidableEq, Repr

/-- What a step learns from the world outside. -/
structure Outside where
  /-- The answer of a server, if it has come. -/
  answer : Option Answer := none
  /-- The time of day. -/
  now : Moment
  /-- Milliseconds on a clock that never goes back. -/
  ms : Nat
  /-- An id that no report has. -/
  freshId : String
  /-- The number of the next task. -/
  nextTask : TaskId
  /-- Which of several wakes counts: the first in this order. -/
  order : List Wake := [.stop, .tick, .ring]
  /-- Which of the step's statements the store refuses. -/
  refusals : List Bool := []
  deriving DecidableEq, Repr

/-- A task to be started. -/
inductive Spawn where
  | closing (c : ConnectionId)
  /-- A metric of a batch, by its place. -/
  | metric (batch index : Nat)
  | refreshLoop
  | retentionLoop
  deriving DecidableEq, Repr

/-- What a step of a task comes to. -/
structure EngineStep (σ ρ : Type) where
  engine : Engine
  next : Next σ ρ
  /-- The tasks to be started, in this order. -/
  spawns : List Spawn := []
  deriving DecidableEq, Repr

/-- The step of an inner task as a step of the outer one. -/
def EngineStep.within {σ τ ρ ρ' : Type} (inner : σ → τ) (after : ρ → Next τ ρ')
    (s : EngineStep σ ρ) : EngineStep τ ρ' :=
  ⟨s.engine, s.next.within inner after, s.spawns⟩

/-- How work of the engine ends. -/
inductive Ended (α : Type) where
  | value (a : α)
  | error (e : AppError)
  | brokeDown
  deriving DecidableEq, Repr

namespace Engine

/-- Whether a token has been fired. -/
def isFired (e : Engine) (token : Token) : Bool := e.fired.contains token

/-- Fires a token. -/
def fire (e : Engine) (token : Token) : Engine := { e with fired := token :: e.fired }

/-- The engine with a batch changed. -/
def onBatch (e : Engine) (b : Nat) (f : Batch → Batch) : Engine :=
  { e with batches := e.batches.modify b f }

/-- The engine with the scheduler changed. -/
def onScheduler (e : Engine) (f : Scheduler → Scheduler) : Engine :=
  { e with scheduler := f e.scheduler }

/-- The engine after a step on the router. -/
def afterRouter {σ τ ρ ρ' : Type} (e : Engine) (inner : σ → τ) (after : ρ → Next τ ρ')
    (s : RouterStep σ ρ) : EngineStep τ ρ' :=
  ⟨{ e with router := s.router }, s.next.within inner after, s.closes.toList.map Spawn.closing⟩

end Engine

end MetricBoard
