import MetricBoard.Refresh.Activity

/-!
# Scripts of a rehearsal

What a rehearsal does with the engine, step by step, and what it can be told in reply.
-/

namespace MetricBoard.Rehearsal

/-- A step of a rehearsal, without its pause. -/
inductive Act where
  | sleep (ms : Nat)
  /-- Starts steps side by side, each after its pause, and waits for all. -/
  | all (steps : List (Nat × Act))
  /-- Starts a step in the background, under a name. -/
  | background (name : String) (pause : Nat) (act : Act)
  /-- Waits for a step in the background. -/
  | join (name : String)
  | cancel (token : String)
  | setServer (target : Target) (server : Option ServerConfig)
  | hasDriver
  | slots
  /-- Gets a connection, and keeps it under a name. -/
  | acquire (target : Target) (name : Option String)
  | isRetired (handle : String)
  | statement (handle sql : String) (limitMs : Nat)
  | execute (handle sql : String)
  | invalidate (handle : String)
  | discard (handle : String)
  | close (target : Target)
  | shutdown
  | replaceCatalog (ds : List Definition)
  | save (d : Definition)
  | definition (id : String)
  | definitions
  | record (id : String) (w : Write)
  | snapshots (id : String) (limit : Nat)
  | prune (days : Nat)
  | saveReport (r : Report)
  | latestReport
  | schemaVersion
  /-- Opens the file of the store again. -/
  | reopen
  | dropTable (table : Store.TableName)
  | refreshAll (ds : List Definition) (token : Option String)
  | refreshCatalog (token : Option String)
  | runOnce
  | startLoops
  | trigger
  | stop
  | isRunning
  | lastReport
  | retain

/-- What a step is told. -/
inductive Reply where
  | nothing
  | flag (b : Bool)
  | flags (relational fileDatabase : Bool)
  | phases (relational fileDatabase : Phase)
  | number (n : Int)
  | handle (c : ConnectionId) (target : Target) (serialized retired : Bool)
  | noConnection (e : AcquireError)
  /-- No connection is kept under the name. -/
  | noHandle
  | rows (rows : List Row)
  | driverError (e : DriverError)
  | elapsed
  | value (x : Binary64)
  | failure (f : Failure)
  | change (c : Store.CatalogChange)
  | definition (d : Option Definition)
  | definitions (ds : List Definition)
  | snapshot (s : Snapshot)
  | snapshots (ss : List Snapshot)
  | pruned (p : Store.Pruned)
  | report (r : Option Report)
  | skipped
  | error (e : AppError)
  | brokeDown
  /-- The replies of steps side by side, with the times of their ends. -/
  | all (replies : List (Reply × Nat))

namespace Reply

/-- The reply of work on the store. -/
def ofStore {α : Type} (f : α → Reply) : Except AppError α → Reply
  | .ok a => f a
  | .error e => .error e

/-- The reply of a statement. -/
def ofStatement : StatementResult → Reply
  | .answered (.ok rs) => .rows rs
  | .answered (.error e) => .driverError e
  | .elapsed => .elapsed
  | .brokeDown => .brokeDown

/-- The reply of a task of the engine. -/
def ofResult (router : Router) : Result → Reply
  | .called (.acquired (.ok c)) =>
    .handle c ((router.target? c).getD .relational) (router.isSerialized c) (router.isRetired c)
  | .called (.acquired (.error e)) => .noConnection e
  | .called (.ran r) => ofStatement r
  | .called (.executed (.value x)) => .value x
  | .called (.executed (.failure f)) => .failure f
  | .called (.executed .brokeDown) => .brokeDown
  | .called (.givenUp b) => .flag b
  | .called .finished => .nothing
  | .reported (.value (some r)) => .report (some r)
  | .reported (.value none) => .skipped
  | .reported (.error e) => .error e
  | .reported .brokeDown => .brokeDown
  | .finished => .nothing

end Reply

end MetricBoard.Rehearsal
