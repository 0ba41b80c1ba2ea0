import MetricBoard.Refresh.Engine

/-!
# Refreshing one metric

A metric of a batch gets its two permits, unless the batch is cancelled before; then its expression
is transpiled and executed, what came of it is recorded, and the permits are given back. Nothing
that goes wrong with one metric ends the batch.
-/

namespace MetricBoard

/-- The stages of computing a metric's value. -/
inductive Compute where
  | acquiring (sql : String) (a : Acquire)
  | executing (x : Execute)
  deriving DecidableEq, Repr

namespace Compute

/-- What the stage asks of a server. -/
def request? : Compute → Option Request
  | acquiring _ a => a.request?
  | executing x => x.request?

/-- How to go on with a connection, or without one. -/
def afterAcquire (limitMs : Nat) (sql : String) :
    Except AcquireError ConnectionId → Next Compute ExecuteResult
  | .ok c => .stage (executing (.start c sql limitMs))
  | .error e => .done (.failure ⟨e.kind, e.message⟩)

/-- The step that task `t` can take, given the server's answer if it has come. -/
def step (t : TaskId) (answer : Option Answer) (limitMs : Nat) (r : Router) :
    Compute → Option (RouterStep Compute ExecuteResult)
  | acquiring sql a =>
    (a.step t answer r).map <| RouterStep.within (acquiring sql) (afterAcquire limitMs sql)
  | executing x => (x.step t answer r).map <| RouterStep.within executing Next.done

end Compute

/-- The stages of refreshing a metric. -/
inductive Metric where
  | start
  /-- Waiting for the permit of its server. -/
  | queuedTarget
  /-- Waiting for the permit over all servers. -/
  | queuedOverall
  /-- Both permits are there. -/
  | admitted
  | computing (startedMs : Nat) (c : Compute)
  | recording (startedMs : Nat) (result : Except Failure Binary64)
  /-- About to give back the permit of its server. -/
  | leavingTarget (outcome : Option Outcome)
  /-- About to give back the permit over all servers. -/
  | leavingOverall (outcome : Option Outcome)
  /-- About to end. -/
  | ending (outcome : Option Outcome)
  deriving DecidableEq, Repr

namespace Metric

/-- What the stage asks of a server. -/
def request? : Metric → Option Request
  | computing _ c => c.request?
  | _ => none

/-- The stage after the start: the statement is the transpiled expression. -/
def begin (options : RefreshOptions) (d : Definition) (ms : Nat) : Metric :=
  match Expression.transpile (options.dialect d.target) d.expression with
  | .ok sql => computing ms (.acquiring sql (.start d.target))
  | .error r => recording ms (.error ⟨.unsupportedExpression, r.message⟩)

/-- The write of a result. -/
def write (result : Except Failure Binary64) (now : Moment) : Write :=
  match result with
  | .ok x => .success x now
  | .error f => .failure f.kind f.message now

/-- The outcome of a result. -/
def outcome (d : Definition) (result : Except Failure Binary64) (elapsedMs : Nat)
    (persisted : Bool) : Outcome :=
  match result with
  | .ok x => ⟨d.id, d.target, true, x.finiteOrZero, none, none, elapsedMs, persisted⟩
  | .error f => ⟨d.id, d.target, false, .zero, some f.kind, some f.message, elapsedMs, persisted⟩

/-- How to go on with a computed value, or without one. -/
def afterCompute (startedMs : Nat) : ExecuteResult → Next Metric Unit
  | .value x => .stage (recording startedMs (.ok x))
  | .failure f => .stage (recording startedMs (.error f))
  | .brokeDown => .stage (leavingTarget none)

/-- Whether what recording came to is a success. -/
def isOk {ε α : Type} : Except ε α → Bool
  | .ok _ => true
  | .error _ => false

/-- The step that task `t` can take for the metric at place `index` of batch `b`, which has
definition `d`. -/
def step (out : Outside) (t : TaskId) (b index : Nat) (batch : Batch) (d : Definition)
    (e : Engine) (m : Metric) : Option (EngineStep Metric Unit) :=
  let isCancelled := e.isFired batch.token
  let perTarget := batch.admission.perTarget.get d.target
  match m with
  | start =>
    if isCancelled then some ⟨e, .stage (ending (some (.cancelled d))), []⟩
    else some ⟨e.onBatch b fun k => k.onTarget d.target (·.request t), .stage queuedTarget, []⟩
  | queuedTarget =>
    if isCancelled then
      some ⟨e.onBatch b fun k => k.onTarget d.target (·.withdraw t),
        .stage (ending (some (.cancelled d))), []⟩
    else if perTarget.isHeldBy t then
      some ⟨e.onBatch b fun k => k.onOverall (·.request t), .stage queuedOverall, []⟩
    else none
  | queuedOverall =>
    if isCancelled then
      some ⟨e.onBatch b fun k => (k.onOverall (·.withdraw t)).onTarget d.target (·.release t),
        .stage (ending (some (.cancelled d))), []⟩
    else if batch.admission.overall.isHeldBy t then some ⟨e, .stage admitted, []⟩
    else none
  | admitted =>
    if isCancelled then some ⟨e, .stage (leavingTarget (some (.cancelled d))), []⟩
    else some ⟨e, .stage (begin e.options d out.ms), []⟩
  | computing startedMs c =>
    (c.step t out.answer e.options.queryTimeoutMs e.router).map <|
      e.afterRouter (computing startedMs) (afterCompute startedMs)
  | recording startedMs result =>
    match e.storage.record out.refusals d.id (write result out.now) with
    | (r, storage) =>
      some ⟨{ e with storage := storage },
        .stage (leavingTarget (some (outcome d result (out.ms - startedMs) (isOk r)))), []⟩
  | leavingTarget o =>
    some ⟨e.onBatch b fun k => k.onTarget d.target (·.release t), .stage (leavingOverall o), []⟩
  | leavingOverall o =>
    some ⟨e.onBatch b fun k => k.onOverall (·.release t), .stage (ending o), []⟩
  | ending o => some ⟨e.onBatch b fun k => k.finish index o, .done (), []⟩

end Metric

end MetricBoard
