import MetricBoard.Refresh.BatchRun

/-!
# Scheduling batches

The scheduler runs batches of the whole catalog, one at a time (`RunOnce`). Its loop runs one at
each tick of the interval and one when the bell is rung (`RefreshLoop`); ticks that were missed
while a batch ran are not made up for, and the ticks after it fall where they would have. A second
loop prunes the history every hour (`RetentionLoop`). A stop fires the shutdown token, which cancels
the batch in progress, and waits for the loops (`Stop`).
-/

namespace MetricBoard

/-- The stages of running a batch if none is in progress. -/
inductive RunOnce where
  | start
  | running (c : CatalogRun)
  | publishing (r : Report)
  /-- The batch is over. -/
  | leaving (result : Ended (Option Report))
  deriving DecidableEq, Repr

namespace RunOnce

/-- How to go on after the batch. -/
def afterBatch : Ended Report → Next RunOnce (Ended (Option Report))
  | .value r => .stage (publishing r)
  | .error fault => .stage (leaving (.error fault))
  | .brokeDown => .stage (leaving .brokeDown)

/-- The step that task `t` can take. No report means that a batch was in progress. -/
def step (out : Outside) (t : TaskId) (e : Engine) :
    RunOnce → Option (EngineStep RunOnce (Ended (Option Report)))
  | start =>
    if e.scheduler.busy.isSome then some ⟨e, .done (.value none), []⟩
    else some ⟨e.onScheduler fun s => { s with busy := some t },
      .stage (running (.loading .shutdown)), []⟩
  | running c => (c.step out e).map <| EngineStep.within running afterBatch
  | publishing r =>
    some ⟨e.onScheduler fun s => { s with lastReport := some r },
      .stage (leaving (.value (some r))), []⟩
  | leaving result => some ⟨e.onScheduler fun s => { s with busy := none }, .done result, []⟩

end RunOnce

/-- The milliseconds after which a tick that came late still counts as on time. -/
def tickTolerance : Nat := 5

/-- The tick after one that was due at some time and is noticed now: the next multiple of the
interval, of those still to come if the tick is late. -/
def nextTick (intervalMs due now : Nat) : Nat :=
  if due + tickTolerance < now then now + intervalMs - (now - due) % intervalMs
  else due + intervalMs

/-- The stages of the loop that runs batches. -/
inductive RefreshLoop where
  | start
  /-- About to look for something to do. -/
  | looking (tick : Nat)
  /-- Waiting for a tick or the bell. -/
  | waiting (tick : Nat)
  | running (tick : Nat) (r : RunOnce)
  deriving DecidableEq, Repr

namespace RefreshLoop

/-- Whether a wake is there, for a task that is looking. -/
def isThere (out : Outside) (e : Engine) (tick : Nat) : Wake → Bool
  | .stop => e.isFired .shutdown
  | .tick => tick ≤ out.ms
  | .ring => e.scheduler.bell.kept

/-- Whether a wake is there, for task `t` that is waiting. -/
def hasCome (out : Outside) (t : TaskId) (e : Engine) (tick : Nat) : Wake → Bool
  | .stop => e.isFired .shutdown
  | .tick => tick ≤ out.ms
  | .ring => e.scheduler.bell.woken.contains t

/-- The end of a loop. -/
def finish (t : TaskId) (e : Engine) : EngineStep RefreshLoop Unit :=
  ⟨e.onScheduler fun s => { s with alive := s.alive.erase t }, .done (), []⟩

/-- What a wake leads to. -/
def wake (out : Outside) (t : TaskId) (tick : Nat) (e : Engine) :
    Wake → EngineStep RefreshLoop Unit
  | .stop => finish t e
  | .tick => ⟨e, .stage (running (nextTick e.scheduler.intervalMs tick out.ms) .start), []⟩
  | .ring => ⟨e, .stage (running tick .start), []⟩

/-- How to go on after a batch; a failed one changes nothing, but one that broke down ends the
loop. -/
def afterBatch (t : TaskId) (tick : Nat) (s : EngineStep RunOnce (Ended (Option Report))) :
    EngineStep RefreshLoop Unit :=
  match s.next with
  | .done .brokeDown => { finish t s.engine with spawns := s.spawns }
  | .done _ => ⟨s.engine, .stage (looking tick), s.spawns⟩
  | .stage r => ⟨s.engine, .stage (running tick r), s.spawns⟩

/-- The step that task `t` can take. -/
def step (out : Outside) (t : TaskId) (e : Engine) :
    RefreshLoop → Option (EngineStep RefreshLoop Unit)
  | start =>
    if e.scheduler.intervalMs = 0 then some (finish t e)
    else some ⟨e, .stage (looking out.ms), []⟩
  | looking tick =>
    match out.order.find? (isThere out e tick) with
    | some .ring =>
      some (wake out t tick
        (e.onScheduler fun s => { s with bell := { s.bell with kept := false } }) .ring)
    | some w => some (wake out t tick e w)
    | none =>
      some ⟨e.onScheduler fun s => { s with bell := s.bell.listen t }, .stage (waiting tick), []⟩
  | waiting tick =>
    (out.order.find? (hasCome out t e tick)).map fun w =>
      wake out t tick (e.onScheduler fun s =>
        { s with bell := if w = .ring then s.bell.notice t else s.bell.leave t }) w
  | running tick r => (r.step out t e).map (afterBatch t tick)

end RefreshLoop

/-- The milliseconds between two runs of the retention. -/
def retentionIntervalMs : Nat := 3600000

/-- Prunes the history by the retention of the scheduler; it breaks down where there is no moment
that long ago. -/
def Engine.retain (out : Outside) (days : Nat) (e : Engine) : Ended Store.Pruned × Engine :=
  match Store.cutoff? out.now days with
  | none => (.brokeDown, e)
  | some cutoff =>
    match e.storage.run out.refusals (Store.prune cutoff) with
    | (.ok pruned, storage) => (.value pruned, { e with storage := storage })
    | (.error fault, storage) => (.error fault, { e with storage := storage })

/-- The stages of the loop that prunes the history. -/
inductive RetentionLoop where
  | start
  | waiting (tick : Nat)
  deriving DecidableEq, Repr

namespace RetentionLoop

/-- The end of a loop. -/
def finish (t : TaskId) (e : Engine) : EngineStep RetentionLoop Unit :=
  ⟨e.onScheduler fun s => { s with alive := s.alive.erase t }, .done (), []⟩

/-- The step that task `t` can take. -/
def step (out : Outside) (t : TaskId) (e : Engine) :
    RetentionLoop → Option (EngineStep RetentionLoop Unit)
  | start => some ⟨e, .stage (waiting out.ms), []⟩
  | waiting tick =>
    if e.isFired .shutdown then some (finish t e)
    else if tick ≤ out.ms then
      match e.retain out e.scheduler.retentionDays with
      | (.brokeDown, e) => some (finish t e)
      | (_, e) => some ⟨e, .stage (waiting (tick + retentionIntervalMs)), []⟩
    else none

end RetentionLoop

/-- The stages of stopping the scheduler. -/
inductive Stop where
  | start
  /-- Waiting for loops to end. -/
  | joining (loops : List TaskId)
  deriving DecidableEq, Repr

/-- The step that a task can take that stops the scheduler. -/
def Stop.step (e : Engine) : Stop → Option (EngineStep Stop Unit)
  | start =>
    some ⟨(e.fire .shutdown).onScheduler fun s => { s with started := [] },
      .stage (joining e.scheduler.started), []⟩
  | joining loops =>
    if loops.any e.scheduler.alive.contains then none else some ⟨e, .done (), []⟩

namespace Engine

/-- Starts the two loops of the scheduler. -/
def startLoops (out : Outside) (e : Engine) : Engine × List Spawn :=
  let loops := [out.nextTask, out.nextTask + 1]
  (e.onScheduler fun s => { s with started := s.started ++ loops, alive := s.alive ++ loops },
    [.refreshLoop, .retentionLoop])

/-- Asks for a batch. -/
def trigger (e : Engine) : Engine := e.onScheduler fun s => { s with bell := s.bell.ring }

end Engine

end MetricBoard
