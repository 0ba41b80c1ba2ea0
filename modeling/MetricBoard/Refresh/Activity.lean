import MetricBoard.Refresh.Scheduling

/-!
# Tasks of the engine

Everything that a task of the engine may be doing, in one type, and the engine with its tasks: in
one step some task takes the step it can take, and the tasks that it asks for are added.
-/

namespace MetricBoard

/-- What a task is doing, at a stage of it. -/
inductive Activity where
  | call (c : Call)
  | metric (b index : Nat) (m : Metric)
  | batch (r : BatchRun)
  | catalog (r : CatalogRun)
  | runOnce (r : RunOnce)
  | refreshLoop (l : RefreshLoop)
  | retentionLoop (l : RetentionLoop)
  | stop (s : Stop)
  deriving DecidableEq, Repr

/-- What a task comes to. -/
inductive Result where
  | called (r : CallResult)
  | reported (r : Ended (Option Report))
  | finished
  deriving DecidableEq, Repr

/-- The task that is asked for. -/
def Spawn.activity : Spawn → Activity
  | closing c => .call (.closing c)
  | metric b index => .metric b index .start
  | refreshLoop => .refreshLoop .start
  | retentionLoop => .retentionLoop .start

namespace Activity

/-- What the stage asks of a server. -/
def request? : Activity → Option Request
  | call c => c.request?
  | metric _ _ m => m.request?
  | _ => none

/-- The time of the next tick of a loop. -/
def timer? : Activity → Option Nat
  | refreshLoop (.waiting tick) | refreshLoop (.running tick _) => some tick
  | retentionLoop (.waiting tick) => some tick
  | _ => none

/-- The result of a batch. -/
def reported : Ended Report → Result
  | .value r => .reported (.value (some r))
  | .error fault => .reported (.error fault)
  | .brokeDown => .reported .brokeDown

/-- The step that task `t` can take. -/
def step (out : Outside) (t : TaskId) (e : Engine) : Activity → Option (EngineStep Activity Result)
  | call c =>
    (c.step t out.answer e.router).map <| e.afterRouter call fun r => .done (.called r)
  | metric b index m =>
    match e.batches[b]? with
    | some k =>
      match k.definitions[index]? with
      | some d =>
        (m.step out t b index k d e).map <|
          EngineStep.within (metric b index) fun _ => .done .finished
      | none => some ⟨e, .done .finished, []⟩
    | none => some ⟨e, .done .finished, []⟩
  | batch r => (r.step out e).map <| EngineStep.within batch fun x => .done (reported x)
  | catalog r => (r.step out e).map <| EngineStep.within catalog fun x => .done (reported x)
  | runOnce r => (r.step out t e).map <| EngineStep.within runOnce fun x => .done (.reported x)
  | refreshLoop l =>
    (l.step out t e).map <| EngineStep.within refreshLoop fun _ => .done .finished
  | retentionLoop l =>
    (l.step out t e).map <| EngineStep.within retentionLoop fun _ => .done .finished
  | stop s => (s.step e).map <| EngineStep.within stop fun _ => .done .finished

end Activity

/-- The engine and its tasks. -/
structure World where
  engine : Engine
  /-- The tasks by their numbers; one that has ended does nothing any more. -/
  tasks : List (Option Activity) := []
  deriving DecidableEq, Repr

namespace World

/-- What a task is doing. -/
def activity? (w : World) (t : TaskId) : Option Activity := (w.tasks[t]?).join

/-- The world with further tasks. -/
def spawn (w : World) (as : List Activity) : World := { w with tasks := w.tasks ++ as.map some }

/-- What the world outside tells, with the number of the next task. -/
def outside (w : World) (out : Outside) : Outside := { out with nextTask := w.tasks.length }

/-- The world after the step that task `t` can take, and what the task came to if it ended. -/
def step (out : Outside) (t : TaskId) (w : World) : Option (World × Option Result) := do
  let s ← (← w.activity? t).step (w.outside out) t w.engine
  let spawned := s.spawns.map Spawn.activity
  match s.next with
  | .stage a => return (⟨s.engine, w.tasks.set t (some a) ++ spawned.map some⟩, none)
  | .done r => return (⟨s.engine, w.tasks.set t none ++ spawned.map some⟩, some r)

end World

end MetricBoard
