import MetricBoard.Rehearsal.Script
import MetricBoard.Rehearsal.Server

/-!
# Running a rehearsal

The engine is rehearsed against scripted servers on a clock that stands still while anything can go
on, and then moves straight to the earliest time that something waits for. What can go on takes
turns in the order in which it came to be able to; each runs until it has to wait. What waits for
the same time goes on in the order in which it began to wait.
-/

namespace MetricBoard.Rehearsal

/-- A step of the rehearsal that is under way, by its place in the order of starting. -/
abbrev JobId := Nat

/-- How far a step is. -/
inductive Stage where
  | pausing (until_ : Nat) (act : Act)
  | sleeping (until_ : Nat)
  /-- Waiting for a task of the engine, whose connection is to be kept under a name. -/
  | awaiting (t : TaskId) (name : Option String)
  | joining (jobs : List JobId)
  | following (job : JobId)
  | done (reply : Reply) (endedAt : Nat)

/-- What takes turns. -/
inductive Runner where
  /-- A task that the engine has started. -/
  | task (t : TaskId)
  /-- A step of the script, with the task that it has started. -/
  | job (j : JobId)
  deriving DecidableEq, Repr

/-- A rehearsal. -/
structure State where
  world : World
  servers : PerTarget Server := .const {}
  /-- The answers to come, each with its task and its time. -/
  pending : List (TaskId × Nat × Answer) := []
  ms : Nat := 0
  /-- How many steps have been taken. -/
  steps : Nat := 0
  jobs : List Stage := []
  /-- What tasks of the engine came to. -/
  results : List (TaskId × Result) := []
  handles : List (String × ConnectionId) := []
  names : List (String × JobId) := []
  /-- What has not ended. -/
  live : List Runner := []
  /-- What can go on, in the order of the turns. -/
  queue : List Runner := []
  /-- The times that are waited for, in the order in which the waits began. -/
  timers : List (Nat × Runner) := []

/-- The day on which rehearsals take place. -/
def today : Int := Moment.Date.toDay ⟨2025, 6, 1⟩

namespace State

theorem micros_lt (n : Nat) : n % 1000000 * 1000 < 2000000000 := by omega

/-- The time of day: it moves with the clock, and a little with every step. -/
def now (s : State) : Moment :=
  let micros := s.ms * 1000 + s.steps
  { Moment.ofSeconds (today * 86400 + Int.ofNat (micros / 1000000)) ⟨0, by decide⟩ with
    nano := ⟨micros % 1000000 * 1000, micros_lt micros⟩ }

/-- What a step of a task learns. -/
def outside (s : State) (answer : Option Answer) : Outside where
  answer := answer
  now := s.now
  ms := s.ms
  freshId := "report " ++ Nat.repr s.steps
  nextTask := s.world.tasks.length

/-- The rehearsal with the server of a connection changed. -/
def onServerOf (s : State) (c : ConnectionId) (f : Server → Server) : State :=
  match s.world.engine.router.target? c with
  | some target => { s with servers := s.servers.modify target f }
  | none => s

/-- A task's request goes to its server. -/
def ask (s : State) (r : Runner) (t : TaskId) (request : Request) : State :=
  let later (s : State) (answer : Answer) (delay : Nat) : State :=
    { s with
      pending := s.pending ++ [(t, s.ms + delay, answer)]
      timers := if delay = 0 then s.timers else s.timers ++ [(s.ms + delay, r)] }
  match request with
  | .connect target _ =>
    let (server, answer, delay) := (s.servers.get target).connect
    later { s with servers := s.servers.set target server } answer delay
  | .statement c sql limitMs =>
    let target := (s.world.engine.router.target? c).getD .relational
    let (server, answer, delay) := (s.servers.get target).statement t c sql limitMs
    later { s with servers := s.servers.set target server } answer delay
  | .close c =>
    let target := (s.world.engine.router.target? c).getD .relational
    later s .closed (s.servers.get target).closeDelay

/-- A task has got its answer. -/
def settle (s : State) (t : TaskId) (r : Option Request) : State :=
  let s := { s with pending := s.pending.filter (·.1 != t) }
  match r with
  | some (.statement c _ _) => s.onServerOf c fun k => k.finishStatement t
  | some (.close c) => s.onServerOf c Server.finishClose
  | _ => s

/-- The answer that a task has got by now. -/
def answer? (s : State) (t : TaskId) : Option Answer :=
  (s.pending.find? fun p => p.1 == t && p.2.1 ≤ s.ms).map (·.2.2)

/-- The request that a task has yet to make. -/
def request? (s : State) (t : TaskId) : Option Request :=
  if s.pending.any (·.1 == t) then none else (s.world.activity? t).bind Activity.request?

/-- Whether a task can go on. -/
def canStep (s : State) (t : TaskId) : Bool :=
  (s.world.step (s.outside (s.answer? t)) t).isSome || (s.request? t).isSome

/-- The reply of a step that is done, and when it was. -/
def reply? (s : State) (job : JobId) : Option (Reply × Nat) :=
  match s.jobs[job]? with
  | some (.done reply endedAt) => some (reply, endedAt)
  | _ => none

/-- Whether something can go on. -/
def isReady (s : State) : Runner → Bool
  | .task t => s.canStep t
  | .job j =>
    match s.jobs[j]? with
    | some (.pausing until_ _) | some (.sleeping until_) => until_ ≤ s.ms
    | some (.awaiting t _) => s.canStep t || (s.results.lookup t).isSome
    | some (.joining jobs) => jobs.all fun k => (s.reply? k).isSome
    | some (.following k) => (s.reply? k).isSome
    | _ => false

/-- Whatever can go on now, other than the one whose turn it is, gets a turn. -/
def wake (s : State) (current : Runner) : State :=
  { s with queue := s.queue ++ s.live.filter fun r =>
      r != current && !s.queue.contains r && s.isReady r }

/-- The tasks from a number on take turns of their own. -/
def adopt (s : State) (first : TaskId) : State :=
  { s with live :=
      s.live ++ (List.range' first (s.world.tasks.length - first)).map Runner.task }

/-- Runs a task until it has to wait, for at most `fuel` steps. -/
def runTask (r : Runner) (t : TaskId) : Nat → State → State
  | 0, s => s
  | fuel + 1, s =>
    let answer := s.answer? t
    match s.world.step (s.outside answer) t with
    | some (world, result) =>
      let request := (s.world.activity? t).bind Activity.request?
      let first := s.world.tasks.length
      let s := if answer.isSome then s.settle t request else s
      let s := { s with
        world := world
        steps := s.steps + 1
        results := result.toList.map (t, ·) ++ s.results }
      runTask r t fuel ((s.adopt first).wake r)
    | none =>
      match s.request? t with
      | some request => runTask r t fuel (s.ask r t request)
      | none => s

/-! ## Steps of the script -/

/-- The rehearsal with the engine changed. -/
def onEngine (s : State) (f : Engine → Engine) : State :=
  { s with world.engine := f s.world.engine }

/-- The rehearsal with the tables changed. -/
def onTables (s : State) (f : Store.Tables → Store.Tables) : State :=
  s.onEngine fun e => { e with storage.tables := f e.storage.tables }

/-- A step that is done at once. -/
def finished (s : State) (reply : Reply) : State × Stage := (s, .done reply s.ms)

/-- A step that starts a task of the engine and waits for it. -/
def started (s : State) (a : Activity) (name : Option String := none) : State × Stage :=
  ({ s with world := s.world.spawn [a] }, .awaiting s.world.tasks.length name)

/-- A step that uses a connection kept under a name. -/
def withHandle (s : State) (handle : String) (f : ConnectionId → State × Stage) : State × Stage :=
  match s.handles.lookup handle with
  | some c => f c
  | none => s.finished .noHandle

/-- A step that works on the store. -/
def onStore {α : Type} (s : State) (work : Store.Work α) (f : α → Reply) : State × Stage :=
  let (r, storage) := s.world.engine.storage.run [] work
  (s.onEngine fun e => { e with storage := storage }).finished (.ofStore f r)

/-- The token of a name. -/
def token : Option String → Token
  | some name => .named name
  | none => .never

/-- A connection's eviction, to start with. -/
def evict (s : State) (c : ConnectionId) : Evict :=
  .start ((s.world.engine.router.target? c).getD .relational) c

/-- Starts steps, each after its pause. -/
def startJobs (s : State) (steps : List (Nat × Act)) : State :=
  let runners := (List.range' s.jobs.length steps.length).map Runner.job
  { s with
    jobs := s.jobs ++ steps.map fun p => .pausing (s.ms + p.1) p.2
    live := s.live ++ runners
    queue := s.queue ++ runners }

/-- Does a step, or begins it. -/
def perform (s : State) : Act → State × Stage
  | .sleep ms => (s, .sleeping (s.ms + ms))
  | .all steps => (s.startJobs steps, .joining ((List.range steps.length).map (s.jobs.length + ·)))
  | .background name pause act =>
    { s with names := (name, s.jobs.length) :: s.names }.startJobs [(pause, act)] |>.finished
      .nothing
  | .join name =>
    match s.names.lookup name with
    | some job => (s, .following job)
    | none => s.finished .nothing
  | .cancel name => (s.onEngine fun e => e.fire (.named name)).finished .nothing
  | .setServer target server =>
    (s.onEngine fun e => { e with router.servers := e.router.servers.set target server }).finished
      .nothing
  | .hasDriver =>
    let drivers := s.world.engine.router.drivers
    s.finished (.flags drivers.relational drivers.fileDatabase)
  | .slots =>
    let router := s.world.engine.router
    s.finished (.phases (router.slotState .relational) (router.slotState .fileDatabase))
  | .acquire target name => s.started (.call (.acquire (.start target))) name
  | .isRetired handle =>
    match s.handles.lookup handle with
    | some c => s.finished (.flag (s.world.engine.router.isRetired c))
    | none => s.finished .nothing
  | .statement handle sql limitMs =>
    s.withHandle handle fun c => s.started (.call (.statement (.start c sql limitMs)))
  | .execute handle sql =>
    s.withHandle handle fun c =>
      s.started (.call (.execute (.start c sql s.world.engine.options.queryTimeoutMs)))
  | .invalidate handle =>
    s.withHandle handle fun c => s.started (.call (.invalidate (.evicting c (s.evict c))))
  | .discard handle =>
    s.withHandle handle fun c => s.started (.call (.discard ⟨c, s.evict c⟩))
  | .close target => s.started (.call (.close (.start target)))
  | .shutdown => s.started (.call (.shutdown .start))
  | .replaceCatalog ds => s.onStore (Store.replaceCatalog ds) .change
  | .save d =>
    let (r, storage) := s.world.engine.storage.save [] d
    (s.onEngine fun e => { e with storage := storage }).finished (.ofStore (fun _ => .nothing) r)
  | .definition id => s.onStore (Store.definition? id) .definition
  | .definitions => s.onStore Store.definitions .definitions
  | .record id w => s.onStore (Store.recordRefresh id w) .snapshot
  | .snapshots id limit => s.onStore (Store.snapshots id limit) .snapshots
  | .prune days =>
    match Store.cutoff? s.now days with
    | some cutoff => s.onStore (Store.prune cutoff) .pruned
    | none => s.finished .brokeDown
  | .saveReport r => s.onStore (Store.saveReport r) fun _ => .nothing
  | .latestReport => s.onStore Store.latestReport .report
  | .schemaVersion => s.onStore Store.schemaVersion .number
  | .reopen => (s.onTables Store.Tables.opened).finished .nothing
  | .dropTable table => (s.onTables (·.drop table)).finished .nothing
  | .refreshAll ds name => s.started (.batch (.start ds (token name)))
  | .refreshCatalog name => s.started (.catalog (.loading (token name)))
  | .runOnce => s.started (.runOnce .start)
  | .startLoops =>
    let (engine, spawns) := s.world.engine.startLoops (s.outside none)
    let world := ({ s.world with engine := engine }).spawn (spawns.map Spawn.activity)
    ({ s with world := world }.adopt s.world.tasks.length).finished .nothing
  | .trigger => (s.onEngine Engine.trigger).finished .nothing
  | .stop => s.started (.stop .start)
  | .isRunning => s.finished (.flag s.world.engine.scheduler.busy.isSome)
  | .lastReport => s.finished (.report s.world.engine.scheduler.lastReport)
  | .retain =>
    let e := s.world.engine
    let (r, engine) := e.retain (s.outside none) e.scheduler.retentionDays
    (s.onEngine fun _ => engine).finished <| match r with
      | .value p => .pruned p
      | .error fault => .error fault
      | .brokeDown => .brokeDown

/-- Takes a step further if it can go on. -/
def advance? (s : State) : Stage → Option (State × Stage)
  | .pausing until_ act => if until_ ≤ s.ms then some (s.perform act) else none
  | .sleeping until_ => if until_ ≤ s.ms then some (s.finished .nothing) else none
  | .awaiting t name =>
    (s.results.lookup t).map fun r =>
      let s := match r, name with
        | .called (.acquired (.ok c)), some name => { s with handles := (name, c) :: s.handles }
        | _, _ => s
      s.finished (.ofResult s.world.engine.router r)
  | .joining jobs => (jobs.mapM s.reply?).map fun replies => s.finished (.all replies)
  | .following job => (s.reply? job).map fun reply => s.finished reply.1
  | .done _ _ => none

/-- Runs a step of the script until it has to wait, for at most `fuel` steps. -/
def runJob (limit : Nat) (j : JobId) : Nat → State → State
  | 0, s => s
  | fuel + 1, s =>
    match s.jobs[j]? with
    | none => s
    | some stage =>
      let s := match stage with
        | .awaiting t _ => runTask (.job j) t limit s
        | _ => s
      match s.advance? stage with
      | none => s
      | some (s, stage) => runJob limit j fuel ({ s with jobs := s.jobs.set j stage }.wake (.job j))

/-- Whether something has ended. -/
def hasEnded (s : State) : Runner → Bool
  | .task t => (s.world.activity? t).isNone
  | .job j => (s.reply? j).isSome

/-- The time at which something goes on by itself. -/
def timer? (s : State) : Runner → Option Nat
  | .task t => (s.world.activity? t).bind Activity.timer?
  | .job j =>
    match s.jobs[j]? with
    | some (.pausing until_ _) | some (.sleeping until_) => some until_
    | _ => none

/-- What has had its turn is forgotten if it has ended, and else may wait for a time. -/
def retire (s : State) (r : Runner) : State :=
  if s.hasEnded r then { s with live := s.live.erase r }
  else match s.timer? r with
    | some ms =>
      if ms ≤ s.ms ∨ s.timers.contains (ms, r) then s
      else { s with timers := s.timers ++ [(ms, r)] }
    | none => s

/-- A turn. -/
def turn (limit : Nat) (s : State) (r : Runner) : State :=
  State.retire (match r with
    | .task t => s.runTask r t limit
    | .job j => s.runJob limit j limit) r

/-- Lets everything go on until all of it has to wait. -/
def rest (limit : Nat) : Nat → State → State
  | 0, s => s
  | fuel + 1, s =>
    match s.queue with
    | [] => s
    | r :: queue => rest limit fuel (turn limit { s with queue := queue } r)

/-- Lets time pass up to the earliest time that something waits for. -/
def pass? (s : State) : Option State :=
  (s.timers.map (·.1)).min?.map fun ms =>
    let (due, timers) := s.timers.partition (·.1 ≤ ms)
    let s := { s with ms := ms, timers := timers }
    { s with queue := (due.map (·.2)).eraseDups.filter s.isReady }

/-- Lets time pass until a step of the script is done. -/
def runUntil (limit : Nat) (job : JobId) : Nat → State → State
  | 0, s => s
  | fuel + 1, s =>
    let s := s.rest limit limit
    match s.reply? job with
    | some _ => s
    | none =>
      match s.pass? with
      | some s => runUntil limit job fuel s
      | none => s

/-- A bound on the steps of a rehearsal that no rehearsal comes near. -/
def stepLimit : Nat := twoTo 40

/-- Does one step after a pause, and lets everything come to rest. -/
def play (s : State) (pause : Nat) (act : Act) : State × Option Reply :=
  let job := s.jobs.length
  let s := (s.startJobs [(pause, act)]).runUntil stepLimit job stepLimit
  (s, (s.reply? job).map (·.1))

end State

end MetricBoard.Rehearsal
