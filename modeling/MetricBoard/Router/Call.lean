import MetricBoard.Router.Execute

/-!
# Calls on the router

Everything that a task may be doing with the router, in one type.
-/

namespace MetricBoard

/-- A call on the router, at a stage of it. -/
inductive Call where
  | acquire (a : Acquire)
  | statement (s : Statement)
  | execute (e : Execute)
  | invalidate (i : Invalidate)
  | discard (d : Discard)
  | close (c : Close)
  | shutdown (s : Shutdown)
  /-- Closing a connection that is no longer cached. -/
  | closing (c : ConnectionId)
  deriving DecidableEq, Repr

/-- What a call comes to. -/
inductive CallResult where
  | acquired (r : Except AcquireError ConnectionId)
  | ran (r : StatementResult)
  | executed (r : ExecuteResult)
  /-- Whether the connection was in its slot. -/
  | givenUp (wasCached : Bool)
  | finished
  deriving DecidableEq, Repr

namespace Call

/-- What the stage asks of a server. -/
def request? : Call → Option Request
  | acquire a => a.request?
  | statement s => s.request?
  | execute e => e.request?
  | invalidate i => i.request?
  | discard _ => none
  | close c => c.request?
  | shutdown s => s.request?
  | closing c => some (.close c)

/-- The step that task `t` can take, given the server's answer if it has come. -/
def step (t : TaskId) (answer : Option Answer) (r : Router) :
    Call → Option (RouterStep Call CallResult)
  | acquire a => (a.step t answer r).map <| RouterStep.within acquire fun x => .done (.acquired x)
  | statement s =>
    (s.step t answer r).map <| RouterStep.within statement fun x => .done (.ran x)
  | execute e => (e.step t answer r).map <| RouterStep.within execute fun x => .done (.executed x)
  | invalidate i =>
    (i.step t answer r).map <| RouterStep.within invalidate fun x => .done (.givenUp x)
  | discard d => (d.step t r).map <| RouterStep.within discard fun x => .done (.givenUp x)
  | close c => (c.step t answer r).map <| RouterStep.within close fun _ => .done .finished
  | shutdown s => (s.step t answer r).map <| RouterStep.within shutdown fun _ => .done .finished
  | closing _ => if answer = some .closed then some ⟨r, .done .finished, none⟩ else none

end Call

end MetricBoard
