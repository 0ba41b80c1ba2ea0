import MetricBoard.Router.Acquire
import MetricBoard.Router.Eviction
import MetricBoard.Router.Statement

/-!
# Executing a statement

A statement is executed on a connection and its result reduced to one number. If the connection was
retired while the statement waited, the statement is tried once more on a fresh connection. A
failure after which the connection may be unusable gives the connection up: after a timeout without
waiting for the close, which may take as long as the statement does, and otherwise waiting for it.
-/

namespace MetricBoard

/-- What went wrong with a metric. -/
structure Failure where
  kind : ErrorKind
  message : String
  deriving DecidableEq, Repr

/-- What executing a statement comes to. -/
inductive ExecuteResult where
  | value (x : Binary64)
  | failure (f : Failure)
  /-- The driver broke down. -/
  | brokeDown
  deriving DecidableEq, Repr

/-- The stages of executing a statement. -/
inductive Execute where
  | first (sql : String) (limitMs : Nat) (c : ConnectionId) (q : Statement)
  | reconnecting (sql : String) (limitMs : Nat) (a : Acquire)
  | second (limitMs : Nat) (c : ConnectionId) (q : Statement)
  | discarding (f : Failure) (d : Discard)
  | invalidating (f : Failure) (i : Invalidate)
  deriving DecidableEq, Repr

namespace Execute

/-- The first stage. -/
def start (c : ConnectionId) (sql : String) (limitMs : Nat) : Execute :=
  first sql limitMs c (.start c sql limitMs)

/-- What the stage asks of a server. -/
def request? : Execute → Option Request
  | first _ _ _ q | second _ _ q => q.request?
  | reconnecting _ _ a => a.request?
  | discarding _ _ => none
  | invalidating _ i => i.request?

/-- The failure of a statement whose time was over. -/
def overdue (limitMs : Nat) : Failure :=
  ⟨.timeout, "query did not finish within " ++ Nat.repr limitMs ++ " ms"⟩

/-- How to go on after a statement on a connection to a server. -/
def conclude (limitMs : Nat) (target : Target) (c : ConnectionId) :
    StatementResult → Next Execute ExecuteResult
  | .answered (.ok rows) => .done (.value (scalar rows))
  | .answered (.error e) =>
    let f : Failure := ⟨e.kind, e.text⟩
    if e.kind = .timeout then .stage (discarding f ⟨c, .start target c⟩)
    else if e.kind.poisons then .stage (invalidating f (.evicting c (.start target c)))
    else .done (.failure f)
  | .elapsed => .stage (discarding (overdue limitMs) ⟨c, .start target c⟩)
  | .brokeDown => .done .brokeDown

/-- Whether a statement is tried again: its connection failed it and has been retired. -/
def isRetried (r : Router) (c : ConnectionId) : StatementResult → Bool
  | .answered (.error e) => e.kind == .connectionError && r.isRetired c
  | _ => false

/-- How to go on after the first try. -/
def afterFirst (sql : String) (limitMs : Nat) (r : Router) (c : ConnectionId)
    (q : StatementResult) : Next Execute ExecuteResult :=
  match r.target? c with
  | some target =>
    if isRetried r c q then .stage (reconnecting sql limitMs (.start target))
    else conclude limitMs target c q
  | none => .done .brokeDown

/-- How to go on after the second try. -/
def afterSecond (limitMs : Nat) (r : Router) (c : ConnectionId) (q : StatementResult) :
    Next Execute ExecuteResult :=
  match r.target? c with
  | some target => conclude limitMs target c q
  | none => .done .brokeDown

/-- How to go on with a fresh connection, or without one. -/
def afterAcquire (sql : String) (limitMs : Nat) :
    Except AcquireError ConnectionId → Next Execute ExecuteResult
  | .ok c => .stage (second limitMs c (.start c sql limitMs))
  | .error e => .done (.failure ⟨e.kind, e.message⟩)

/-- The step that task `t` can take, given the server's answer if it has come. -/
def step (t : TaskId) (answer : Option Answer) (r : Router) :
    Execute → Option (RouterStep Execute ExecuteResult)
  | first sql limitMs c q =>
    (q.step t answer r).map fun s =>
      s.within (first sql limitMs c) (afterFirst sql limitMs s.router c)
  | reconnecting sql limitMs a =>
    (a.step t answer r).map <|
      RouterStep.within (reconnecting sql limitMs) (afterAcquire sql limitMs)
  | second limitMs c q =>
    (q.step t answer r).map fun s => s.within (second limitMs c) (afterSecond limitMs s.router c)
  | discarding f d =>
    (d.step t r).map <| RouterStep.within (discarding f) fun _ => .done (.failure f)
  | invalidating f i =>
    (i.step t answer r).map <| RouterStep.within (invalidating f) fun _ => .done (.failure f)

end Execute

end MetricBoard
