import MetricBoard.Router.Basic

/-!
# Running a statement on a connection

Statements on a connection take turns where they have to. The limit on a statement's time starts
with its turn, so waiting behind others never counts. A statement whose time is over is given up,
and its connection is retired before the turn is given back, so that nothing that waits runs on it.
-/

namespace MetricBoard

/-- What comes of a statement. -/
inductive StatementResult where
  | answered (r : Except DriverError (List Row))
  | elapsed
  /-- The driver broke down. -/
  | brokeDown
  deriving DecidableEq, Repr

namespace StatementResult

/-- The connection was retired before the statement's turn came. -/
def discarded : StatementResult :=
  .answered (.error (.plain .connectionError "connection was discarded while the statement waited"))

end StatementResult

/-- The stages of running a statement. -/
inductive Statement where
  | start (c : ConnectionId) (sql : String) (limitMs : Nat)
  /-- Waiting for its turn. -/
  | queued (c : ConnectionId) (sql : String) (limitMs : Nat)
  | running (c : ConnectionId) (sql : String) (limitMs : Nat)
  /-- The time is over. -/
  | overdue (c : ConnectionId)
  /-- About to give the turn back. -/
  | leaving (c : ConnectionId) (result : StatementResult)
  deriving DecidableEq, Repr

namespace Statement

/-- What the stage asks of a server. -/
def request? : Statement → Option Request
  | running c sql limitMs => some (.statement c sql limitMs)
  | _ => none

/-- The step that task `t` can take, given the server's answer if it has come. -/
def step (t : TaskId) (answer : Option Answer) (r : Router) :
    Statement → Option (RouterStep Statement StatementResult)
  | start c sql limitMs => some ⟨r.requestTurn c t, .stage (queued c sql limitMs), none⟩
  | queued c sql limitMs =>
    if r.hasTurn c t then
      if r.isRetired c then some ⟨r, .stage (leaving c .discarded), none⟩
      else some ⟨r, .stage (running c sql limitMs), none⟩
    else none
  | running c _ _ =>
    match answer with
    | some (.rows rows) => some ⟨r, .stage (leaving c (.answered (.ok rows))), none⟩
    | some (.failed e) => some ⟨r, .stage (leaving c (.answered (.error e))), none⟩
    | some .elapsed => some ⟨r, .stage (overdue c), none⟩
    | some .brokeDown => some ⟨r, .stage (leaving c .brokeDown), none⟩
    | _ => none
  | overdue c => some ⟨r.retire c, .stage (leaving c .elapsed), none⟩
  | leaving c result => some ⟨r.releaseTurn c t, .done result, none⟩

end Statement

end MetricBoard
