/-!
# Permits in the order of the requests

A semaphore hands out at most `limit` permits at a time. A request that cannot be met at once waits
behind those made before it, and a permit that is given back goes to the first that waits before
anyone else can ask for it. A lock is a semaphore with one permit.
-/

namespace MetricBoard

/-- A task, by its number. -/
abbrev TaskId := Nat

/-- Permits, and the tasks that hold one or wait for one. -/
structure Semaphore where
  limit : Nat
  holders : List TaskId := []
  /-- The tasks that wait, the first to be served in front. -/
  waiting : List TaskId := []
  deriving DecidableEq, Repr

namespace Semaphore

/-- A lock that nobody holds. -/
def lock : Semaphore := { limit := 1 }

/-- Whether a task holds a permit. -/
def isHeldBy (s : Semaphore) (t : TaskId) : Bool := s.holders.contains t

/-- Whether a request would be met at once. -/
def hasFree (s : Semaphore) : Bool := s.holders.length < s.limit && s.waiting.isEmpty

/-- The semaphore after a task has asked for a permit. -/
def request (s : Semaphore) (t : TaskId) : Semaphore :=
  if s.hasFree then { s with holders := s.holders ++ [t] }
  else { s with waiting := s.waiting ++ [t] }

/-- Gives a free permit to the first that waits. -/
def serve (s : Semaphore) : Semaphore :=
  match s.waiting with
  | t :: ts =>
    if s.holders.length < s.limit then { s with holders := s.holders ++ [t], waiting := ts } else s
  | [] => s

/-- The semaphore after a task has given its permit back. -/
def release (s : Semaphore) (t : TaskId) : Semaphore :=
  serve { s with holders := s.holders.erase t }

/-- The semaphore after a task has taken back its request, or its permit if it got one. -/
def withdraw (s : Semaphore) (t : TaskId) : Semaphore :=
  if s.isHeldBy t then s.release t else { s with waiting := s.waiting.erase t }

end Semaphore

end MetricBoard
