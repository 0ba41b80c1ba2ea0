import MetricBoard.Concurrency.Semaphore

/-!
# A bell

A ring wakes the task that has listened longest. If nobody listens it is kept for the next one that
does, and further rings until then are the same ring. A task that was woken but turns away before
it has noticed rings again for the others.
-/

namespace MetricBoard

/-- A bell. -/
structure Bell where
  /-- Whether a ring is kept. -/
  kept : Bool := false
  /-- The tasks that listen, the one that has listened longest in front. -/
  listening : List TaskId := []
  /-- The tasks that were woken and have not noticed yet. -/
  woken : List TaskId := []
  deriving DecidableEq, Repr

namespace Bell

/-- Rings the bell. -/
def ring (b : Bell) : Bell :=
  match b.listening with
  | t :: ts => { b with listening := ts, woken := b.woken ++ [t] }
  | [] => { b with kept := true }

/-- A task begins to listen. -/
def listen (b : Bell) (t : TaskId) : Bell := { b with listening := b.listening ++ [t] }

/-- A task notices that it was woken. -/
def notice (b : Bell) (t : TaskId) : Bell := { b with woken := b.woken.erase t }

/-- A task turns away. -/
def leave (b : Bell) (t : TaskId) : Bell :=
  if b.woken.contains t then (b.notice t).ring else { b with listening := b.listening.erase t }

end Bell

end MetricBoard
