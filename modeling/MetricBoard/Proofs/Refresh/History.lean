import MetricBoard.Proofs.Refresh.Operation

/-!
# Histories of an engine

A history of an engine (`Engine.Rules.History`) is an operation of it under rules, which say how the
engine may be made and what the world outside may change of it. What holds of an engine that is
made, and is kept by everything that may happen, holds all through the history
(`History.invariant`). Much of it is said of every task (`World.all_spawn`, `World.all_after`).
-/

namespace MetricBoard

/-! ## Every task -/

namespace World

variable {w : World} {P : Activity → Prop}

theorem all_spawn (hw : ∀ u x, w.activity? u = some x → P x) {a : Activity} (ha : P a) :
    ∀ u x, (w.spawn [a]).activity? u = some x → P x := by
  intro u x hx
  rw [activity?_spawn] at hx
  split at hx
  · cases hx
    exact ha
  · exact hw u x hx

/-- After a step of a task all tasks are of a kind if they were before, and the stage after the step
is, and the tasks that are started. -/
theorem all_after {t : TaskId} {e : Engine} {n : Next Activity Result} {Q : Result → Prop}
    {ps : List Spawn} (ht : t < w.tasks.length) (hw : ∀ u x, w.activity? u = some x → P x)
    (hn : n.All P Q) (hps : ∀ p : Spawn, P p.activity) :
    ∀ u x, (w.after t e n.stage? (ps.map Spawn.activity)).activity? u = some x → P x := by
  intro u x hx
  rw [activity?_after _ _ _ ht] at hx
  split at hx
  · cases n with
    | stage y =>
      cases hx
      exact hn
    | done r => cases hx
  · split at hx
    · exact hw u x hx
    · obtain ⟨p, -, rfl⟩ := List.mem_map.1 (List.mem_of_getElem? hx)
      exact hps p

end World

/-! ## Histories -/

/-- How an engine may be made, and how the world outside may change it. -/
structure Engine.Rules where
  starts : Engine → Prop
  changes : Engine → Engine → Prop
  batches_of_starts : ∀ e, starts e → e.batches = []
  batches_of_changes : ∀ e e', changes e e' → e'.batches = e.batches

namespace Engine.Rules

/-- The steps taken so far, and what they have led to. -/
inductive History (R : Engine.Rules) : List Move → World → Prop
  | idle {e : Engine} : R.starts e → History R [] ⟨e, []⟩
  | begin {xs : List Move} {w : World} {a : Activity} : History R xs w → a.isEntry = true →
    History R xs (w.spawn [a])
  | change {xs : List Move} {w : World} {e : Engine} : History R xs w → R.changes w.engine e →
    History R xs { w with engine := e }
  | move {xs : List Move} {w w' : World} {t : TaskId} {out : Outside} {res : Option Result} :
    History R xs w → w.step out t = some (w', res) →
    History R (xs ++ [⟨w, t, out, w', res⟩]) w'

/-- What begins next in a history, or which task takes a step. -/
inductive Cue where
  | begin (a : Activity)
  | move (t : TaskId) (out : Outside)

/-- The history after a cue; nothing happens if it cannot be followed. -/
def Cue.follow (p : List Move × World) : Cue → List Move × World
  | begin a => if a.isEntry then (p.1, p.2.spawn [a]) else p
  | move t out =>
    match p.2.step out t with
    | some (w, res) => (p.1 ++ [⟨p.2, t, out, w, res⟩], w)
    | none => p

namespace History

variable {R : Engine.Rules} {xs : List Move} {w : World}

theorem operation (h : R.History xs w) : Operation xs w := by
  induction h with
  | idle he => exact .idle (R.batches_of_starts _ he)
  | begin _ ha ih => exact ih.begin ha
  | change _ he ih => exact ih.change (R.batches_of_changes _ _ he)
  | move _ hstep ih => exact ih.move hstep

/-- What holds at the start and is kept by all that may happen holds all through, also before each
step that was taken. -/
theorem invariant {P : World → Prop} (hidle : ∀ e, R.starts e → P ⟨e, []⟩)
    (hbegin : ∀ v a, Activity.isEntry a = true → P v → P (v.spawn [a]))
    (hchange : ∀ (v : World) e, R.changes v.engine e → P v → P { v with engine := e })
    (hmove : ∀ (v v' : World) out t res, v.Regular → v.step out t = some (v', res) → P v → P v')
    (h : R.History xs w) :
    P w ∧ ∀ x ∈ xs, P x.before ∧ x.before.step x.outside x.task = some (x.after, x.result) := by
  induction h with
  | idle he => exact ⟨hidle _ he, fun _ hx => by cases hx⟩
  | begin _ ha ih => exact ⟨hbegin _ _ ha ih.1, ih.2⟩
  | change _ he ih => exact ⟨hchange _ _ he ih.1, ih.2⟩
  | @move xs w w' t out res h hstep ih =>
    refine ⟨hmove w w' out t res h.operation.regular hstep ih.1, fun x hx => ?_⟩
    rcases List.mem_append.1 hx with hx | hx
    · exact ih.2 x hx
    · obtain rfl := List.mem_singleton.1 hx
      exact ⟨ih.1, hstep⟩

theorem follow {p : List Move × World} (h : R.History p.1 p.2) (cues : List Cue) :
    R.History (cues.foldl Cue.follow p).1 (cues.foldl Cue.follow p).2 := by
  induction cues generalizing p with
  | nil => exact h
  | cons q cues ih =>
    refine ih ?_
    cases q with
    | begin a =>
      rw [Cue.follow]
      split
      · exact h.begin ‹_›
      · exact h
    | move t out =>
      rw [Cue.follow]
      split
      · exact h.move ‹_›
      · exact h

end History

end Engine.Rules

end MetricBoard
