import MetricBoard.Proofs.Router.Traffic

/-!
# Statements take turns

On a connection whose statements take turns, no two statements run at the same time, whatever
traffic there is on the router, and no statement is started on a connection that has been retired
(`Traffic.statements_take_turns`). The first is due to the lock of the turns, which a task keeps
from before its statement starts until after it has ended or was given up; the second to the look
that a task takes at the connection when its turn has come, in the same step in which it starts.
-/

namespace MetricBoard

/-- The connection that a statement is to run on. -/
def Request.runs? : Request → Option ConnectionId
  | statement c _ _ => some c
  | connect _ _ | close _ => none

/-- The connection on which a task has a statement running. -/
def World.runs? (w : World) (t : TaskId) : Option ConnectionId :=
  (w.request? t).bind Request.runs?

namespace Call

/-- The connection on which a statement runs at a stage. -/
def runs? (c : Call) : Option ConnectionId := c.request?.bind Request.runs?

variable {c c' : Call} {d : ConnectionId} {t : TaskId} {ans : Option Answer} {r : Router}
  {s : RouterStep Call CallResult}

/-- Only statements run on connections. -/
theorem eq_running_of_runs? (he : c.IsElementary) (h : c.runs? = some d) :
    ∃ sql limitMs, c = statement (.running d sql limitMs) := by
  cases c with
  | statement q =>
    cases q with
    | running c sql limitMs =>
      cases h
      exact ⟨sql, limitMs, rfl⟩
    | start | queued | overdue | leaving => cases h
  | acquire a => cases a <;> cases h
  | invalidate i => cases i <;> cases h
  | close k => cases k <;> cases h
  | discard | closing => cases h
  | execute | shutdown => exact he.elim

/-- A call whose statement runs has its turn. -/
theorem standing_of_runs? (he : c.IsElementary) (h : c.runs? = some d) :
    c.standing (.turn d) = .inside := by
  obtain ⟨sql, limitMs, rfl⟩ := eq_running_of_runs? he h
  exact Standing.at_self _ _

theorem Starts.runs? (h : Starts r c) : c.runs? = none := by
  cases h <;> rfl

/-- A statement is started by a task that has waited for its turn, when it has come, and only on a
connection that is not retired. -/
theorem step_runs? (h : c.step t ans r = some s) :
    s.next.All (fun c' => ∀ sql limitMs, c' = statement (.running d sql limitMs) →
      c = statement (.queued d sql limitMs) ∧ r.hasTurn d t = true ∧ r.isRetired d = false)
      fun _ => True := by
  cases c with
  | statement q =>
    obtain ⟨s', hs', rfl⟩ := Option.map_eq_some_iff.1 h
    cases Statement.does_of_step hs' with
    | run hturn hret =>
      rintro _ _ ⟨⟩
      exact ⟨rfl, hturn, hret⟩
    | leave => trivial
    | _ => rintro _ _ ⟨⟩
  | closing =>
    obtain rfl := eq_of_closing h
    trivial
  | acquire | execute | invalidate | discard | close | shutdown =>
    obtain ⟨s', -, rfl⟩ := Option.map_eq_some_iff.1 h
    cases hn : s'.next <;> simp [RouterStep.within, Next.within, Next.All, hn]

theorem starts_of_step (h : c.step t ans r = some s) (hc : c.current.Refers r)
    (hr : r.Coherent) (hn : s.next = .stage c') (hruns : c'.current.runs? = some d) :
    c.current.standing (.turn d) = .queued ∧ r.hasTurn d t = true ∧ r.isRetired d = false := by
  obtain ⟨s', hs', -, -, hgo⟩ := step_current h hc hr
  obtain ⟨sql, limitMs, hrunning⟩ := eq_running_of_runs? c'.isElementary_current hruns
  have hqueued := hgo.of_stage hn (step_runs? (d := d) hs')
    (fun c hstarts sql limitMs hc => by cases hc ▸ hstarts.runs?) sql limitMs hrunning
  refine ⟨?_, hqueued.2⟩
  rw [hqueued.1]
  exact Standing.at_self _ _

end Call

namespace World

variable {w : World} {t u : TaskId} {c : ConnectionId}

theorem Orderly.runs?_eq_some (hw : w.Orderly) (h : w.runs? t = some c) :
    ∃ k, w.call? t = some k ∧ k.current.runs? = some c := by
  rw [runs?, hw.request?_eq] at h
  cases hk : w.call? t with
  | none => simp [hk] at h
  | some k =>
    rw [hk] at h
    exact ⟨k, rfl, h⟩

/-- A task whose statement runs has its turn. -/
theorem Orderly.standing_of_runs? (hw : w.Orderly) (h : w.runs? t = some c) :
    w.standing (.turn c) t = .inside := by
  obtain ⟨k, hk, hruns⟩ := hw.runs?_eq_some h
  rw [standing_of_call? hk]
  exact Call.standing_of_runs? k.isElementary_current hruns

/-- A statement runs on a connection that there is. -/
theorem Orderly.target?_of_runs? (hw : w.Orderly) (h : w.runs? t = some c) :
    ∃ target, w.engine.router.target? c = some target := by
  obtain ⟨k, hk, hruns⟩ := hw.runs?_eq_some h
  refine Call.target?_of_standing ?_ (hw.refers t k hk)
  rw [Call.standing_of_runs? k.isElementary_current hruns]
  nofun

/-- One statement at a time runs on a connection. -/
theorem Orderly.eq_of_runs? (hw : w.Orderly) {target : Target}
    (hc : w.engine.router.target? c = some target)
    (hser : w.engine.router.serialized.get target = true) (ht : w.runs? t = some c)
    (hu : w.runs? u = some c) : t = u := by
  obtain ⟨σ, hσ⟩ := Option.isSome_iff_exists.1 (hw.turns c target hc hser)
  exact hw.eq_of_holds hσ (.inl (hw.standing_of_runs? ht)) (.inl (hw.standing_of_runs? hu))

/-- A statement is started by a task that has waited for its turn, when it has come, and only on a
connection that is not retired. -/
theorem Orderly.starts (hw : w.Orderly) {w' : World} {out : Outside} {res : Option Result}
    (h : w.step out t = some (w', res)) (hruns : w'.runs? t = some c) :
    w.standing (.turn c) t = .queued ∧ w.engine.router.hasTurn c t = true ∧
      w.engine.router.isRetired c = false := by
  obtain ⟨k, s, hk, hs, rfl, -⟩ := hw.step h
  obtain ⟨k', hk', hruns'⟩ := (hw.afterCall hk hs).runs?_eq_some hruns
  rw [call?_afterCall_self (lt_of_call? hk)] at hk'
  rw [standing_of_call? hk]
  cases hn : s.next with
  | stage k'' =>
    rw [hn] at hk'
    cases hk'
    exact Call.starts_of_step hs (hw.refers t k hk) hw.coherent hn hruns'
  | done x =>
    rw [hn] at hk'
    cases hk'

end World

/-- A step starts a statement on a connection. -/
def Move.Starts (x : Move) (c : ConnectionId) : Prop :=
  x.before.runs? x.task ≠ some c ∧ x.after.runs? x.task = some c

instance Move.decidableStarts (x : Move) : DecidablePred x.Starts := fun c =>
  inferInstanceAs (Decidable (x.before.runs? x.task ≠ some c ∧ x.after.runs? x.task = some c))

/-- **Statements take turns.** At any time at most one statement runs on a connection whose
statements take turns, and none was started on a connection that had been retired. -/
theorem Traffic.statements_take_turns {made : Call → Prop} {xs : List Move} {w : World}
    (h : Traffic made xs w) :
    (∀ c target, w.engine.router.target? c = some target →
      w.engine.router.serialized.get target = true →
        ∀ t u, w.runs? t = some c → w.runs? u = some c → t = u) ∧
      ∀ x ∈ xs, ∀ c, x.Starts c → x.before.engine.router.isRetired c = false := by
  refine ⟨fun c target hc hser t u => h.orderly.eq_of_runs? hc hser, fun x hx c hstarts => ?_⟩
  obtain ⟨ys, hys, hstep⟩ := h.of_mem hx
  exact (hys.orderly.starts hstep hstarts.2).2.2

/-- Two tasks want to run a statement on one connection; one does, and the other waits. -/
def Cue.contention : List Cue :=
  opening ++ ([.query 0 "SELECT 1" 1000, .query 0 "SELECT 2" 1000, .move 2 none, .move 1 none,
    .move 2 none, .move 1 none] : List Cue)

theorem Traffic.statements_take_turns_contention :
    let p := Router.relationalOnly.enact Cue.contention
    p.2.runs? 2 = some 0 ∧ (∀ u, p.2.runs? u = some 0 → u = 2) ∧
      (∃ x ∈ p.1, x.Starts 0) ∧
        ∀ x ∈ p.1, x.Starts 0 → x.before.engine.router.isRetired 0 = false := by
  intro p
  have htraffic : Traffic (fun _ => True) p.1 p.2 := .enact rfl rfl fun _ _ _ _ _ => trivial
  obtain ⟨hone, hfresh⟩ := htraffic.statements_take_turns
  have hruns : p.2.runs? 2 = some 0 := by decide
  refine ⟨hruns, fun u hu => ?_, by decide, fun x hx => hfresh x hx 0⟩
  exact hone 0 .relational (by decide) (by decide) u 2 hu hruns

end MetricBoard
