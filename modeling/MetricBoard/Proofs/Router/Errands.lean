import MetricBoard.Proofs.Router.Moves
import MetricBoard.Proofs.Router.Progress

/-!
# Errands

An errand is a statement that a task is to execute on a server, with the backend that answers it
(`Errand`). What is known of the task at each stage of executing it, given the router, is
`Errand.Executes`: it runs that statement, on a connection to that server, and comes to the answer
of its own statement, unless its connection is retired by another task, twice. Each step of the
task keeps this (`Execute.step_executes`), and so do the steps of other tasks if they leave what
the task uses as it is (`Errand.Keeps`, `Errand.Executes.mono`).

A task retires a connection only once: where its own statement has not been answered in time. From
then on it is spent (`Execute.isSpent`), and what it retires is retired already
(`Executes.of_retires`).
-/

namespace MetricBoard

namespace Next

variable {σ τ ρ ρ' : Type}

/-- One thing holds of the stage after a step, or another of the result. -/
def All (P : σ → Prop) (Q : ρ → Prop) : Next σ ρ → Prop
  | stage s => P s
  | done r => Q r

theorem All.within {P : σ → Prop} {Q : ρ → Prop} {P' : τ → Prop} {Q' : ρ' → Prop} {inner : σ → τ}
    {after : ρ → Next τ ρ'} {n : Next σ ρ} (h : n.All P Q) (hi : ∀ s, P s → P' (inner s))
    (ha : ∀ r, Q r → (after r).All P' Q') : (n.within inner after).All P' Q' := by
  cases n with
  | stage s => exact hi s h
  | done r => exact ha r h

theorem All.mono {P P' : σ → Prop} {Q Q' : ρ → Prop} {n : Next σ ρ} (h : n.All P Q)
    (hp : ∀ s, P s → P' s) (hq : ∀ r, Q r → Q' r) : n.All P' Q' := by
  cases n with
  | stage s => exact hp s h
  | done r => exact hq r h

theorem all_true (n : Next σ ρ) : n.All (fun _ => True) fun _ => True := by
  cases n <;> trivial

end Next

namespace Router

variable {origin r r' : Router} {target : Target} {c : ConnectionId} {gone : Option ConnectionId}

/-- No connection is forgotten, and none that was retired is used again. -/
structure Extends (r r' : Router) : Prop where
  target : ∀ c target, r.target? c = some target → r'.target? c = some target
  retired : ∀ c target, r.target? c = some target → r.isRetired c = true → r'.isRetired c = true

theorem Extends.refl (r : Router) : r.Extends r := ⟨fun _ _ h => h, fun _ _ _ h => h⟩

theorem Moves.extends (h : r.Moves gone r') : r.Extends r' := ⟨h.target, h.retired⟩

theorem Extends.trans {r'' : Router} (h : r.Extends r') (h' : r'.Extends r'') : r.Extends r'' :=
  ⟨fun c u hc => h'.target c u (h.target c u hc),
    fun c u hc hr => h'.retired c u (h.target c u hc) (h.retired c u hc hr)⟩

/-- A connection to a server that was not retired at the beginning. -/
structure Uses (origin r : Router) (target : Target) (c : ConnectionId) : Prop where
  target : r.target? c = some target
  clean : ∀ u, origin.target? c = some u → origin.isRetired c = false

/-- A connection to a server that was retired since the beginning. -/
structure Loses (origin r : Router) (target : Target) (c : ConnectionId) : Prop
    extends Uses origin r target c where
  retired : r.isRetired c = true

theorem Uses.mono (h : origin.Uses r target c) (hr : r.Extends r') : origin.Uses r' target c :=
  ⟨hr.target c target h.target, h.clean⟩

theorem Loses.mono (h : origin.Loses r target c) (hr : r.Extends r') : origin.Loses r' target c :=
  ⟨h.toUses.mono hr, hr.retired c target h.target h.retired⟩

/-- A connection that is not retired was never retired. -/
theorem uses_of_isRetired (hr : origin.Extends r) (ht : r.target? c = some target)
    (h : r.isRetired c = false) : origin.Uses r target c := by
  refine ⟨ht, fun u hu => ?_⟩
  cases ho : origin.isRetired c with
  | false => rfl
  | true => exact absurd (hr.retired c u hu ho) (by simp [h])

end Router

/-- What executing a statement comes to, where the driver does not break down. -/
def ExecuteResult.of : Except Failure Binary64 → ExecuteResult
  | .ok x => .value x
  | .error f => .failure f

/-- What a statement comes to by its own answer alone. -/
def Backend.verdict (b : Backend) (target : Target) (sql : String) (limitMs : Nat) :
    Except Failure Binary64 :=
  match b.reply target sql with
  | some (.ok rows) => .ok (scalar rows)
  | some (.error e) => .error ⟨e.kind, e.text⟩
  | none => .error (Execute.overdue limitMs)

/-- The failure of a statement whose connection was retired while it waited. -/
def Failure.discarded : Failure :=
  ⟨.connectionError, "connection was discarded while the statement waited"⟩

/-- A statement that a task is to execute on a server, and what is known of the other tasks. -/
structure Errand where
  backend : Backend
  /-- The router at the beginning. -/
  origin : Router
  target : Target
  sql : String
  limitMs : Nat
  /-- Whether other tasks use connections to the server at the same time. -/
  shared : Prop
  /-- Whether two other tasks may each cost the server a connection. -/
  crowded : Prop

/-! ## Getting a connection -/

namespace Acquire

/-- The task gets a connection to a server, and what it gets has a property. -/
def Serves (target : Target) (configured : Prop) (P : ConnectionId → Prop) : Acquire → Prop
  | start u => u = target
  | queued u _ | empty u _ | connecting u _ => u = target ∧ configured
  | refused _ _ => False
  | cached u c => u = target ∧ P c
  | leaving u x => u = target ∧ ∃ c, x = .ok c ∧ P c

theorem Serves.mono {target : Target} {configured : Prop} {P P' : ConnectionId → Prop} {a : Acquire}
    (h : a.Serves target configured P) (hp : ∀ c, P c → P' c) : a.Serves target configured P' := by
  cases a with
  | cached u c => exact ⟨h.1, hp c h.2⟩
  | leaving u x =>
    obtain ⟨hu, c, hx, hc⟩ := h
    exact ⟨hu, c, hx, hp c hc⟩
  | start | queued | empty | connecting | refused => exact h

theorem standing_turn (a : Acquire) (c : ConnectionId) : a.standing (.turn c) = .away := by
  cases a <;> rfl

theorem step_serves {b : Backend} {t : TaskId} {r : Router} {target : Target} {configured : Prop}
    {P : ConnectionId → Prop} {a : Acquire}
    {s : RouterStep Acquire (Except AcquireError ConnectionId)}
    (h : a.step t (a.request?.map (b.answer r)) r = some s) (ha : a.Serves target configured P)
    (hr : r.Coherent) (hc : ∀ p, r.parameters? target = some p → configured)
    (hp : configured → ∀ c, s.router.target? c = some target → s.router.isRetired c = false →
      P c) :
    s.next.All (Serves target configured P) fun x => (∃ c, x = .ok c ∧ P c) ∨
      x = .error (.configurationMissing target) ∧ r.parameters? target = none := by
  cases does_of_step h with
  | ask hpar =>
    obtain rfl := ha
    exact ⟨rfl, hc _ hpar⟩
  | unconfigured hnone =>
    obtain rfl := ha
    exact Or.inr ⟨rfl, hnone⟩
  | reuse _ hcached hret =>
    obtain ⟨rfl, hconf⟩ := ha
    exact ⟨rfl, _, rfl, hp hconf _ (hr _ _ hcached) hret⟩
  | drop | miss | announce => exact ha
  | connect =>
    obtain ⟨rfl, hconf⟩ := ha
    exact ⟨rfl, hp hconf _ Router.target?_opened_self Router.isRetired_opened_self⟩
  | refuse hans => cases hans
  | ready => exact ⟨ha.1, _, rfl, ha.2⟩
  | giveUp => exact ha.elim
  | leave => exact Or.inl ha.2

end Acquire

/-! ## Statements -/

namespace Statement

/-- The task has given its statement up: it retires no other connection. -/
def isSpent : Statement → Bool
  | leaving _ .elapsed => true
  | _ => false

end Statement

namespace Errand

variable (e : Errand)

/-- What the backend answers. -/
def reply : Option (Except DriverError (List Row)) := e.backend.reply e.target e.sql

/-- Whether the server can be connected to. -/
def configured : Prop := ∃ p, e.origin.parameters? e.target = some p

/-- What the task's own statement comes to. -/
def answered : StatementResult :=
  match e.reply with
  | some x => .answered x
  | none => .elapsed

/-- A connection that the task may use: others retire it only if they use it too. -/
structure Sound (r : Router) (c : ConnectionId) : Prop
    extends Router.Uses e.origin r e.target c where
  shared : r.isRetired c = true → e.shared

/-- What running the statement on a connection comes to: its own answer, or nothing as another task
has retired the connection. -/
structure Gives (r : Router) (c : ConnectionId) (x : StatementResult) : Prop
    extends Router.Uses e.origin r e.target c where
  result : x = e.answered ∧ (x = .elapsed → r.isRetired c = true) ∨
    x = .discarded ∧ r.isRetired c = true ∧ e.shared

/-- The task runs the errand's statement on a connection. -/
def Runs (r : Router) (c : ConnectionId) : Statement → Prop
  | .start c' sql _ | .queued c' sql _ => c' = c ∧ sql = e.sql ∧ e.Sound r c
  | .running c' sql _ => c' = c ∧ sql = e.sql ∧ e.origin.Uses r e.target c
  | .overdue c' => c' = c ∧ e.reply = none ∧ e.origin.Uses r e.target c
  | .leaving c' x => c' = c ∧ e.Gives r c x

/-- What the task uses stays as it is from one router to the next. -/
structure Keeps (r r' : Router) : Prop extends r.Extends r' where
  sound : ∀ c, e.Sound r c → e.Sound r' c

variable {e} {t : TaskId} {r r' : Router} {c : ConnectionId}

/-- A step that retires nothing keeps everything. -/
theorem keeps_of_moves (h : r.Moves none r') : e.Keeps r r' where
  toExtends := h.extends
  sound c hc := by
    refine ⟨hc.toUses.mono h.extends, fun hr => hc.shared ?_⟩
    exact (h.gone c hr).resolve_right (by simp)

theorem Gives.mono {x : StatementResult} (h : e.Gives r c x) (hk : r.Extends r') :
    e.Gives r' c x := by
  have hret := hk.retired c e.target h.target
  refine ⟨h.toUses.mono hk, ?_⟩
  rcases h.result with ⟨hx, he⟩ | ⟨hx, hr, hs⟩
  · exact .inl ⟨hx, fun hel => hret (he hel)⟩
  · exact .inr ⟨hx, hret hr, hs⟩

theorem Runs.mono {q : Statement} (h : e.Runs r c q) (hk : e.Keeps r r') : e.Runs r' c q := by
  cases q with
  | start | queued => exact ⟨h.1, h.2.1, hk.sound c h.2.2⟩
  | running | overdue => exact ⟨h.1, h.2.1, h.2.2.mono hk.toExtends⟩
  | leaving c' x => exact ⟨h.1, h.2.mono hk.toExtends⟩

end Errand

namespace Statement

variable {e : Errand} {t : TaskId} {ans : Option Answer} {r : Router} {c : ConnectionId}
  {q : Statement} {s : RouterStep Statement StatementResult}

theorem step_runs (h : q.step t (q.request?.map (e.backend.answer r)) r = some s)
    (hq : e.Runs r c q) :
    s.next.All (e.Runs s.router c) fun x => e.Gives s.router c x ∧ q = .leaving c x := by
  have hmoves := step_moves h
  cases q with
  | start c' sql limitMs =>
    obtain ⟨rfl, hsql, hsound⟩ := hq
    cases h
    exact ⟨rfl, hsql, (Errand.keeps_of_moves hmoves).sound c' hsound⟩
  | queued c' sql limitMs =>
    obtain ⟨rfl, hsql, hsound⟩ := hq
    cases does_of_step h with
    | discard _ hret => exact ⟨rfl, hsound.toUses, .inr ⟨rfl, hret, hsound.shared hret⟩⟩
    | run => exact ⟨rfl, hsql, hsound.toUses⟩
  | running c' sql limitMs =>
    obtain ⟨rfl, rfl, huses⟩ := hq
    have hans : e.backend.answer r (.statement c' e.sql limitMs) =
        match e.reply with
        | some (.ok rows) => .rows rows
        | some (.error e) => .failed e
        | none => .elapsed := by
      simp only [Backend.answer, huses.target]
      rfl
    simp only [step, request?, Option.map_some, hans] at h
    cases hreply : e.reply with
    | none =>
      simp only [hreply] at h
      cases h
      exact ⟨rfl, hreply, huses⟩
    | some x =>
      cases x with
      | ok rows =>
        simp only [hreply] at h
        cases h
        exact ⟨rfl, huses, .inl ⟨by simp [Errand.answered, hreply], by simp⟩⟩
      | error err =>
        simp only [hreply] at h
        cases h
        exact ⟨rfl, huses, .inl ⟨by simp [Errand.answered, hreply], by simp⟩⟩
  | overdue c' =>
    obtain ⟨rfl, hreply, huses⟩ := hq
    cases h
    refine ⟨rfl, huses.mono hmoves.extends, .inl ⟨?_, fun _ => Router.isRetired_retire_self⟩⟩
    simp [Errand.answered, hreply]
  | leaving c' x =>
    obtain ⟨rfl, hgives⟩ := hq
    cases h
    exact ⟨hgives.mono hmoves.extends, rfl⟩

/-- A task that has given its statement up, or is about to, is spent after the step. -/
theorem step_isSpent (h : q.step t ans r = some s) (hq : q.isSpent = true ∨ q.retires? ≠ none) :
    s.next.All (isSpent · = true) (· = .elapsed) := by
  cases q with
  | overdue c' =>
    cases h
    rfl
  | leaving c' x =>
    cases h
    cases x with
    | elapsed => rfl
    | answered | brokeDown => simp [isSpent, retires?] at hq
  | start | queued | running => simp [isSpent, retires?] at hq

end Statement

/-! ## Giving connections up -/

namespace Evict

/-- The connection that is taken out of its slot. -/
def connection? : Evict → Option ConnectionId
  | start _ c | queued _ c | removed _ c | hidden _ c => some c
  | leaving _ _ => none

theorem standing_turn (v : Evict) (c : ConnectionId) : v.standing (.turn c) = .away := by
  cases v <;> rfl

theorem connection?_of_retires? {v : Evict} {c : ConnectionId} (h : v.retires? = some c) :
    v.connection? = some c := by
  cases v with
  | hidden => exact h
  | start | queued | removed | leaving => cases h

theorem step_connection? {t : TaskId} {r : Router} {v : Evict} {s : RouterStep Evict Bool}
    (h : v.step t r = some s) :
    s.next.All (fun v' => ∀ c, v'.connection? = some c → v.connection? = some c) fun _ => True := by
  cases does_of_step h with
  | ask | remove | hide => exact fun c hc => hc
  | spare | retire => simp [Next.All, connection?]
  | leave => trivial

end Evict

namespace Invalidate

/-- The connection that is taken out of its slot. -/
def connection? : Invalidate → Option ConnectionId
  | evicting _ v => v.connection?
  | closing _ => none

theorem connection?_of_retires? {i : Invalidate} {c : ConnectionId} (h : i.retires? = some c) :
    i.connection? = some c := by
  cases i with
  | evicting c' v => exact Evict.connection?_of_retires? h
  | closing => cases h

theorem step_connection? {t : TaskId} {ans : Option Answer} {r : Router} {i : Invalidate}
    {s : RouterStep Invalidate Bool} (h : i.step t ans r = some s) :
    s.next.All (fun i' => ∀ c, i'.connection? = some c → i.connection? = some c)
      fun _ => True := by
  cases i with
  | evicting c' v =>
    obtain ⟨s', hs', rfl⟩ := Option.map_eq_some_iff.1 h
    refine (Evict.step_connection? hs').within (fun _ hv => hv) fun wasCached _ => ?_
    cases wasCached with
    | false => trivial
    | true => simp [Next.All, connection?]
  | closing c' =>
    obtain rfl := eq_of_closing h
    trivial

end Invalidate

theorem Discard.step_connection? {t : TaskId} {r : Router} {d : Discard}
    {s : RouterStep Discard Bool} (h : d.step t r = some s) :
    s.next.All (fun d' => ∀ c, d'.evict.connection? = some c → d.evict.connection? = some c)
      fun _ => True := by
  obtain ⟨s', hs', rfl⟩ := Option.map_eq_some_iff.1 h
  exact (Evict.step_connection? hs').within (fun _ hv => hv) fun _ _ => trivial

/-! ## Executing a statement -/

namespace Execute

/-- The task has given its statement up, or is giving up a connection that another one retired. -/
def isSpent : Execute → Bool
  | first _ _ _ q | second _ _ q => q.isSpent
  | reconnecting _ _ _ => false
  | discarding _ _ | invalidating _ _ => true

end Execute

namespace Errand

variable (e : Errand)

/-- What executing the errand's statement comes to, as far as that is up to the statement. -/
def value : Except Failure Binary64 := e.backend.verdict e.target e.sql e.limitMs

/-- What executing it may come to. -/
def Allows (y : Except Failure Binary64) : Prop := y = e.value ∨ y = .error .discarded ∧ e.crowded

/-- What executing it comes to. -/
def Yields (x : ExecuteResult) : Prop := ∃ y, x = .of y ∧ e.Allows y

/-- Another connection than this one was lost. -/
def Reconnects (r : Router) (c : ConnectionId) : Prop :=
  ∃ c', c' ≠ c ∧ e.origin.Loses r e.target c'

/-- The task executes the errand's statement. -/
def Executes (r : Router) : Execute → Prop
  | .first sql limitMs c q => sql = e.sql ∧ limitMs = e.limitMs ∧ e.Runs r c q
  | .reconnecting sql limitMs a =>
    sql = e.sql ∧ limitMs = e.limitMs ∧ (∃ c, e.origin.Loses r e.target c) ∧
      a.Serves e.target e.configured fun c => e.Sound r c ∧ e.Reconnects r c
  | .second limitMs c q => limitMs = e.limitMs ∧ e.Runs r c q ∧ e.Reconnects r c
  | .discarding f d =>
    e.value = .error f ∧ ∀ c, d.evict.connection? = some c → e.origin.Loses r e.target c
  | .invalidating f i =>
    f = .discarded ∧ e.crowded ∧ ∀ c, i.connection? = some c → e.origin.Loses r e.target c

variable {e} {r r' : Router} {c : ConnectionId} {x : Execute}

theorem Reconnects.mono (h : e.Reconnects r c) (hk : r.Extends r') : e.Reconnects r' c := by
  obtain ⟨c', hne, hc'⟩ := h
  exact ⟨c', hne, hc'.mono hk⟩

theorem Executes.mono (h : e.Executes r x) (hk : e.Keeps r r') : e.Executes r' x := by
  cases x with
  | first sql limitMs c q => exact ⟨h.1, h.2.1, h.2.2.mono hk⟩
  | reconnecting sql limitMs a =>
    obtain ⟨hsql, hlimit, ⟨c, hc⟩, ha⟩ := h
    exact ⟨hsql, hlimit, ⟨c, hc.mono hk.toExtends⟩,
      ha.mono fun c hc => ⟨hk.sound c hc.1, hc.2.mono hk.toExtends⟩⟩
  | second limitMs c q => exact ⟨h.1, h.2.1.mono hk, h.2.2.mono hk.toExtends⟩
  | discarding f d => exact ⟨h.1, fun c hc => (h.2 c hc).mono hk.toExtends⟩
  | invalidating f i => exact ⟨h.1, h.2.1, fun c hc => (h.2.2 c hc).mono hk.toExtends⟩

/-- A task that retires a connection uses it, and either it is retired already or the task's own
statement has not been answered in time. -/
theorem Executes.of_retires (h : e.Executes r x) (hc : x.retires? = some c) :
    e.origin.Uses r e.target c ∧
      (r.isRetired c = true ∨ x.isSpent = false ∧ e.reply = none) := by
  have hstatement : ∀ {q : Statement} {c'}, e.Runs r c' q → q.retires? = some c →
      e.origin.Uses r e.target c ∧ q.isSpent = false ∧ e.reply = none := by
    intro q c' hq hret
    cases q with
    | overdue c'' =>
      obtain ⟨rfl, hreply, huses⟩ := hq
      cases hret
      exact ⟨huses, rfl, hreply⟩
    | start | queued | running | leaving => cases hret
  cases x with
  | first sql limitMs c' q =>
    obtain ⟨huses, hspent⟩ := hstatement h.2.2 hc
    exact ⟨huses, .inr hspent⟩
  | reconnecting => cases hc
  | second limitMs c' q =>
    obtain ⟨huses, hspent⟩ := hstatement h.2.1 hc
    exact ⟨huses, .inr hspent⟩
  | discarding f d =>
    have hl := h.2 c (Evict.connection?_of_retires? hc)
    exact ⟨hl.toUses, .inl hl.retired⟩
  | invalidating f i =>
    have hl := h.2.2 c (Invalidate.connection?_of_retires? hc)
    exact ⟨hl.toUses, .inl hl.retired⟩

/-- A task has asked for a turn only on a connection to the errand's server. -/
theorem Executes.target_of_standing (h : e.Executes r x) (hc : x.standing (.turn c) ≠ .away) :
    r.target? c = some e.target := by
  have hstatement : ∀ {q : Statement} {c'}, e.Runs r c' q → q.standing (.turn c) ≠ .away →
      r.target? c = some e.target := by
    intro q c' hq hne
    cases q with
    | start => exact absurd rfl hne
    | queued =>
      cases Standing.eq_of_at_ne hne
      exact hq.1 ▸ hq.2.2.target
    | running | overdue =>
      cases Standing.eq_of_at_ne hne
      exact hq.1 ▸ hq.2.2.target
    | leaving =>
      cases Standing.eq_of_at_ne hne
      exact hq.1 ▸ hq.2.target
  cases x with
  | first sql limitMs c' q => exact hstatement h.2.2 hc
  | reconnecting sql limitMs a => exact absurd (a.standing_turn c) hc
  | second limitMs c' q => exact hstatement h.2.1 hc
  | discarding f d => exact absurd (d.evict.standing_turn c) hc
  | invalidating f i =>
    cases i with
    | evicting c' v => exact absurd (v.standing_turn c) hc
    | closing c' => exact absurd rfl hc

end Errand

namespace Execute

variable {e : Errand} {t : TaskId} {ans : Option Answer} {r r' : Router} {c : ConnectionId}
  {x : Execute} {s : RouterStep Execute ExecuteResult}

/-- The own answer of a statement is no reason to try it again, and to give its connection up only
if it has not come in time. -/
theorem conclude_answered (hx : e.answered = .elapsed → e.origin.Loses r e.target c) :
    (conclude e.limitMs e.target c e.answered).All (e.Executes r) e.Yields := by
  have hvalue : e.value = match e.reply with
    | some (.ok rows) => .ok (scalar rows)
    | some (.error err) => .error ⟨err.kind, err.text⟩
    | none => .error (Execute.overdue e.limitMs) := rfl
  cases hreply : e.reply with
  | none =>
    have helapsed : e.answered = .elapsed := by simp [Errand.answered, hreply]
    rw [helapsed]
    refine ⟨hvalue.trans (by simp [hreply]), fun c' hc' => ?_⟩
    cases hc'
    exact hx helapsed
  | some y =>
    have hans : e.answered = .answered y := by simp [Errand.answered, hreply]
    rw [hans]
    cases y with
    | ok rows => exact ⟨.ok (scalar rows), rfl, Or.inl (by simp [hvalue, hreply])⟩
    | error err =>
      have hp := e.backend.poisons_eq_false e.target e.sql err hreply
      have hne : err.kind ≠ .timeout := by
        intro he
        rw [he] at hp
        cases hp
      simp only [conclude, if_neg hne, hp]
      exact ⟨.error ⟨err.kind, err.text⟩, rfl, Or.inl (by simp [hvalue, hreply])⟩

theorem isRetried_answered : isRetried r c e.answered = false := by
  cases hreply : e.reply with
  | none => simp [Errand.answered, hreply, isRetried]
  | some y =>
    cases y with
    | ok rows => simp [Errand.answered, hreply, isRetried]
    | error err =>
      have hp := e.backend.poisons_eq_false e.target e.sql err hreply
      have hne : err.kind ≠ .connectionError := by
        intro he
        rw [he] at hp
        cases hp
      simp [Errand.answered, hreply, isRetried, hne]

theorem afterFirst_executes {y : StatementResult} (hy : e.Gives r c y) :
    (afterFirst e.sql e.limitMs r c y).All (e.Executes r) e.Yields := by
  simp only [afterFirst, hy.target]
  rcases hy.result with ⟨rfl, hel⟩ | ⟨rfl, hret, -⟩
  · rw [isRetried_answered]
    exact conclude_answered fun h => ⟨hy.toUses, hel h⟩
  · rw [if_pos (by simp [isRetried, StatementResult.discarded, DriverError.plain, hret])]
    exact ⟨rfl, rfl, ⟨c, hy.toUses, hret⟩, rfl⟩

theorem afterSecond_executes {y : StatementResult} (hu : e.origin.Uses r e.target c)
    (hy : y = e.answered ∧ (y = .elapsed → r.isRetired c = true) ∨
      y = .discarded ∧ r.isRetired c = true ∧ e.crowded) :
    (afterSecond e.limitMs r c y).All (e.Executes r) e.Yields := by
  simp only [afterSecond, hu.target]
  rcases hy with ⟨rfl, hel⟩ | ⟨rfl, hret, hcrowd⟩
  · exact conclude_answered fun h => ⟨hu, hel h⟩
  · refine ⟨rfl, hcrowd, fun c' hc' => ?_⟩
    cases hc'
    exact ⟨hu, hret⟩

theorem afterAcquire_executes {y : Except AcquireError ConnectionId}
    (hy : ∃ c, y = .ok c ∧ e.Sound r c ∧ e.Reconnects r c) :
    (afterAcquire e.sql e.limitMs y).All (e.Executes r) e.Yields := by
  obtain ⟨c, rfl, hsound, hre⟩ := hy
  exact ⟨rfl, ⟨rfl, rfl, hsound⟩, hre⟩

/-- A step of executing a statement keeps to the errand. That two connections were lost while the
task was not spent means that it is crowded, as the hypothesis says. -/
theorem step_executes (h : x.step t (x.request?.map (e.backend.answer r)) r = some s)
    (hx : e.Executes r x) (hconf : e.configured) (hr : r.Coherent)
    (hpar : r.parameters? = e.origin.parameters?)
    (hext : e.origin.Extends s.router)
    (hcrowd : x.isSpent = false → e.shared → ∀ c₁ c₂, c₁ ≠ c₂ →
      e.origin.Loses r e.target c₁ → e.origin.Loses r e.target c₂ → e.crowded) :
    s.next.All (e.Executes s.router) e.Yields := by
  have hmoves := step_moves h
  cases x with
  | first sql limitMs c q =>
    obtain ⟨rfl, rfl, hq⟩ := hx
    obtain ⟨s', hs', rfl⟩ := Option.map_eq_some_iff.1 h
    exact (Statement.step_runs hs' hq).within (fun q' hq' => ⟨rfl, rfl, hq'⟩)
      fun y hy => afterFirst_executes hy.1
  | reconnecting sql limitMs a =>
    obtain ⟨rfl, rfl, ⟨c₁, hc₁⟩, ha⟩ := hx
    obtain ⟨s', hs', rfl⟩ := Option.map_eq_some_iff.1 h
    have hk : e.Keeps r s'.router := Errand.keeps_of_moves hmoves
    have hlost := hc₁.mono hk.toExtends
    have hpick : e.configured → ∀ c, s'.router.target? c = some e.target →
        s'.router.isRetired c = false → e.Sound s'.router c ∧ e.Reconnects s'.router c :=
      fun _ c ht hret => ⟨⟨Router.uses_of_isRetired hext ht hret, by simp [hret]⟩, c₁,
        fun he => by simp [he ▸ hlost.retired] at hret, hlost⟩
    have ha' := ha.mono fun c hc => And.intro (hk.sound c hc.1) (hc.2.mono hk.toExtends)
    refine (Acquire.step_serves hs' ha' hr (fun p hp => ⟨p, hpar ▸ hp⟩) hpick).within
      (fun a' ha' => ⟨rfl, rfl, ⟨c₁, hlost⟩, ha'⟩) fun y hy => ?_
    refine afterAcquire_executes (hy.resolve_right fun hnone => ?_)
    obtain ⟨p, hp⟩ := hconf
    simp [hpar, hp] at hnone
  | second limitMs c q =>
    obtain ⟨rfl, hq, c₁, hne, hc₁⟩ := hx
    obtain ⟨s', hs', rfl⟩ := Option.map_eq_some_iff.1 h
    have hk := hmoves.extends
    refine (Statement.step_runs hs' hq).within
      (fun q' hq' => ⟨rfl, hq', c₁, hne, hc₁.mono hk⟩) fun y hy => ?_
    obtain ⟨hgives, rfl⟩ := hy
    have hret := hk.retired c e.target hq.2.target
    refine afterSecond_executes hgives.toUses ?_
    rcases hq.2.result with ⟨hans, hel⟩ | ⟨rfl, hlost, hshared⟩
    · exact .inl ⟨hans, fun h => hret (hel h)⟩
    · exact .inr ⟨rfl, hret hlost, hcrowd rfl hshared c₁ c hne hc₁ ⟨hq.2.toUses, hlost⟩⟩
  | discarding f d =>
    obtain ⟨s', hs', rfl⟩ := Option.map_eq_some_iff.1 h
    have hold : ∀ c, d.evict.connection? = some c → e.origin.Loses s'.router e.target c :=
      fun c hc => (hx.2 c hc).mono hmoves.extends
    exact (Discard.step_connection? hs').within
      (fun d' hd' => ⟨hx.1, fun c hc => hold c (hd' c hc)⟩)
      fun _ _ => ⟨.error f, rfl, Or.inl hx.1.symm⟩
  | invalidating f i =>
    obtain ⟨s', hs', rfl⟩ := Option.map_eq_some_iff.1 h
    have hold : ∀ c, i.connection? = some c → e.origin.Loses s'.router e.target c :=
      fun c hc => (hx.2.2 c hc).mono hmoves.extends
    obtain ⟨rfl, hcr, -⟩ := hx
    exact (Invalidate.step_connection? hs').within
      (fun i' hi' => ⟨rfl, hcr, fun c hc => hold c (hi' c hc)⟩)
      fun _ _ => ⟨.error .discarded, rfl, Or.inr ⟨rfl, hcr⟩⟩

/-- A task that is spent, or about to retire a connection, is spent after the step. -/
theorem step_isSpent (h : x.step t ans r = some s) (hx : x.isSpent = true ∨ x.retires? ≠ none) :
    s.next.All (isSpent · = true) fun _ => True := by
  have hconclude : ∀ (limitMs : Nat) target c,
      (conclude limitMs target c .elapsed).All (isSpent · = true) fun _ => True :=
    fun _ _ _ => rfl
  cases x with
  | first sql limitMs c q =>
    obtain ⟨s', hs', rfl⟩ := Option.map_eq_some_iff.1 h
    refine (Statement.step_isSpent hs' hx).within (fun q' hq' => hq') fun y hy => ?_
    obtain rfl := hy
    simp only [afterFirst]
    split
    · exact hconclude ..
    · trivial
  | reconnecting => simp [isSpent, retires?] at hx
  | second limitMs c q =>
    obtain ⟨s', hs', rfl⟩ := Option.map_eq_some_iff.1 h
    refine (Statement.step_isSpent hs' hx).within (fun q' hq' => hq') fun y hy => ?_
    obtain rfl := hy
    simp only [afterSecond]
    split
    · exact hconclude ..
    · trivial
  | discarding f d =>
    obtain ⟨s', hs', rfl⟩ := Option.map_eq_some_iff.1 h
    cases hn : s'.next <;> simp [RouterStep.within, hn, Next.within, Next.All, isSpent]
  | invalidating f i =>
    obtain ⟨s', hs', rfl⟩ := Option.map_eq_some_iff.1 h
    cases hn : s'.next <;> simp [RouterStep.within, hn, Next.within, Next.All, isSpent]

end Execute

end MetricBoard
