import MetricBoard.Proofs.Refresh.Run
import MetricBoard.Proofs.Router.Errands

/-!
# What metrics are reported as

By its own statement alone a metric comes to the answer of the backend, or to the failure that
keeps the statement from being executed (`Job.own`). It may also come to the failure of a statement
whose connection was given up while it waited, but only if it is crowded: two other metrics of its
server are never answered, and its server admits two metrics at a time (`Job.Crowded`). Each stage
of a metric keeps to that (`Job.Follows`, `Metric.step_follows`).
-/

namespace MetricBoard

theorem isFinite_scalar (rows : List Row) : (scalar rows).isFinite = true := by
  unfold scalar Option.getD
  split
  · rename_i x hx
    simp only [Option.bind_eq_bind, Option.bind_eq_some_iff] at hx
    obtain ⟨row, -, cell, -, hcell⟩ := hx
    rw [Cell.toFinite?, Option.filter_eq_some_iff] at hcell
    exact hcell.2
  · exact Binary64.zero_isFinite

namespace Job

variable (j : Job) (backend : Backend)

/-- What a metric comes to by its own statement alone. -/
def own (d : Definition) : Except Failure Binary64 :=
  match Expression.transpile (j.engine.options.dialect d.target) d.expression with
  | .error r => .error ⟨.unsupportedExpression, r.message⟩
  | .ok sql =>
    match j.engine.router.parameters? d.target with
    | none =>
      .error ⟨.configurationMissing, (AcquireError.configurationMissing d.target).message⟩
    | some _ => backend.verdict d.target sql j.engine.options.queryTimeoutMs

/-- A server admits two metrics of the batch at a time. -/
def Shared (target : Target) : Prop :=
  2 ≤ (j.admission.perTarget.get target).limit ∧ 2 ≤ j.admission.overall.limit

/-- The metric at a place is one of the server, and its statement is never answered. -/
def Hung (target : Target) (i : Nat) : Prop :=
  ∃ d sql, j.definitions[i]? = some d ∧ d.target = target ∧
    Expression.transpile (j.engine.options.dialect target) d.expression = .ok sql ∧
    backend.reply target sql = none

/-- Two metrics of the server other than the one at a place are never answered, while the server
admits two at a time. -/
def Crowded (target : Target) (i : Nat) : Prop :=
  j.Shared target ∧ ∃ i₁ i₂, i₁ ≠ i₂ ∧ i₁ ≠ i ∧ i₂ ≠ i ∧
    j.Hung backend target i₁ ∧ j.Hung backend target i₂

/-- What the metric at a place may come to. -/
def Allows (i : Nat) (d : Definition) (x : Except Failure Binary64) : Prop :=
  x = j.own backend d ∨ x = .error .discarded ∧ j.Crowded backend d.target i

/-- The statement of a metric as an errand. -/
def errand (i : Nat) (d : Definition) (sql : String) : Errand where
  backend := backend
  origin := j.engine.router
  target := d.target
  sql := sql
  limitMs := j.engine.options.queryTimeoutMs
  shared := j.Shared d.target
  crowded := j.Crowded backend d.target i

end Job

/-- An outcome tells of a metric what it came to. -/
structure Outcome.Tells (o : Outcome) (d : Definition) (x : Except Failure Binary64) : Prop where
  id : o.id = d.id
  target : o.target = d.target
  result : match x with
    | .ok v => o.success = true ∧ o.value = v ∧ o.errorKind = none ∧ o.message = none
    | .error f => o.success = false ∧ o.value = .zero ∧ o.errorKind = some f.kind ∧
      o.message = some f.message

theorem Metric.tells_outcome {d : Definition} {x : Except Failure Binary64} {ms : Nat}
    {persisted : Bool} (hx : ∀ v, x = .ok v → v.isFinite = true) :
    (Metric.outcome d x ms persisted).Tells d x := by
  cases x with
  | ok v => exact ⟨rfl, rfl, rfl, by simp [outcome, Binary64.finiteOrZero, hx v rfl], rfl, rfl⟩
  | error f => exact ⟨rfl, rfl, rfl, rfl, rfl, rfl⟩

/-! ## Computing -/

namespace Errand

variable (e : Errand)

/-- What the errand comes to: what executing it does, or the failure that the server cannot be
connected to. -/
def Reports (x : ExecuteResult) : Prop :=
  ∃ y, x = .of y ∧ ((∃ p, e.origin.parameters? e.target = some p) ∧ e.Allows y ∨
    e.origin.parameters? e.target = none ∧
      y = .error ⟨.configurationMissing, (AcquireError.configurationMissing e.target).message⟩)

/-- The task computes the errand's statement. -/
def Computes (r : Router) : Compute → Prop
  | .acquiring sql a =>
    sql = e.sql ∧ a.Serves e.target e.configured fun c => e.configured ∧ e.Sound r c
  | .executing x => e.configured ∧ e.Executes r x

variable {e} {r r' : Router} {t : TaskId} {c : Compute} {s : RouterStep Compute ExecuteResult}

theorem Computes.mono (h : e.Computes r c) (hk : e.Keeps r r') : e.Computes r' c := by
  cases c with
  | acquiring sql a => exact ⟨h.1, h.2.mono fun c hc => ⟨hc.1, hk.sound c hc.2⟩⟩
  | executing x => exact ⟨h.1, h.2.mono hk⟩

end Errand

namespace Compute

variable {e : Errand} {r : Router} {t : TaskId} {ans : Option Answer} {limitMs : Nat} {c : Compute}
  {s : RouterStep Compute ExecuteResult}

/-- The task has given its statement up, or is giving up a connection that another one retired. -/
def isSpent : Compute → Bool
  | acquiring _ _ => false
  | executing x => x.isSpent

theorem step_computes (h : c.step t (c.request?.map (e.backend.answer r)) e.limitMs r = some s)
    (hc : e.Computes r c) (hr : r.Coherent) (hpar : r.parameters? = e.origin.parameters?)
    (hext : e.origin.Extends s.router)
    (hcrowd : c.isSpent = false → e.shared → ∀ c₁ c₂, c₁ ≠ c₂ →
      e.origin.Loses r e.target c₁ → e.origin.Loses r e.target c₂ → e.crowded) :
    s.next.All (e.Computes s.router) e.Reports := by
  have hmoves := step_moves h
  cases c with
  | acquiring sql a =>
    obtain ⟨rfl, ha⟩ := hc
    obtain ⟨s', hs', rfl⟩ := Option.map_eq_some_iff.1 h
    have hk : e.Keeps r s'.router := Errand.keeps_of_moves hmoves
    have ha' := ha.mono fun c hc => And.intro hc.1 (hk.sound c hc.2)
    refine (Acquire.step_serves hs' ha' hr (fun p hp => ⟨p, hpar ▸ hp⟩)
      fun hconf c ht hret => ⟨hconf, Router.uses_of_isRetired hext ht hret, by simp [hret]⟩).within
      (fun a' ha' => ⟨rfl, ha'⟩) fun y hy => ?_
    rcases hy with ⟨c, rfl, hconf, hsound⟩ | ⟨rfl, hnone⟩
    · exact ⟨hconf, rfl, rfl, rfl, rfl, hsound⟩
    · exact ⟨.error _, rfl, .inr ⟨hpar ▸ hnone, rfl⟩⟩
  | executing x =>
    obtain ⟨hconf, hx⟩ := hc
    obtain ⟨s', hs', rfl⟩ := Option.map_eq_some_iff.1 h
    refine (Execute.step_executes hs' hx hconf hr hpar hext hcrowd).within
      (fun x' hx' => ⟨hconf, hx'⟩) fun y hy => ?_
    obtain ⟨z, hz, hall⟩ := hy
    exact ⟨z, hz, .inl ⟨hconf, hall⟩⟩

theorem step_isSpent (h : c.step t ans limitMs r = some s)
    (hc : c.isSpent = true ∨ c.retires? ≠ none) : s.next.All (isSpent · = true) fun _ => True := by
  cases c with
  | acquiring sql a => simp [isSpent, retires?] at hc
  | executing x =>
    obtain ⟨s', hs', rfl⟩ := Option.map_eq_some_iff.1 h
    exact (Execute.step_isSpent hs' hc).within (fun _ hx => hx) fun _ _ => trivial

end Compute

/-! ## Metrics -/

namespace Metric

/-- The metric's statement has been given up, or the metric is past computing. -/
def isSpent : Metric → Bool
  | start | queuedTarget | queuedOverall | admitted => false
  | computing _ c => c.isSpent
  | recording _ _ | leavingTarget _ | leavingOverall _ | ending _ => true

end Metric

namespace Job

variable {j : Job} {backend : Backend} {i : Nat} {d : Definition} {r r' : Router} {m : Metric}
  {c : ConnectionId}

variable (j backend i d) in
/-- The metric at a place keeps to its definition. -/
def Follows (r : Router) : Metric → Prop
  | .start | .queuedTarget | .queuedOverall | .admitted => True
  | .computing _ c =>
    ∃ sql, Expression.transpile (j.engine.options.dialect d.target) d.expression = .ok sql ∧
      (j.errand backend i d sql).Computes r c
  | .recording _ x => j.Allows backend i d x
  | .leavingTarget o | .leavingOverall o | .ending o =>
    ∃ o' x, o = some o' ∧ j.Allows backend i d x ∧ o'.Tells d x

theorem isFinite_of_own {v : Binary64} (h : j.own backend d = .ok v) : v.isFinite = true := by
  simp only [own, Backend.verdict] at h
  split at h
  · cases h
  · split at h
    · cases h
    · split at h <;> cases h
      exact isFinite_scalar _

theorem Follows.mono (h : j.Follows backend i d r m)
    (hk : ∀ sql t c, m = .computing t c → (j.errand backend i d sql).Keeps r r') :
    j.Follows backend i d r' m := by
  cases m with
  | computing t c =>
    obtain ⟨sql, hsql, hc⟩ := h
    exact ⟨sql, hsql, hc.mono (hk sql t c rfl)⟩
  | start | queuedTarget | queuedOverall | admitted => trivial
  | recording | leavingTarget | leavingOverall | ending => exact h

/-- A metric that retires a connection uses it, and either it is retired already or the metric's own
statement is never answered. -/
theorem Follows.of_retires (h : j.Follows backend i d r m) (hd : j.definitions[i]? = some d)
    (hc : m.retires? = some c) :
    (∃ t q, m = .computing t q) ∧ j.engine.router.Uses r d.target c ∧
      (r.isRetired c = true ∨ m.isSpent = false ∧ j.Hung backend d.target i) := by
  cases m with
  | computing t q =>
    obtain ⟨sql, hsql, hq⟩ := h
    refine ⟨⟨t, q, rfl⟩, ?_⟩
    cases q with
    | acquiring => cases hc
    | executing x =>
      obtain ⟨huses, hret⟩ := hq.2.of_retires hc
      exact ⟨huses, hret.imp_right fun ⟨hs, hreply⟩ => ⟨hs, d, sql, hd, rfl, hsql, hreply⟩⟩
  | _ => cases hc

theorem Follows.target_of_standing (h : j.Follows backend i d r m)
    (hc : m.standing d.target (.turn c) ≠ .away) : r.target? c = some d.target := by
  cases m with
  | computing t q =>
    obtain ⟨sql, hsql, hq⟩ := h
    cases q with
    | acquiring sql a => exact absurd (a.standing_turn c) hc
    | executing x => exact hq.2.target_of_standing hc
  | _ => exact absurd rfl hc

end Job

namespace Metric

variable {j : Job} {backend : Backend} {out : Outside} {t : TaskId} {b i : Nat} {k : Batch}
  {d : Definition} {e : Engine} {m : Metric} {s : EngineStep Metric Unit}

theorem follows_begin (ho : e.options = j.engine.options) (r : Router) (ms : Nat) :
    j.Follows backend i d r (begin e.options d ms) := by
  rw [ho, begin]
  split
  · exact ⟨_, ‹_›, rfl, rfl⟩
  · rename_i reason hr
    exact Or.inl (by simp [Job.own, hr])

theorem follows_afterCompute {sql : String} {x : ExecuteResult} (r : Router) (startedMs : Nat)
    (hsql : Expression.transpile (j.engine.options.dialect d.target) d.expression = .ok sql)
    (hx : (j.errand backend i d sql).Reports x) :
    (afterCompute startedMs x).All (j.Follows backend i d r) fun _ => False := by
  obtain ⟨y, rfl, hy⟩ := hx
  have hall : j.Allows backend i d y := by
    rcases hy with ⟨⟨p, hp⟩, hown | hlost⟩ | ⟨hnone, hy⟩
    · left
      have hp' : j.engine.router.parameters? d.target = some p := hp
      simp only [Job.own, hsql, hp']
      exact hown
    · exact Or.inr hlost
    · left
      have hn' : j.engine.router.parameters? d.target = none := hnone
      simp only [Job.own, hsql, hn']
      exact hy
  cases y with
  | ok v => exact hall
  | error f => exact hall

/-- A step of a metric keeps to its definition. That two connections were lost while the metric was
not spent means that it is crowded, as the hypothesis says. -/
theorem step_follows (h : m.step out t b i k d e = some s)
    (ho : out.answer = m.request?.map (backend.answer e.router))
    (hf : e.isFired k.token = false) (hopt : e.options = j.engine.options)
    (hm : j.Follows backend i d e.router m) (hr : e.router.Coherent)
    (hpar : e.router.parameters? = j.engine.router.parameters?)
    (hext : j.engine.router.Extends s.engine.router)
    (hcrowd : m.isSpent = false → j.Shared d.target → ∀ c₁ c₂, c₁ ≠ c₂ →
      j.engine.router.Loses e.router d.target c₁ → j.engine.router.Loses e.router d.target c₂ →
        j.Crowded backend d.target i) :
    s.next.All (j.Follows backend i d s.engine.router) fun _ =>
      ∃ o x, m = .ending (some o) ∧ j.Allows backend i d x ∧ o.Tells d x := by
  cases does_of_step h with
  | cancel hfired | withdrawTarget hfired | withdrawOverall hfired | turnBack hfired =>
    cases hf.symm.trans hfired
  | ask | enterTarget | enterOverall => trivial
  | begin => exact follows_begin hopt _ _
  | compute hs =>
    obtain ⟨sql, hsql, hc⟩ := hm
    rw [ho, request?, hopt] at hs
    refine (Compute.step_computes (e := j.errand backend i d sql) hs hc hr hpar hext hcrowd).within
      (fun c' hc' => ⟨sql, hsql, hc'⟩) fun x hx => ?_
    exact (follows_afterCompute _ _ hsql hx).mono (fun _ hm => hm) fun _ hf => hf.elim
  | record =>
    refine ⟨_, _, rfl, hm, tells_outcome fun v hv => ?_⟩
    subst hv
    rcases hm with hown | ⟨hlost, -⟩
    · exact Job.isFinite_of_own hown.symm
    · cases hlost
  | leaveTarget | leaveOverall => exact hm
  | finish =>
    obtain ⟨o', x, rfl, hall, htells⟩ := hm
    exact ⟨o', x, rfl, hall, htells⟩

theorem step_isSpent (h : m.step out t b i k d e = some s)
    (hm : m.isSpent = true ∨ m.retires? ≠ none) :
    s.next.All (isSpent · = true) fun _ => True := by
  cases does_of_step h with
  | compute hs =>
    refine (Compute.step_isSpent hs hm).within (fun _ hc => hc) fun x _ => ?_
    cases x <;> rfl
  | record | leaveTarget | leaveOverall => rfl
  | finish => trivial
  | _ => simp [isSpent, retires?] at hm

end Metric

end MetricBoard
