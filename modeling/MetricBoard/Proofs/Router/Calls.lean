import MetricBoard.Proofs.Router.Errands

/-!
# Calls as sequences of elementary calls

Executing a statement and shutting the router down are made up of the other calls: a connection is
acquired, a statement runs, a connection is given up, a slot is emptied. At each stage a call is at
one of these elementary calls (`Call.current`), its step is the step of that one, and when that one
ends another one starts, if any (`Call.step_current`). So what is to be said of every step is shown
of the steps of elementary calls, and of no others.

A call names only connections that there are (`Call.Refers`), as it was given them by the router.
-/

namespace MetricBoard

/-- Something about the stage after a step, or else about the end. -/
def Next.view {σ ρ α : Type} (f : σ → α) (a : α) : Next σ ρ → α
  | stage s => f s
  | done _ => a

theorem Next.view_within_done {σ τ ρ ρ' α : Type} (g : τ → α) (a : α) (inner : σ → τ) (f : ρ → ρ')
    (n : Next σ ρ) : (n.within inner fun x => .done (f x)).view g a = n.view (g ∘ inner) a := by
  cases n <;> rfl

theorem Next.within_within {σ τ υ ρ ρ' ρ'' : Type} (f : σ → τ) (g : τ → υ) (a : ρ → Next τ ρ')
    (b : ρ' → Next υ ρ'') (n : Next σ ρ) :
    (n.within f a).within g b = n.within (g ∘ f) fun y => (a y).within g b := by
  cases n <;> rfl

/-! ## Emptying a slot -/

namespace Close

/-- How a task stands at a stage. -/
def standing : Close → Lock → Standing
  | start _ => fun _ => .away
  | queued target => Standing.queued.at_ (.slot target)
  | removed target _ => Standing.inside.at_ (.slot target)
  | released _ _ | hidden _ | closing _ => fun _ => .away

variable {t : TaskId} {ans : Option Answer} {r : Router} {k : Close} {s : RouterStep Close Unit}

theorem step_locks (l : Lock) (h : k.step t ans r = some s) :
    LockStep t r.connections.length l (k.standing l) (s.next.standing standing l) (r.semaphore? l)
      (s.router.semaphore? l) := by
  cases does_of_step h with
  | ask => exact Router.lockStep_requestSlot
  | empty hheld =>
    rw [Router.semaphore?_setCached]
    exact Router.lockStep_enterSlot hheld
  | unlock => exact Router.lockStep_releaseSlot
  | hide | finish =>
    rw [Router.semaphore?_setPhase]
    exact .stay _ _
  | retire =>
    rw [Router.semaphore?_retire]
    exact .stay _ _
  | close => exact .stay _ _

theorem standing_turn (k : Close) (c : ConnectionId) : k.standing (.turn c) = .away := by
  cases k <;> rfl

/-- The connection that the step retires. -/
def retires? : Close → Option ConnectionId
  | hidden c => some c
  | _ => none

theorem step_moves (h : k.step t ans r = some s) : r.Moves k.retires? s.router := by
  cases does_of_step h with
  | ask => exact Router.moves_requestSlot _
  | empty => exact Router.moves_setCached_none _
  | unlock => exact Router.moves_releaseSlot _
  | hide | finish => exact Router.moves_setPhase _ _
  | retire => exact Router.moves_retire
  | close => exact .refl _ _

end Close

namespace Call

/-! ## Elementary calls -/

/-- The elementary call that a call is at. -/
def current : Call → Call
  | execute (.first _ _ _ q) | execute (.second _ _ q) => statement q
  | execute (.reconnecting _ _ a) => acquire a
  | execute (.discarding _ d) => discard d
  | execute (.invalidating _ i) => invalidate i
  | shutdown (.first k) | shutdown (.second k) => close k
  | c => c

/-- A call that is not made up of others. -/
def IsElementary : Call → Prop
  | execute _ | shutdown _ => False
  | _ => True

theorem isElementary_current (c : Call) : c.current.IsElementary := by
  cases c with
  | execute x => cases x <;> trivial
  | shutdown s => cases s <;> trivial
  | _ => trivial

theorem IsElementary.current_eq {c : Call} (h : c.IsElementary) : c.current = c := by
  cases c with
  | execute | shutdown => exact h.elim
  | _ => rfl

theorem request?_current (c : Call) : c.current.request? = c.request? := by
  cases c with
  | execute x => cases x <;> rfl
  | shutdown s => cases s <;> rfl
  | _ => rfl

/-- An elementary call before its first step. -/
inductive Starts (r : Router) : Call → Prop
  | acquire (target : Target) : Starts r (.acquire (.start target))
  | statement {c : ConnectionId} {target : Target} (sql : String) (limitMs : Nat) :
    r.target? c = some target → Starts r (.statement (.start c sql limitMs))
  | invalidate {c : ConnectionId} {target : Target} :
    r.target? c = some target → Starts r (.invalidate (.evicting c (.start target c)))
  | discard {c : ConnectionId} {target : Target} :
    r.target? c = some target → Starts r (.discard ⟨c, .start target c⟩)
  | close (target : Target) : Starts r (.close (.start target))

/-- A call before its first step, on a connection that the router has handed out. -/
inductive Begins (r : Router) : Call → Prop
  | elementary {c : Call} : Starts r c → Begins r c
  | execute {c : ConnectionId} {target : Target} (sql : String) (limitMs : Nat) :
    r.target? c = some target → Begins r (.execute (.start c sql limitMs))
  | shutdown : Begins r (.shutdown .start)

theorem Starts.isElementary {r : Router} {c : Call} (h : Starts r c) : c.IsElementary := by
  cases h <;> trivial

theorem Begins.starts {r : Router} {c : Call} (h : Begins r c) : Starts r c.current := by
  cases h with
  | elementary h => exact h.isElementary.current_eq.symm ▸ h
  | execute sql limitMs hc => exact .statement sql limitMs hc
  | shutdown => exact .close .relational

/-! ## The connections that a call names -/

end Call

/-- The connection of a cached or finished acquisition is one to its server. -/
def Acquire.Refers (r : Router) : Acquire → Prop
  | cached target c => r.target? c = some target
  | leaving target x => ∀ c, x = .ok c → r.target? c = some target
  | start _ | queued _ _ | empty _ _ | connecting _ _ | refused _ _ => True

/-- The connection that a statement runs on. -/
def Statement.connection : Statement → ConnectionId
  | start c _ _ | queued c _ _ | running c _ _ | overdue c | leaving c _ => c

/-- It is this connection that is taken out, of the slot of its own server. -/
def Evict.Refers (r : Router) (c : ConnectionId) : Evict → Prop
  | start target c' | queued target c' | removed target c' | hidden target c' =>
    c' = c ∧ r.target? c = some target
  | leaving _ _ => True

/-- The connections that an elementary call names are there, and belong to the server named. -/
def Call.Refers (r : Router) : Call → Prop
  | acquire a => a.Refers r
  | statement q => ∃ target, r.target? q.connection = some target
  | invalidate (.evicting c v) => v.Refers r c
  | discard d => d.evict.Refers r d.connection
  | invalidate (.closing _) | execute _ | close _ | shutdown _ | closing _ => True

variable {t : TaskId} {ans : Option Answer} {r r' : Router}

theorem Evict.Refers.mono {c : ConnectionId} {v : Evict} (h : v.Refers r c) (hr : r.Extends r') :
    v.Refers r' c := by
  cases v with
  | leaving => trivial
  | _ => exact ⟨h.1, hr.target _ _ h.2⟩

theorem Call.Refers.mono {c : Call} (h : c.Refers r) (hr : r.Extends r') : c.Refers r' := by
  cases c with
  | acquire a =>
    cases a with
    | cached target c => exact hr.target _ _ h
    | leaving target x => exact fun c hc => hr.target _ _ (h c hc)
    | _ => trivial
  | statement q =>
    obtain ⟨target, ht⟩ := h
    exact ⟨target, hr.target _ _ ht⟩
  | invalidate i =>
    cases i with
    | evicting c v => exact Evict.Refers.mono h hr
    | closing c => trivial
  | discard d => exact Evict.Refers.mono h hr
  | _ => trivial

theorem Call.Starts.refers {c : Call} (h : Starts r c) : c.Refers r := by
  cases h with
  | acquire | close => trivial
  | statement sql limitMs hc => exact ⟨_, hc⟩
  | invalidate hc | discard hc => exact ⟨rfl, hc⟩

theorem Acquire.step_refers {a : Acquire}
    {s : RouterStep Acquire (Except AcquireError ConnectionId)} (h : a.step t ans r = some s)
    (ha : a.Refers r) (hr : r.Coherent) :
    s.next.All (Refers s.router) fun x => ∀ c, x = .ok c →
      ∃ target, s.router.target? c = some target := by
  cases does_of_step h with
  | ask | drop | miss | announce | refuse => trivial
  | unconfigured | giveUp => rintro c ⟨⟩
  | reuse _ hcached =>
    rintro c ⟨⟩
    exact hr _ _ hcached
  | connect => exact Router.target?_opened_self
  | ready =>
    rintro c ⟨⟩
    exact ha
  | leave => exact fun c hc => ⟨_, ha c hc⟩

theorem Statement.step_connection {q : Statement} {s : RouterStep Statement StatementResult}
    (h : q.step t ans r = some s) :
    s.next.All (fun q' => q'.connection = q.connection) fun _ => True := by
  cases does_of_step h with
  | leave => trivial
  | _ => rfl

theorem Evict.step_refers {c : ConnectionId} {v : Evict} {s : RouterStep Evict Bool}
    (h : v.step t r = some s) (hv : v.Refers r c) :
    s.next.All (Refers s.router c) fun _ => True := by
  have hk := (step_moves h).extends
  cases does_of_step h with
  | ask | remove | hide => exact ⟨hv.1, hk.target _ _ hv.2⟩
  | spare | retire | leave => trivial

/-! ## Steps of elementary calls -/

namespace Call

variable {c : Call} {s : RouterStep Call CallResult}

theorem step_refers (h : c.step t ans r = some s) (he : c.IsElementary) (hc : c.Refers r)
    (hr : r.Coherent) : s.next.All (Refers s.router) fun _ => True := by
  cases c with
  | acquire a =>
    obtain ⟨s', hs', rfl⟩ := Option.map_eq_some_iff.1 h
    exact (Acquire.step_refers hs' hc hr).within (fun _ ha => ha) fun _ _ => trivial
  | statement q =>
    obtain ⟨s', hs', rfl⟩ := Option.map_eq_some_iff.1 h
    obtain ⟨target, ht⟩ := hc
    refine (Statement.step_connection hs').within (fun q' hq' => ⟨target, ?_⟩) fun _ _ => trivial
    exact hq' ▸ (Statement.step_moves hs').target _ _ ht
  | invalidate i =>
    obtain ⟨s', hs', rfl⟩ := Option.map_eq_some_iff.1 h
    cases i with
    | evicting c v =>
      obtain ⟨s'', hs'', rfl⟩ := Option.map_eq_some_iff.1 hs'
      simp only [RouterStep.within, Next.within_within]
      refine (Evict.step_refers hs'' hc).within (fun _ hv => hv) fun wasCached _ => ?_
      cases wasCached <;> trivial
    | closing c =>
      obtain rfl := Invalidate.eq_of_closing hs'
      trivial
  | discard d =>
    obtain ⟨s', hs', rfl⟩ := Option.map_eq_some_iff.1 h
    obtain ⟨s'', hs'', rfl⟩ := Option.map_eq_some_iff.1 hs'
    simp only [RouterStep.within, Next.within_within]
    exact (Evict.step_refers hs'' hc).within (fun _ hv => hv) fun _ _ => trivial
  | close k =>
    obtain ⟨s', hs', rfl⟩ := Option.map_eq_some_iff.1 h
    cases hn : s'.next <;> simp [RouterStep.within, hn, Next.within, Next.All, Refers]
  | closing c =>
    obtain rfl := eq_of_closing h
    trivial
  | execute | shutdown => exact he.elim

/-- How a call goes on after a step of its elementary call: within that one or, if that one has
ended, with another one that starts, if any. -/
def GoesOn (r : Router) (n : Next Call CallResult) : Next Call CallResult → Prop
  | .stage c' => ∃ c, n = .stage c ∧ c.current = c'
  | .done _ => n.All (fun c => Starts r c.current) fun _ => True

theorem GoesOn.self {n : Next Call CallResult} (h : n.All IsElementary fun _ => True) :
    GoesOn r n n := by
  cases n with
  | stage c => exact ⟨c, rfl, h.current_eq⟩
  | done x => trivial

theorem starts_conclude {d : ConnectionId} {target : Target} (hd : r.target? d = some target)
    (limitMs : Nat) (y : StatementResult) :
    (Execute.conclude limitMs target d y).All (fun x => Starts r (execute x).current)
      fun _ => True := by
  unfold Execute.conclude
  split
  · trivial
  · simp only
    split
    · exact Call.Starts.discard hd
    · split
      · exact Call.Starts.invalidate hd
      · trivial
  · exact Call.Starts.discard hd
  · trivial

theorem starts_afterFirst (sql : String) (limitMs : Nat) (d : ConnectionId)
    (y : StatementResult) :
    (Execute.afterFirst sql limitMs r d y).All (fun x => Starts r (execute x).current)
      fun _ => True := by
  unfold Execute.afterFirst
  split
  · split
    · exact Call.Starts.acquire _
    · exact starts_conclude ‹_› limitMs y
  · trivial

theorem starts_afterSecond (limitMs : Nat) (d : ConnectionId) (y : StatementResult) :
    (Execute.afterSecond limitMs r d y).All (fun x => Starts r (execute x).current)
      fun _ => True := by
  unfold Execute.afterSecond
  split
  · exact starts_conclude ‹_› limitMs y
  · trivial

theorem GoesOn.within {σ ρ : Type} {inner : σ → Call} {outer : σ → Call} {f : ρ → CallResult}
    {after : ρ → Next Call CallResult} {n : Next σ ρ} (hi : ∀ x, (outer x).current = inner x)
    (ha : ∀ y, n = .done y → (after y).All (fun c => Starts r c.current) fun _ => True) :
    GoesOn r (n.within outer after) (n.within inner fun y => .done (f y)) := by
  cases n with
  | stage x => exact ⟨outer x, rfl, hi x⟩
  | done y => exact ha y rfl

/-- A step of a call is a step of its elementary call. -/
theorem step_current (h : c.step t ans r = some s) (hc : c.current.Refers r) (hr : r.Coherent) :
    ∃ s', c.current.step t ans r = some s' ∧ s'.router = s.router ∧ s'.closes = s.closes ∧
      GoesOn s.router s.next s'.next := by
  have hself : c.IsElementary → s.next.All IsElementary (fun _ => True) →
      ∃ s', c.current.step t ans r = some s' ∧ s'.router = s.router ∧ s'.closes = s.closes ∧
        GoesOn s.router s.next s'.next :=
    fun he hn => ⟨s, he.current_eq.symm ▸ h, rfl, rfl, .self hn⟩
  cases c with
  | execute x =>
    obtain ⟨s₁, hs₁, rfl⟩ := Option.map_eq_some_iff.1 h
    cases x with
    | first sql limitMs d q =>
      obtain ⟨s₂, hs₂, rfl⟩ := Option.map_eq_some_iff.1 hs₁
      refine ⟨_, Option.map_eq_some_iff.2 ⟨s₂, hs₂, rfl⟩, rfl, rfl, ?_⟩
      simp only [RouterStep.within, Next.within_within]
      refine .within (fun _ => rfl) fun y _ => ?_
      exact (starts_afterFirst sql limitMs d y).within (fun _ hx => hx) fun _ _ => trivial
    | reconnecting sql limitMs a =>
      obtain ⟨s₂, hs₂, rfl⟩ := Option.map_eq_some_iff.1 hs₁
      refine ⟨_, Option.map_eq_some_iff.2 ⟨s₂, hs₂, rfl⟩, rfl, rfl, ?_⟩
      simp only [RouterStep.within, Next.within_within]
      refine .within (fun _ => rfl) fun y hy => ?_
      have hopen := Acquire.step_refers hs₂ hc hr
      rw [hy] at hopen
      cases y with
      | error e => trivial
      | ok d =>
        obtain ⟨target, hd⟩ := hopen d rfl
        exact Call.Starts.statement sql limitMs hd
    | second limitMs d q =>
      obtain ⟨s₂, hs₂, rfl⟩ := Option.map_eq_some_iff.1 hs₁
      refine ⟨_, Option.map_eq_some_iff.2 ⟨s₂, hs₂, rfl⟩, rfl, rfl, ?_⟩
      simp only [RouterStep.within, Next.within_within]
      refine .within (fun _ => rfl) fun y _ => ?_
      exact (starts_afterSecond limitMs d y).within (fun _ hx => hx) fun _ _ => trivial
    | discarding f d =>
      obtain ⟨s₂, hs₂, rfl⟩ := Option.map_eq_some_iff.1 hs₁
      refine ⟨_, Option.map_eq_some_iff.2 ⟨s₂, hs₂, rfl⟩, rfl, rfl, ?_⟩
      simp only [RouterStep.within, Next.within_within]
      exact .within (fun _ => rfl) fun _ _ => trivial
    | invalidating f i =>
      obtain ⟨s₂, hs₂, rfl⟩ := Option.map_eq_some_iff.1 hs₁
      refine ⟨_, Option.map_eq_some_iff.2 ⟨s₂, hs₂, rfl⟩, rfl, rfl, ?_⟩
      simp only [RouterStep.within, Next.within_within]
      exact .within (fun _ => rfl) fun _ _ => trivial
  | shutdown k =>
    obtain ⟨s₁, hs₁, rfl⟩ := Option.map_eq_some_iff.1 h
    cases k with
    | first k =>
      obtain ⟨s₂, hs₂, rfl⟩ := Option.map_eq_some_iff.1 hs₁
      refine ⟨_, Option.map_eq_some_iff.2 ⟨s₂, hs₂, rfl⟩, rfl, rfl, ?_⟩
      simp only [RouterStep.within, Next.within_within]
      exact .within (fun _ => rfl) fun _ _ => Call.Starts.close .fileDatabase
    | second k =>
      obtain ⟨s₂, hs₂, rfl⟩ := Option.map_eq_some_iff.1 hs₁
      refine ⟨_, Option.map_eq_some_iff.2 ⟨s₂, hs₂, rfl⟩, rfl, rfl, ?_⟩
      simp only [RouterStep.within, Next.within_within]
      exact .within (fun _ => rfl) fun _ _ => trivial
  | acquire | statement | invalidate | discard | close =>
    obtain ⟨s', -, rfl⟩ := Option.map_eq_some_iff.1 h
    refine hself trivial ?_
    cases hn : s'.next <;> simp [RouterStep.within, hn, Next.within, Next.All, IsElementary]
  | closing d =>
    refine hself trivial ?_
    obtain rfl := eq_of_closing h
    trivial

/-- What holds of an elementary call as it starts, and of the one that goes on, holds of the
elementary call of the stage after a step. -/
theorem GoesOn.of_stage {P : Call → Prop} {n n' : Next Call CallResult} {c' : Call}
    (h : GoesOn r n n') (hn : n = .stage c') (hp : n'.All P fun _ => True)
    (hs : ∀ c, Starts r c → P c) : P c'.current := by
  subst hn
  cases n' with
  | stage c =>
    obtain ⟨c'', hc'', rfl⟩ := h
    cases hc''
    exact hp
  | done x => exact hs _ h

/-- What is the same of all elementary calls that start is, after a step of a call, what it is after
the step of the elementary call. -/
theorem GoesOn.view_eq {α : Type} {n n' : Next Call CallResult} {f : Call → α} {a : α}
    (h : GoesOn r n n') (hf : ∀ c, Starts r c → f c = a) :
    n.view (fun c => f c.current) a = n'.view f a := by
  cases n' with
  | stage c' =>
    obtain ⟨c, rfl, rfl⟩ := h
    rfl
  | done x =>
    cases n with
    | stage c => exact hf _ h
    | done y => rfl

theorem refers_of_step {c' : Call} (h : c.step t ans r = some s) (hc : c.current.Refers r)
    (hr : r.Coherent) (hn : s.next = .stage c') : c'.current.Refers s.router := by
  obtain ⟨s', hs', hrouter, -, hgo⟩ := step_current h hc hr
  refine hgo.of_stage hn ?_ fun _ => Starts.refers
  exact hrouter ▸ step_refers hs' c.isElementary_current hc hr

/-! ### Locks -/

/-- How a task stands that is at an elementary call. -/
def standing : Call → Lock → Standing
  | acquire a => a.standing
  | statement q => q.standing
  | invalidate i => i.standing
  | discard d => d.standing
  | close k => k.standing
  | execute _ | shutdown _ | closing _ => fun _ => .away

theorem Starts.standing (h : Starts r c) (l : Lock) : c.standing l = .away := by
  cases h <;> rfl

theorem step_locks (l : Lock) (h : c.step t ans r = some s) (he : c.IsElementary) :
    LockStep t r.connections.length l (c.standing l) (s.next.standing standing l) (r.semaphore? l)
      (s.router.semaphore? l) := by
  cases c with
  | acquire a =>
    obtain ⟨s', hs', rfl⟩ := Option.map_eq_some_iff.1 h
    exact Next.lockStep_within (fun _ => rfl) (fun _ => rfl) (Acquire.step_locks l hs')
  | statement q =>
    obtain ⟨s', hs', rfl⟩ := Option.map_eq_some_iff.1 h
    exact Next.lockStep_within (fun _ => rfl) (fun _ => rfl) (Statement.step_locks l hs')
  | invalidate i =>
    obtain ⟨s', hs', rfl⟩ := Option.map_eq_some_iff.1 h
    exact Next.lockStep_within (fun _ => rfl) (fun _ => rfl) (Invalidate.step_locks l hs')
  | discard d =>
    obtain ⟨s', hs', rfl⟩ := Option.map_eq_some_iff.1 h
    exact Next.lockStep_within (fun _ => rfl) (fun _ => rfl) (Discard.step_locks l hs')
  | close k =>
    obtain ⟨s', hs', rfl⟩ := Option.map_eq_some_iff.1 h
    exact Next.lockStep_within (fun _ => rfl) (fun _ => rfl) (Close.step_locks l hs')
  | closing d =>
    obtain rfl := eq_of_closing h
    exact .stay _ _
  | execute | shutdown => exact he.elim

theorem locks_of_step (l : Lock) (h : c.step t ans r = some s) (hc : c.current.Refers r)
    (hr : r.Coherent) :
    LockStep t r.connections.length l (c.current.standing l)
      (s.next.view (fun c => c.current.standing l) .away) (r.semaphore? l)
      (s.router.semaphore? l) := by
  obtain ⟨s', hs', hrouter, -, hgo⟩ := step_current h hc hr
  have hstep := step_locks l hs' c.isElementary_current
  have hview : s'.next.standing standing l = s'.next.view (standing · l) .away := by
    cases s'.next <;> rfl
  rwa [hrouter, hview, ← hgo.view_eq fun _ hs => hs.standing l] at hstep

/-- An elementary call has asked only for turns on connections that it names. -/
theorem target?_of_standing {d : ConnectionId} (h : c.standing (.turn d) ≠ .away)
    (hc : c.Refers r) : ∃ target, r.target? d = some target := by
  cases c with
  | acquire a => exact absurd (a.standing_turn d) h
  | statement q =>
    obtain ⟨target, ht⟩ := hc
    refine ⟨target, ?_⟩
    cases q with
    | start => exact absurd rfl h
    | queued | running | overdue | leaving =>
      cases Standing.eq_of_at_ne h
      exact ht
  | invalidate i =>
    cases i with
    | evicting c v => exact absurd (v.standing_turn d) h
    | closing => exact absurd rfl h
  | discard x => exact absurd (x.evict.standing_turn d) h
  | close k => exact absurd (k.standing_turn d) h
  | execute | shutdown | closing => exact absurd rfl h

/-! ### The router -/

/-- The connection that the step of an elementary call retires. -/
def retires? : Call → Option ConnectionId
  | statement q => q.retires?
  | invalidate i => i.retires?
  | discard d => d.retires?
  | close k => k.retires?
  | acquire _ | execute _ | shutdown _ | closing _ => none

theorem step_moves (h : c.step t ans r = some s) (he : c.IsElementary) :
    r.Moves c.retires? s.router := by
  cases c with
  | acquire a =>
    obtain ⟨s', hs', rfl⟩ := Option.map_eq_some_iff.1 h
    exact Acquire.step_moves _ hs'
  | statement q =>
    obtain ⟨s', hs', rfl⟩ := Option.map_eq_some_iff.1 h
    exact Statement.step_moves hs'
  | invalidate i =>
    obtain ⟨s', hs', rfl⟩ := Option.map_eq_some_iff.1 h
    exact Invalidate.step_moves hs'
  | discard d =>
    obtain ⟨s', hs', rfl⟩ := Option.map_eq_some_iff.1 h
    exact Discard.step_moves hs'
  | close k =>
    obtain ⟨s', hs', rfl⟩ := Option.map_eq_some_iff.1 h
    exact Close.step_moves hs'
  | closing d =>
    obtain rfl := eq_of_closing h
    exact .refl _ _
  | execute | shutdown => exact he.elim

theorem moves_of_step (h : c.step t ans r = some s) (hc : c.current.Refers r) (hr : r.Coherent) :
    r.Moves c.current.retires? s.router := by
  obtain ⟨s', hs', hrouter, -⟩ := step_current h hc hr
  exact hrouter ▸ step_moves hs' c.isElementary_current

end Call

end MetricBoard
