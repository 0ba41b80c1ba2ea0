import MetricBoard.Proofs.Router.Ledger
import MetricBoard.Proofs.Router.Reuse

/-!
# Attempts at a statement

What one task does that executes a statement, step by step: on which connection it sends the
statement (`Move.delivers?`), which try it gives up (`Move.Abandons`), and which connections it
leaves alone (`Move.Spares`). From these, what is to hold of the steps of a whole execution: where
the statement was sent (`Tried`), and what is left of the connections at the end (`Concluded`). A
step of an execution is taken apart once (`Execute.Takes`): a connection that the task does not give
up is spared, and one that is out of its slot when the task is through with it is given up.
-/

namespace MetricBoard

/-! ## What a step does -/

/-- The connection of the statement that an elementary call runs. -/
def Call.uses? : Call → Option ConnectionId
  | statement q => some q.connection
  | _ => none

namespace Move

/-- The connection on which a step sends a statement to a backend. -/
def delivers? (x : Move) : Option ConnectionId :=
  if (x.before.runs? x.task).isSome then none else x.after.runs? x.task

/-- The connection of the statement that a step belongs to. -/
def uses? (x : Move) : Option ConnectionId := x.call?.bind Call.uses?

/-- A step ends a statement whose connection failed it, and was retired by then. -/
def Abandons (x : Move) (c : ConnectionId) : Prop :=
  ∃ e : DriverError, x.uses? = some c ∧ x.result? = some (.ran (.answered (.error e))) ∧
    e.kind = .connectionError ∧ x.after.engine.router.isRetired c = true

/-- A step leaves a connection that can still be used as it is and where it is. -/
def Spares (x : Move) (c : ConnectionId) : Prop :=
  x.before.engine.router.isRetired c = false →
    ¬ x.Removes c ∧ x.after.engine.router.isRetired c = false

end Move

/-- The connections on which statements were sent. -/
def deliveries (xs : List Move) : List ConnectionId := xs.filterMap Move.delivers?

/-- The connection of the last statement. -/
def lastUsed? (xs : List Move) : Option ConnectionId := (xs.filterMap Move.uses?).getLast?

theorem deliveries_concat (xs : List Move) (x : Move) :
    deliveries (xs ++ [x]) = deliveries xs ++ x.delivers?.toList := by
  rw [deliveries, List.filterMap_append, deliveries]
  cases h : x.delivers? <;> simp [h]

theorem lastUsed?_concat (xs : List Move) (x : Move) :
    lastUsed? (xs ++ [x]) = x.uses?.or (lastUsed? xs) := by
  rw [lastUsed?, List.filterMap_append, lastUsed?]
  cases h : x.uses? <;> simp [h]

/-- A connection is in no slot, and it is retired or a task that has emptied the slot is about to
retire it; if tasks give way only where they wait, then it is retired. -/
structure World.GivenUp (w : World) (c : ConnectionId) : Prop where
  out : ¬ w.engine.router.Holds c
  retired : w.engine.router.isRetired c = true ∨
    ∃ t k j, w.call? t = some k ∧ k.current = .close j ∧ j.grip.doomed = some c
  cooperative : ∀ made xs, Cooperative made xs w → w.engine.router.isRetired c = true

/-- A result is a timeout, or a failure of the connection. -/
def ExecuteResult.poisons : ExecuteResult → Bool
  | failure f => f.kind.poisons
  | value _ | brokeDown => false

/-- What the steps of an execution have left when it comes to a result with the last of them. -/
def Concluded (xs : List Move) (x : Move) (z : ExecuteResult) : Prop :=
  if z.poisons then
    ∃ c, lastUsed? xs = some c ∧ x.after.GivenUp c ∧ ∀ y ∈ xs, ∀ d, d ≠ c → y.Spares d
  else ∀ y ∈ xs, ∀ d, y.Spares d

/-- A statement is sent on the connection that it was to be executed on, and on another one at most
once after it failed there. -/
def Tried (c : ConnectionId) (xs : List Move) : Prop :=
  ∀ ys x zs d, xs = ys ++ x :: zs → x.delivers? = some d →
    d = c ∧ deliveries ys = [] ∨
      d ≠ c ∧ (∃ y ∈ ys, y.Abandons c) ∧ (deliveries ys = [] ∨ deliveries ys = [c])

namespace Tried

variable {c : ConnectionId} {xs : List Move} {x : Move}

theorem nil : Tried c [] := by
  intro ys x zs d h
  simp at h

theorem concat (h : Tried c xs) (hx : ∀ d, x.delivers? = some d →
    d = c ∧ deliveries xs = [] ∨
      d ≠ c ∧ (∃ y ∈ xs, y.Abandons c) ∧ (deliveries xs = [] ∨ deliveries xs = [c])) :
    Tried c (xs ++ [x]) := by
  intro ys y zs d hsplit hy
  rcases List.eq_nil_or_concat zs with rfl | ⟨zs', z, rfl⟩
  · obtain ⟨rfl, hxy⟩ := List.append_inj' hsplit rfl
    cases hxy
    exact hx d hy
  · rw [List.concat_eq_append, ← List.cons_append, ← List.append_assoc] at hsplit
    exact h ys y zs' d (List.append_inj' hsplit rfl).1 hy

end Tried

/-! ## Stages -/

namespace Statement

variable {t : TaskId} {ans : Option Answer} {r : Router} {q : Statement}
  {s : RouterStep Statement StatementResult}

/-- The statement has not been sent. -/
def isAhead : Statement → Bool
  | start _ _ _ | queued _ _ _ => true
  | _ => false

/-- The connection on which the statement runs. -/
def runs? (q : Statement) : Option ConnectionId := q.request?.bind Request.runs?

/-- The connection that is retired as the statement is given up. -/
def condemned? : Statement → Option ConnectionId
  | overdue c | leaving c .elapsed => some c
  | _ => none

/-- A statement is sent once, and ends with its result. -/
theorem step_sends (h : q.step t ans r = some s) :
    s.next.All (fun q' => q'.connection = q.connection ∧ (q'.isAhead = true → q.isAhead = true) ∧
        (q'.runs? = none ∨
          q.isAhead = true ∧ q.runs? = none ∧ q'.isAhead = false ∧ q'.runs? = some q.connection))
      fun y => q = leaving q.connection y := by
  cases does_of_step h with
  | ask => exact ⟨rfl, fun _ => rfl, .inl rfl⟩
  | run => exact ⟨rfl, (fun hahead => by cases hahead), .inr ⟨rfl, rfl, rfl, rfl⟩⟩
  | leave => rfl
  | _ => exact ⟨rfl, (fun hahead => by cases hahead), .inl rfl⟩

end Statement

namespace Execute

variable {t : TaskId} {ans : Option Answer} {r : Router} {x : Execute}
  {s : RouterStep Execute ExecuteResult} {u : ConnectionId}

/-- The connection on which the statement runs. -/
def runs? (x : Execute) : Option ConnectionId := x.request?.bind Request.runs?

/-- The connection that the task gives up, or is bound to give up. -/
def condemned? : Execute → Option ConnectionId
  | first _ _ _ q | second _ _ q => q.condemned?
  | reconnecting _ _ _ => none
  | discarding _ d => some d.connection
  | invalidating _ (.evicting c _) | invalidating _ (.closing c) => some c

theorem condemned?_of_retires? (hx : (Call.execute x).current.Refers r)
    (h : x.retires? = some u) : x.condemned? = some u := by
  cases x with
  | first sql limitMs c q | second limitMs c q =>
    cases q with
    | overdue => exact h
    | start | queued | running | leaving => cases h
  | reconnecting => cases h
  | discarding f d =>
    obtain ⟨c, v⟩ := d
    cases v <;> cases h
    exact congrArg some hx.1.symm
  | invalidating f i =>
    cases i with
    | closing => cases h
    | evicting c v =>
      cases v <;> cases h
      exact congrArg some hx.1.symm

theorem condemned?_of_doomed (h : (Call.execute x).current.grip.doomed = some u) :
    x.condemned? = some u := by
  cases x with
  | first | second => cases h
  | reconnecting sql limitMs a => cases a <;> cases h
  | discarding f d =>
    obtain ⟨c, v⟩ := d
    cases v with
    | leaving target wasCached => cases wasCached <;> cases h
    | removed | hidden => exact h
    | start | queued => cases h
  | invalidating f i =>
    cases i with
    | closing => cases h
    | evicting c v =>
      cases v with
      | leaving target wasCached => cases wasCached <;> cases h
      | removed | hidden => exact h
      | start | queued => cases h

/-- A result of a statement leads to giving its connection up if it may have left it unusable, and
to the end of the execution otherwise. -/
theorem conclude_cases (limitMs : Nat) (target : Target) (c : ConnectionId)
    (y : StatementResult) :
    (∃ f : Failure, f.kind.poisons = true ∧
      (conclude limitMs target c y = .stage (discarding f ⟨c, .start target c⟩) ∨
        conclude limitMs target c y = .stage (invalidating f (.evicting c (.start target c))))) ∨
    y ≠ .elapsed ∧ ∃ z, conclude limitMs target c y = .done z ∧ z.poisons = false := by
  cases y with
  | elapsed => exact .inl ⟨overdue limitMs, rfl, .inl rfl⟩
  | brokeDown => exact .inr ⟨by simp, _, rfl, rfl⟩
  | answered y =>
    cases y with
    | ok rows => exact .inr ⟨by simp, _, rfl, rfl⟩
    | error e =>
      by_cases htimeout : e.kind = .timeout
      · exact .inl ⟨⟨e.kind, e.text⟩, by simp [htimeout, ErrorKind.poisons],
          .inl (by simp [conclude, htimeout])⟩
      · cases hpoisons : e.kind.poisons with
        | true =>
          exact .inl ⟨⟨e.kind, e.text⟩, hpoisons, .inr (by simp [conclude, htimeout, hpoisons])⟩
        | false =>
          exact .inr ⟨by simp, .failure ⟨e.kind, e.text⟩,
            by simp [conclude, htimeout, hpoisons], hpoisons⟩

theorem isRetried_iff {c : ConnectionId} {y : StatementResult} :
    isRetried r c y = true ↔
      ∃ e, y = .answered (.error e) ∧ e.kind = .connectionError ∧ r.isRetired c = true := by
  cases y with
  | answered z => cases z <;> simp [isRetried]
  | elapsed | brokeDown => simp [isRetried]

theorem afterFirst_of_target? {sql : String} {limitMs : Nat} {c : ConnectionId} {target : Target}
    (hc : r.target? c = some target) (y : StatementResult) :
    afterFirst sql limitMs r c y =
      if isRetried r c y then .stage (reconnecting sql limitMs (.start target))
      else conclude limitMs target c y := by
  simp only [afterFirst, hc]

theorem afterSecond_of_target? {limitMs : Nat} {c : ConnectionId} {target : Target}
    (hc : r.target? c = some target) (y : StatementResult) :
    afterSecond limitMs r c y = conclude limitMs target c y := by
  simp only [afterSecond, hc]

end Execute

/-! ## Taking a connection out -/

/-- A connection that was opened stays out of the slots when it is out of them. -/
theorem GripStep.not_holds {r r' : Router} {g g' : Grip} {closes closed : Option ConnectionId}
    {c : ConnectionId} {target : Target} (h : GripStep r r' g g' closes closed) (hr : r.Coherent)
    (hg : ∀ target, g.vacant = some target → r.cached target = none)
    (hc : r.target? c = some target) (hn : ¬ r.Holds c) : ¬ r'.Holds c := by
  intro hholds
  have hbalance := h.holds_balance (c := c) hr hg
  have hlt := Router.target?_lt hc
  simp only [hholds, hn, hlt, if_true, if_false, false_and] at hbalance
  split at hbalance <;> omega

/-- A connection is taken out of its slot if it is retired, or by a task that is to retire it. -/
theorem GripStep.removes {r r' : Router} {g g' : Grip} {closes closed : Option ConnectionId}
    {c : ConnectionId} (h : GripStep r r' g g' closes closed) (hr : r.Coherent)
    (hg : ∀ target, g.vacant = some target → r.cached target = none) (hc : r.Holds c)
    (hn : ¬ r'.Holds c) : r.isRetired c = true ∨ g'.doomed = some c := by
  cases h with
  | keep _ _ hstill | handOver _ _ hstill =>
    exact absurd hc ((Router.holds_congr hstill.cached).not.1 hn)
  | opened target hrouter =>
    rw [hrouter, Router.holds_opened (hg target rfl)] at hn
    exact absurd (.inl hc) hn
  | take target d hd hrouter =>
    rw [hrouter, hr.holds_setCached_none hd] at hn
    obtain rfl : c = d := by simpa [hc] using hn
    exact .inr rfl
  | replace target d hd hret hrouter =>
    rw [hrouter, hr.holds_setCached_none hd] at hn
    obtain rfl : c = d := by simpa [hc] using hn
    exact .inl hret
  | retire _ d hrouter =>
    rw [hrouter, Router.holds_retire] at hn
    exact absurd hc hn
  | close d hrouter => exact absurd hc (hrouter ▸ hn)

namespace Evict

variable {t : TaskId} {r r' : Router} {c : ConnectionId} {v : Evict} {s : RouterStep Evict Bool}

/-- What has become of a connection that a task is taking out of its slot. -/
def Leaves (r : Router) (c : ConnectionId) : Evict → Prop
  | start _ _ | queued _ _ => True
  | removed _ _ | hidden _ _ => ¬ r.Holds c
  | leaving target wasCached =>
    r.target? c = some target ∧ ¬ r.Holds c ∧ (wasCached = true → r.isRetired c = true)

theorem Leaves.mono {target : Target} (h : v.Leaves r c) (hc : r.target? c = some target)
    (he : r.Extends r') (hn : ¬ r.Holds c → ¬ r'.Holds c) : v.Leaves r' c := by
  cases v with
  | start | queued => trivial
  | removed | hidden => exact hn h
  | leaving u wasCached =>
    exact ⟨he.target c u h.1, hn h.2.1, fun hw => he.retired c target hc (h.2.2 hw)⟩

theorem step_leaves (h : v.step t r = some s) (hr : r.Coherent) (hv : v.Refers r c)
    (hl : v.Leaves r c) :
    s.next.All (Leaves s.router c) fun wasCached => ∃ target, v = leaving target wasCached ∧
      s.router = r.releaseSlot target t := by
  cases does_of_step h with
  | ask => trivial
  | remove _ hcached =>
    obtain ⟨rfl, -⟩ := hv
    exact fun hholds => ((hr.holds_setCached_none hcached).1 hholds).2 rfl
  | @spare target _ _ hcached =>
    obtain ⟨rfl, hd⟩ := hv
    refine ⟨hd, ?_, fun hwas => by cases hwas⟩
    rintro ⟨u, hu⟩
    obtain rfl : u = target := Option.some.inj ((hr u _ hu).symm.trans hd)
    exact hcached hu
  | hide => exact (Router.holds_congr (Router.still_setPhase .absent).cached).not.2 hl
  | retire =>
    obtain ⟨rfl, hd⟩ := hv
    exact ⟨Router.moves_retire.target _ _ hd, Router.holds_retire.not.2 hl,
      fun _ => Router.isRetired_retire_self⟩
  | leave => exact ⟨_, rfl, rfl⟩

end Evict

/-! ## The steps of an execution -/

/-- A step of a task that executes a statement. -/
structure Execute.Takes (x : Execute) (y : Move) (s : RouterStep Execute ExecuteResult) : Prop where
  orderly : y.before.Orderly
  call : y.before.call? y.task = some (.execute x)
  step : x.step y.task y.outside.answer y.before.engine.router = some s
  after : y.after = y.before.afterCall y.task (s.within .execute fun z => .done (.executed z))
  result : y.result = s.next.result?.map fun z => .called (.executed z)

namespace Execute.Takes

variable {x : Execute} {y : Move} {s : RouterStep Execute ExecuteResult} {u : ConnectionId}

theorem of_step (hw : y.before.Orderly) (hx : y.before.call? y.task = some (.execute x))
    (h : y.before.step y.outside y.task = some (y.after, y.result)) : ∃ s, x.Takes y s := by
  obtain ⟨k, s, hk, hs, hafter, hresult⟩ := hw.step h
  obtain rfl := Option.some.inj (hx.symm.trans hk)
  obtain ⟨s', hs', rfl⟩ := Option.map_eq_some_iff.1 hs
  refine ⟨s', hw, hx, hs', hafter, hresult.trans ?_⟩
  cases hn : s'.next <;> simp [RouterStep.within, Next.within, Next.result?, hn]

section

variable (h : x.Takes y s)
include h

theorem call_step : (Call.execute x).step y.task y.outside.answer y.before.engine.router =
    some (s.within .execute fun z => .done (.executed z)) := by
  simp only [Call.step, h.step, Option.map_some]

theorem router : y.after.engine.router = s.router := by
  rw [h.after]
  rfl

theorem orderly_after : y.after.Orderly := by
  rw [h.after]
  exact h.orderly.afterCall h.call h.call_step

theorem call_after : y.after.call? y.task = s.next.stage?.map .execute := by
  rw [h.after, World.call?_afterCall_self (World.lt_of_call? h.call)]
  cases hn : s.next <;> simp [RouterStep.within, Next.within, Next.stage?, hn]

theorem refers : (Call.execute x).current.Refers y.before.engine.router :=
  h.orderly.refers _ _ h.call

theorem moves : y.before.engine.router.Moves x.retires? s.router := Execute.step_moves h.step

theorem grip : GripStep y.before.engine.router s.router (Call.execute x).current.grip
    (s.next.view (fun x => (Call.execute x).current.grip) {}) s.closes
      (Call.execute x).closes? := by
  have hgrip := h.orderly.gripStep_of_step h.call h.call_step
  rw [World.grip_of_call? h.call, World.grip_afterCall_self (World.lt_of_call? h.call)] at hgrip
  cases hn : s.next <;> simpa [RouterStep.within, Next.within, Next.view, hn] using hgrip

theorem vacant (target : Target)
    (hv : (Call.execute x).current.grip.vacant = some target) :
    y.before.engine.router.cached target = none :=
  h.orderly.vacant_of_call? h.call target hv

theorem uses?_eq : y.uses? = (Call.execute x).current.uses? := by
  simp [Move.uses?, Move.call?, h.call]

theorem runs?_before : y.before.runs? y.task = x.runs? := by
  rw [World.runs?, h.orderly.request?_eq, h.call, Option.bind_some, Call.request?_current]
  rfl

theorem delivers?_eq :
    y.delivers? = if x.runs?.isSome then none else s.next.stage?.bind Execute.runs? := by
  rw [Move.delivers?, h.runs?_before, World.runs?, h.orderly_after.request?_eq, h.call_after]
  cases s.next with
  | stage x' =>
    simp only [Next.stage?, Option.map_some, Option.bind_some, Call.request?_current]
    rfl
  | done z => rfl

/-- A connection that the task neither gives up nor goes on to give up is spared. -/
theorem spares (hx : x.condemned? ≠ some u)
    (hnext : ∀ x', s.next = .stage x' → x'.condemned? ≠ some u) : y.Spares u := by
  intro hret
  constructor
  · rintro ⟨hbefore, hafter⟩
    rw [h.router] at hafter
    rcases h.grip.removes h.orderly.coherent h.vacant hbefore hafter with hgone | hdoomed
    · rw [hret] at hgone
      cases hgone
    · cases hn : s.next with
      | stage x' =>
        rw [hn] at hdoomed
        exact hnext x' hn (Execute.condemned?_of_doomed hdoomed)
      | done z =>
        rw [hn] at hdoomed
        cases hdoomed
  · rw [h.router]
    by_contra hgone
    rcases h.moves.gone u (by simpa using hgone) with hbefore | hretires
    · rw [hret] at hbefore
      cases hbefore
    · exact hx (Execute.condemned?_of_retires? h.refers hretires)

end

end Execute.Takes

/-! ## Giving a connection up -/

/-- The task that ends its execution with a step, and had taken a connection out of its slot or has
the slot locked that does not hold it, has given the connection up. -/
theorem Execute.Takes.givenUp {x : Execute} {y : Move} {s : RouterStep Execute ExecuteResult}
    {z : ExecuteResult} {u : ConnectionId} {target : Target} (h : x.Takes y s)
    (hn : s.next = .done z) (hout : ¬ s.router.Holds u)
    (hu : y.before.engine.router.target? u = some target)
    (hin : s.router.isRetired u = true ∨
      (Call.execute x).current.standing (.slot target) = .inside) : y.after.GivenUp u := by
  have hw := h.orderly_after
  have hgone : y.after.call? y.task = none := by rw [h.call_after, hn]; rfl
  have hout' : ¬ y.after.engine.router.Holds u := by rwa [h.router]
  have hdoomed : y.after.engine.router.isRetired u = true ∨
      ∃ t k j, y.after.call? t = some k ∧ k.current = .close j ∧ j.grip.doomed = some u := by
    cases hret : y.after.engine.router.isRetired u with
    | true => exact .inl rfl
    | false =>
      have hinside := hin.resolve_left (by rw [← h.router, hret]; simp)
      have htarget : y.after.engine.router.target? u = some target := by
        rw [h.router]
        exact h.moves.target u target hu
      rcases hw.doomed u target htarget hret with hcached | ⟨t, ht⟩
      · exact absurd ⟨target, hcached⟩ hout'
      · have hne : t ≠ y.task := by
          rintro rfl
          rw [World.grip, hgone] at ht
          cases ht
        cases hk : y.after.call? t with
        | none => simp [World.grip, hk] at ht
        | some k =>
          rw [World.grip_of_call? hk] at ht
          rcases Call.close_or_vacant_of_doomed k.isElementary_current (hw.refers t k hk) ht with
            ⟨j, hj⟩ | ⟨target', htarget', hvacant⟩
          · exact .inr ⟨t, k, j, hk, hj, by rwa [hj] at ht⟩
          · -- the slot cannot be locked by two tasks
            obtain rfl := Option.some.inj (htarget.symm.trans htarget')
            have hafter : y.after.standing (.slot target) t = .inside :=
              World.Orderly.inside_of_vacant (by rwa [World.grip_of_call? hk])
            rw [h.after, World.standing_afterCall_of_ne (World.lt_of_call? h.call) hne] at hafter
            have hbefore : y.before.standing (.slot target) y.task = .inside := by
              rwa [World.standing_of_call? h.call]
            exact absurd (h.orderly.eq_of_inside hafter hbefore) hne
  refine ⟨hout', hdoomed, fun made zs hz => ?_⟩
  refine hdoomed.resolve_right ?_
  rintro ⟨t, k, j, hk, hj, hd⟩
  have hnone := hz.doomed t
  rw [World.grip_of_call? hk, hj] at hnone
  cases hd.symm.trans hnone

end MetricBoard
