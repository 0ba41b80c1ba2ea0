import MetricBoard.Proofs.Router.Attempts

/-!
# The account of an execution

What the steps of a task that executes a statement have done so far can be told from the stage that
it is at (`Execute.Tells`, `Account`). What others do in the meantime does not change the account
(`Account.mono`), and a step of the task itself leads to the next stage with its own account, or
ends the execution as it should (`Execute.Takes.account`).
-/

namespace MetricBoard

/-! ## Stages -/

/-- The connections that a task may get are of some kind. -/
def Acquire.Finds (P : ConnectionId → Prop) : Acquire → Prop
  | cached _ d => P d
  | leaving _ y => ∀ d, y = .ok d → P d
  | start _ | queued _ _ | empty _ _ | connecting _ _ | refused _ _ => True

/-- A connection that is retired is not handed out again. -/
theorem Acquire.step_finds {t : TaskId} {ans : Option Answer} {r : Router} {a : Acquire}
    {s : RouterStep Acquire (Except AcquireError ConnectionId)} {c : ConnectionId} {target : Target}
    (h : a.step t ans r = some s) (hc : r.target? c = some target) (hret : r.isRetired c = true)
    (ha : a.Finds (· ≠ c)) : s.next.All (Finds (· ≠ c)) fun y => ∀ d, y = .ok d → d ≠ c := by
  cases does_of_step h with
  | ask | drop | miss | announce | refuse => trivial
  | unconfigured | giveUp => rintro _ ⟨⟩
  | reuse _ _ hkept =>
    rintro _ ⟨⟩ rfl
    simp [hkept] at hret
  | connect => exact (Nat.ne_of_lt (Router.target?_lt hc)).symm
  | ready =>
    rintro _ ⟨⟩
    exact ha
  | leave => exact ha

/-- A task goes on to give up the connection that it has used last, as its statement failed. -/
structure GivesUp (xs : List Move) (r : Router) (f : Failure) (u : ConnectionId) : Prop where
  poisons : f.kind.poisons = true
  used : lastUsed? xs = some u
  belongs : ∃ target, r.target? u = some target

/-- Statements were sent on one connection at most. -/
def SentOnlyOn (c : ConnectionId) (xs : List Move) : Prop :=
  deliveries xs = [] ∨ deliveries xs = [c]

/-- A try on a connection was given up. -/
def Failed (c : ConnectionId) (xs : List Move) : Prop := ∃ y ∈ xs, y.Abandons c

/-- What the steps of a task have done until a stage of executing a statement. -/
def Execute.Tells (c : ConnectionId) (xs : List Move) (r : Router) : Execute → Prop
  | first _ _ d q =>
    d = c ∧ q.connection = c ∧ (deliveries xs = [] ∨ q.isAhead = false ∧ deliveries xs = [c])
  | reconnecting _ _ a =>
    r.isRetired c = true ∧ Failed c xs ∧ SentOnlyOn c xs ∧ a.Finds (· ≠ c)
  | second _ d q =>
    q.connection = d ∧ d ≠ c ∧ Failed c xs ∧ (q.isAhead = true → SentOnlyOn c xs)
  | discarding f d => GivesUp xs r f d.connection ∧ d.evict.Leaves r d.connection
  | invalidating f (.evicting u v) => GivesUp xs r f u ∧ v.Leaves r u
  | invalidating f (.closing u) => GivesUp xs r f u ∧ ¬ r.Holds u ∧ r.isRetired u = true

/-- The account of an execution on a connection. -/
structure Account (c : ConnectionId) (xs : List Move) (r : Router) (x : Execute) : Prop where
  belongs : ∃ target, r.target? c = some target
  tried : Tried c xs
  spares : ∀ y ∈ xs, ∀ d, x.condemned? ≠ some d → y.Spares d
  silent : ∀ y ∈ xs, y.result = none
  stage : x.Tells c xs r

/-- What is known of an execution that ends with a step. -/
def Ends (xs : List Move) (y : Move) (x : Execute) (z : ExecuteResult) : Prop :=
  if z.poisons then ∃ u, x.condemned? = some u ∧ lastUsed? xs = some u ∧ y.after.GivenUp u
  else x.condemned? = none

theorem Ends.of_not_poisons {xs : List Move} {y : Move} {x : Execute} {z : ExecuteResult}
    (hz : z.poisons = false) (hx : x.condemned? = none) : Ends xs y x z := by
  simpa [Ends, hz] using hx

namespace Execute.Takes

variable {c : ConnectionId} {xs : List Move} {x : Execute} {y : Move}
  {s : RouterStep Execute ExecuteResult}

theorem deliveries_eq (h : x.Takes y s) (hd : ∀ x', s.next = .stage x' → x'.runs? = none) :
    deliveries (xs ++ [y]) = deliveries xs := by
  have hnone : y.delivers? = none := by
    rw [h.delivers?_eq]
    split
    · rfl
    · cases hn : s.next with
      | stage x' => exact hd x' hn
      | done z => rfl
  rw [deliveries_concat, hnone]
  exact List.append_nil _

theorem lastUsed?_eq (h : x.Takes y s) :
    lastUsed? (xs ++ [y]) = ((Call.execute x).current.uses?).or (lastUsed? xs) := by
  rw [lastUsed?_concat, h.uses?_eq]

end Execute.Takes

/-! ## Sending the statement -/

namespace Execute

variable {t : TaskId} {ans : Option Answer} {r r' : Router} {x : Execute}
  {s : RouterStep Execute ExecuteResult} {c u : ConnectionId} {xs : List Move}

/-- The connection on which the task is to send its statement. -/
def sends? : Execute → Option ConnectionId
  | first _ _ _ q | second _ _ q => if q.isAhead then some q.connection else none
  | reconnecting _ _ _ | discarding _ _ | invalidating _ _ => none

theorem runs?_reconnecting (sql : String) (limitMs : Nat) (a : Acquire) :
    (reconnecting sql limitMs a).runs? = none := by
  cases a <;> rfl

theorem runs?_invalidating (f : Failure) (i : Invalidate) : (invalidating f i).runs? = none := by
  cases i <;> rfl

/-- After a statement on a connection none runs before the next one is sent. -/
theorem runs?_conclude (limitMs : Nat) (target : Target) (y : StatementResult) :
    (conclude limitMs target c y).All (fun x => x.runs? = none) fun _ => True := by
  rcases conclude_cases limitMs target c y with ⟨f, -, h | h⟩ | ⟨-, z, h, -⟩ <;> rw [h] <;> trivial

theorem runs?_afterFirst (sql : String) (limitMs : Nat) (y : StatementResult) :
    (afterFirst sql limitMs r c y).All (fun x => x.runs? = none) fun _ => True := by
  unfold afterFirst
  split
  · split
    · rfl
    · exact runs?_conclude limitMs _ y
  · trivial

theorem runs?_afterSecond (limitMs : Nat) (y : StatementResult) :
    (afterSecond limitMs r c y).All (fun x => x.runs? = none) fun _ => True := by
  unfold afterSecond
  split
  · exact runs?_conclude limitMs _ y
  · trivial

/-- A statement runs after a step only on the connection on which it was to be sent. -/
theorem step_sends (h : x.step t ans r = some s) :
    s.next.All (fun x' => x'.runs? = none ∨ x.runs? = none ∧ x'.runs? = x.sends?)
      fun _ => True := by
  have hsent : ∀ {q q' : Statement}, (q'.connection = q.connection ∧
      (q'.isAhead = true → q.isAhead = true) ∧ (q'.runs? = none ∨ q.isAhead = true ∧
        q.runs? = none ∧ q'.isAhead = false ∧ q'.runs? = some q.connection)) →
      q'.runs? = none ∨ q.runs? = none ∧
        q'.runs? = if q.isAhead then some q.connection else none := by
    rintro q q' ⟨-, -, hnone | ⟨hahead, hbefore, -, hruns⟩⟩
    · exact .inl hnone
    · exact .inr ⟨hbefore, by rw [hruns, if_pos hahead]⟩
  cases x with
  | first sql limitMs c q =>
    obtain ⟨s', hs', rfl⟩ := Option.map_eq_some_iff.1 h
    refine (Statement.step_sends hs').within (fun q' hq' => hsent hq') fun y _ => ?_
    exact (runs?_afterFirst sql limitMs y).mono (fun _ => .inl) fun _ hy => hy
  | second limitMs c q =>
    obtain ⟨s', hs', rfl⟩ := Option.map_eq_some_iff.1 h
    refine (Statement.step_sends hs').within (fun q' hq' => hsent hq') fun y _ => ?_
    exact (runs?_afterSecond limitMs y).mono (fun _ => .inl) fun _ hy => hy
  | reconnecting sql limitMs a =>
    obtain ⟨s', hs', rfl⟩ := Option.map_eq_some_iff.1 h
    cases hn : s'.next with
    | stage a' =>
      simp only [RouterStep.within, Next.within, hn]
      exact Or.inl (runs?_reconnecting _ _ _)
    | done z =>
      simp only [RouterStep.within, Next.within, hn]
      cases z
      · trivial
      · exact Or.inl rfl
  | discarding f d =>
    obtain ⟨s', hs', rfl⟩ := Option.map_eq_some_iff.1 h
    cases hn : s'.next <;> simp only [RouterStep.within, Next.within, hn]
    · exact Or.inl rfl
    · trivial
  | invalidating f i =>
    obtain ⟨s', hs', rfl⟩ := Option.map_eq_some_iff.1 h
    cases hn : s'.next <;> simp only [RouterStep.within, Next.within, hn]
    · exact Or.inl (runs?_invalidating _ _)
    · trivial

end Execute

/-! ## Others' steps -/

/-- What has become of the router meanwhile: nothing is forgotten of a connection, and none comes
back into a slot. -/
structure Router.Succeeds (r r' : Router) : Prop where
  keeps : r.Extends r'
  out : ∀ c target, r.target? c = some target → ¬ r.Holds c → ¬ r'.Holds c

theorem GivesUp.mono {xs : List Move} {r r' : Router} {f : Failure} {u : ConnectionId}
    (h : GivesUp xs r f u) (hr : r.Extends r') : GivesUp xs r' f u where
  poisons := h.poisons
  used := h.used
  belongs := h.belongs.imp fun target => hr.target u target

theorem Account.mono {c : ConnectionId} {xs : List Move} {r r' : Router} {x : Execute}
    (h : Account c xs r x) (hr : r.Succeeds r') : Account c xs r' x where
  belongs := h.belongs.imp fun target => hr.keeps.target c target
  tried := h.tried
  spares := h.spares
  silent := h.silent
  stage := by
    have hstage := h.stage
    cases x with
    | first sql limitMs d q => exact hstage
    | second limitMs d q => exact hstage
    | reconnecting sql limitMs a =>
      obtain ⟨target, hc⟩ := h.belongs
      exact ⟨hr.keeps.retired c target hc hstage.1, hstage.2⟩
    | discarding f d =>
      obtain ⟨hup, hl⟩ := hstage
      obtain ⟨target, hu⟩ := hup.belongs
      exact ⟨hup.mono hr.keeps, hl.mono hu hr.keeps (hr.out _ target hu)⟩
    | invalidating f i =>
      cases i with
      | evicting u v =>
        obtain ⟨hup, hl⟩ := hstage
        obtain ⟨target, hu⟩ := hup.belongs
        exact ⟨hup.mono hr.keeps, hl.mono hu hr.keeps (hr.out u target hu)⟩
      | closing u =>
        obtain ⟨hup, hout, hret⟩ := hstage
        obtain ⟨target, hu⟩ := hup.belongs
        exact ⟨hup.mono hr.keeps, hr.out u target hu hout, hr.keeps.retired u target hu hret⟩

/-! ## Own steps -/

/-- A statement that has ended leads to giving its connection up, or ends the execution. -/
theorem Execute.tells_conclude {c u : ConnectionId} {xs : List Move} {r : Router} {target : Target}
    (hused : lastUsed? xs = some u) (hu : r.target? u = some target) (limitMs : Nat)
    (z : StatementResult) :
    (conclude limitMs target u z).All (Tells c xs r)
      fun z' => z ≠ .elapsed ∧ z'.poisons = false := by
  rcases conclude_cases limitMs target u z with ⟨f, hf, hn | hn⟩ | ⟨hz, z', hn, hz'⟩
  · rw [hn]
    exact ⟨⟨hf, hused, target, hu⟩, trivial⟩
  · rw [hn]
    exact ⟨⟨hf, hused, target, hu⟩, trivial⟩
  · rw [hn]
    exact ⟨hz, hz'⟩

namespace Execute.Takes

variable {c u : ConnectionId} {xs : List Move} {x : Execute} {y : Move}
  {s : RouterStep Execute ExecuteResult} {target : Target}

section

variable (h : x.Takes y s)
include h

theorem succeeds : y.before.engine.router.Succeeds s.router where
  keeps := h.moves.extends
  out _ _ hc := h.grip.not_holds h.orderly.coherent h.vacant hc

end

end Execute.Takes

theorem Statement.condemned?_leaving {c : ConnectionId} {z : StatementResult}
    (hz : z ≠ .elapsed) : (leaving c z).condemned? = none := by
  cases z with
  | elapsed => exact absurd rfl hz
  | answered | brokeDown => rfl

namespace Execute.Takes

variable {c u : ConnectionId} {xs : List Move} {x x' : Execute} {y : Move}
  {s : RouterStep Execute ExecuteResult} {target : Target} {sql : String} {limitMs : Nat}
  {q : Statement} {f : Failure}

theorem deliveries_sent (h : x.Takes y s) (hx : x.runs? = none) (hn : s.next = .stage x')
    (hu : x'.runs? = some u) : deliveries (xs ++ [y]) = deliveries xs ++ [u] := by
  rw [deliveries_concat, h.delivers?_eq, hx, hn]
  simp [Next.stage?, hu]

/-- A try that failed on a connection that was retired by then is given up. -/
theorem abandons {s' : RouterStep Statement StatementResult} {e : DriverError} (h : x.Takes y s)
    (hx : (Call.execute x).current = .statement q)
    (hs : q.step y.task y.outside.answer y.before.engine.router = some s')
    (hn : s'.next = .done (.answered (.error e))) (he : e.kind = .connectionError)
    (hret : s.router.isRetired q.connection = true) : y.Abandons q.connection := by
  have hcall : y.call? = some (.statement q) := by simp [Move.call?, h.call, hx]
  refine ⟨e, ?_, ?_, he, h.router ▸ hret⟩
  · rw [Move.uses?, hcall]
    rfl
  · simp [Move.result?, hcall, Call.step, hs, RouterStep.within, Next.within, hn, Next.result?]

theorem tells_first (h : (first sql limitMs u q).Takes y s)
    (hx : (first sql limitMs u q).Tells c xs y.before.engine.router) :
    s.next.All (Tells c (xs ++ [y]) s.router)
      (Ends (xs ++ [y]) y (first sql limitMs u q)) := by
  obtain ⟨rfl, rfl, hd⟩ := hx
  obtain ⟨s', hs', hs⟩ := Option.map_eq_some_iff.1 h.step
  have hsends := Statement.step_sends hs'
  cases hn : s'.next with
  | stage q' =>
    rw [hn] at hsends
    obtain ⟨hconnection, hahead, hruns⟩ := hsends
    have hnext : s.next = .stage (first sql limitMs q.connection q') := by
      rw [← hs, RouterStep.within, hn]
      rfl
    rw [hnext]
    refine ⟨rfl, hconnection, ?_⟩
    rcases hruns with hnone | ⟨hbefore, hidle, hafter, hruns⟩
    · rw [h.deliveries_eq fun x' hx' => by cases hnext.symm.trans hx'; exact hnone]
      refine hd.imp_right fun hx => ⟨?_, hx.2⟩
      obtain ⟨hsent, -⟩ := hx
      cases hq' : q'.isAhead with
      | false => rfl
      | true => rw [hahead hq'] at hsent; cases hsent
    · have hnil := hd.resolve_right fun hx => by
        have hsent := hx.1
        rw [hbefore] at hsent
        cases hsent
      exact .inr ⟨hafter, by rw [h.deliveries_sent hidle hnext hruns, hnil]; rfl⟩
  | done z =>
    rw [hn] at hsends
    obtain ⟨target, ht⟩ := h.refers
    have ht' : s'.router.target? q.connection = some target :=
      (Statement.step_moves hs').target _ target ht
    have hnext : s.next = afterFirst sql limitMs s'.router q.connection z := by
      rw [← hs, RouterStep.within, hn]
      rfl
    have hrouter : s.router = s'.router := by rw [← hs]; rfl
    rw [hnext, hrouter, afterFirst_of_target? ht']
    split
    · rename_i hretried
      obtain ⟨e, rfl, he, hret⟩ := isRetried_iff.1 hretried
      have hd' : deliveries (xs ++ [y]) = deliveries xs := h.deliveries_eq fun x' hx' => by
        rw [hnext, afterFirst_of_target? ht', if_pos hretried] at hx'
        cases hx'
        rfl
      refine ⟨hret, ⟨y, by simp, h.abandons rfl hs' hn he (hrouter ▸ hret)⟩, ?_, trivial⟩
      rw [SentOnlyOn, hd']
      exact hd.imp_right And.right
    · refine (tells_conclude ?_ ht' limitMs z).mono (fun _ hx => hx) fun z' hz => ?_
      · rw [h.lastUsed?_eq]
        rfl
      · refine .of_not_poisons hz.2 ?_
        rw [condemned?, hsends]
        exact Statement.condemned?_leaving hz.1

theorem tells_second (h : (second limitMs u q).Takes y s)
    (hx : (second limitMs u q).Tells c xs y.before.engine.router) :
    s.next.All (Tells c (xs ++ [y]) s.router) (Ends (xs ++ [y]) y (second limitMs u q)) := by
  obtain ⟨rfl, hne, ⟨y', hy', hfailed⟩, hd⟩ := hx
  obtain ⟨s', hs', hs⟩ := Option.map_eq_some_iff.1 h.step
  have hsends := Statement.step_sends hs'
  cases hn : s'.next with
  | stage q' =>
    rw [hn] at hsends
    obtain ⟨hconnection, hahead, hruns⟩ := hsends
    have hnext : s.next = .stage (second limitMs q.connection q') := by
      rw [← hs, RouterStep.within, hn]
      rfl
    rw [hnext]
    refine ⟨hconnection, hne, ⟨y', List.mem_append_left _ hy', hfailed⟩, fun hq' => ?_⟩
    have hnone : q'.runs? = none := hruns.resolve_right fun hx => by
      have hsent := hx.2.2.1
      rw [hq'] at hsent
      cases hsent
    rw [SentOnlyOn, h.deliveries_eq fun x' hx' => by cases hnext.symm.trans hx'; exact hnone]
    exact hd (hahead hq')
  | done z =>
    rw [hn] at hsends
    obtain ⟨target, ht⟩ := h.refers
    have ht' : s'.router.target? q.connection = some target :=
      (Statement.step_moves hs').target _ target ht
    have hnext : s.next = afterSecond limitMs s'.router q.connection z := by
      rw [← hs, RouterStep.within, hn]
      rfl
    have hrouter : s.router = s'.router := by rw [← hs]; rfl
    rw [hnext, hrouter, afterSecond_of_target? ht']
    refine (tells_conclude ?_ ht' limitMs z).mono (fun _ hx => hx) fun z' hz => ?_
    · rw [h.lastUsed?_eq]
      rfl
    · refine .of_not_poisons hz.2 ?_
      rw [condemned?, hsends]
      exact Statement.condemned?_leaving hz.1

theorem tells_reconnecting {a : Acquire} (h : (reconnecting sql limitMs a).Takes y s)
    (hc : ∃ target, y.before.engine.router.target? c = some target)
    (hx : (reconnecting sql limitMs a).Tells c xs y.before.engine.router) :
    s.next.All (Tells c (xs ++ [y]) s.router)
      (Ends (xs ++ [y]) y (reconnecting sql limitMs a)) := by
  obtain ⟨hret, ⟨y', hy', hfailed⟩, hd, hfinds⟩ := hx
  obtain ⟨target, ht⟩ := hc
  obtain ⟨s', hs', hs⟩ := Option.map_eq_some_iff.1 h.step
  have hret' : s.router.isRetired c = true := h.moves.retired c target ht hret
  have hfailed' : Failed c (xs ++ [y]) := ⟨y', List.mem_append_left _ hy', hfailed⟩
  have hnone : ∀ x', s.next = .stage x' → x'.runs? = none := fun x' hx' => by
    have hsends := step_sends h.step
    rw [hx'] at hsends
    exact hsends.elim id And.right
  have hd' : SentOnlyOn c (xs ++ [y]) := by rwa [SentOnlyOn, h.deliveries_eq hnone]
  have hnext : s.next = s'.next.within (reconnecting sql limitMs) (afterAcquire sql limitMs) := by
    rw [← hs]
    rfl
  rw [hnext]
  refine (Acquire.step_finds hs' ht hret hfinds).within
    (fun a' ha' => ⟨hret', hfailed', hd', ha'⟩) fun z hz => ?_
  cases z with
  | ok d => exact ⟨rfl, hz d rfl, hfailed', fun _ => hd'⟩
  | error e => exact Ends.of_not_poisons (by cases e <;> rfl) rfl

end Execute.Takes

theorem GivesUp.ends {xs : List Move} {y : Move} {r : Router} {f : Failure} {u : ConnectionId}
    {x : Execute} (h : GivesUp xs r f u) (hx : x.condemned? = some u)
    (hgiven : y.after.GivenUp u) : Ends xs y x (.failure f) := by
  have hpoisons : (ExecuteResult.failure f).poisons = true := h.poisons
  rw [Ends, if_pos hpoisons]
  exact ⟨u, hx, h.used, hgiven⟩

namespace Execute.Takes

variable {c u : ConnectionId} {xs : List Move} {x : Execute} {y : Move}
  {s : RouterStep Execute ExecuteResult} {f : Failure}

/-- What is given up stays so after a step that has nothing to do with a statement. -/
theorem givesUp (h : x.Takes y s) (hup : GivesUp xs y.before.engine.router f u)
    (hx : (Call.execute x).current.uses? = none) : GivesUp (xs ++ [y]) s.router f u where
  poisons := hup.poisons
  used := by rw [h.lastUsed?_eq, hx, Option.none_or, hup.used]
  belongs := hup.belongs.imp fun target => h.moves.target u target

theorem tells_discarding {d : Discard} (h : (discarding f d).Takes y s)
    (hx : (discarding f d).Tells c xs y.before.engine.router) :
    s.next.All (Tells c (xs ++ [y]) s.router) (Ends (xs ++ [y]) y (discarding f d)) := by
  obtain ⟨hup, hl⟩ := hx
  have hup' := h.givesUp hup rfl
  obtain ⟨s', hs', hs⟩ := Option.map_eq_some_iff.1 h.step
  obtain ⟨s'', hs'', rfl⟩ := Option.map_eq_some_iff.1 hs'
  have hrouter : s.router = s''.router := by rw [← hs]; rfl
  have hleaves := Evict.step_leaves hs'' h.orderly.coherent h.refers hl
  rw [← hrouter] at hleaves
  cases hn : s''.next with
  | stage v =>
    have hnext : s.next = .stage (discarding f ⟨d.connection, v⟩) := by
      simp [← hs, RouterStep.within, Next.within, hn]
    rw [hn] at hleaves
    rw [hnext]
    exact ⟨hup', hleaves⟩
  | done wasCached =>
    have hnext : s.next = .done (.failure f) := by
      simp [← hs, RouterStep.within, Next.within, hn]
    rw [hn] at hleaves
    obtain ⟨target, hv, hrelease⟩ := hleaves
    rw [hv] at hl
    rw [hnext]
    refine hup'.ends rfl (h.givenUp hnext (fun hholds => hl.2.1 ?_) hl.1 (.inr ?_))
    · rw [hrelease] at hholds
      exact (Router.holds_congr Router.still_releaseSlot.cached).1 hholds
    · have hstanding : (Call.execute (discarding f d)).current.standing (.slot target) =
        d.evict.standing (.slot target) := rfl
      rw [hstanding, hv]
      exact Standing.at_self _ _

theorem tells_invalidating {i : Invalidate} (h : (invalidating f i).Takes y s)
    (hx : (invalidating f i).Tells c xs y.before.engine.router) :
    s.next.All (Tells c (xs ++ [y]) s.router) (Ends (xs ++ [y]) y (invalidating f i)) := by
  obtain ⟨s', hs', hs⟩ := Option.map_eq_some_iff.1 h.step
  cases i with
  | evicting u v =>
    obtain ⟨hup, hl⟩ := hx
    have hup' := h.givesUp hup rfl
    obtain ⟨s'', hs'', rfl⟩ := Option.map_eq_some_iff.1 hs'
    have hrouter : s.router = s''.router := by rw [← hs]; rfl
    have hleaves := Evict.step_leaves hs'' h.orderly.coherent h.refers hl
    rw [← hrouter] at hleaves
    cases hn : s''.next with
    | stage v' =>
      have hnext : s.next = .stage (invalidating f (.evicting u v')) := by
        simp [← hs, RouterStep.within, Next.within, hn]
      rw [hn] at hleaves
      rw [hnext]
      exact ⟨hup', hleaves⟩
    | done wasCached =>
      rw [hn] at hleaves
      obtain ⟨target, rfl, hrelease⟩ := hleaves
      obtain ⟨ht, hout, hret⟩ := hl
      have hout' : ¬ s.router.Holds u := fun hholds => hout <| by
        rw [hrelease] at hholds
        exact (Router.holds_congr Router.still_releaseSlot.cached).1 hholds
      cases wasCached with
      | true =>
        have hnext : s.next = .stage (invalidating f (.closing u)) := by
          simp [← hs, RouterStep.within, Next.within, hn]
        rw [hnext]
        exact ⟨hup', hout', h.moves.retired u target ht (hret rfl)⟩
      | false =>
        have hnext : s.next = .done (.failure f) := by
          simp [← hs, RouterStep.within, Next.within, hn]
        rw [hnext]
        exact hup'.ends rfl (h.givenUp hnext hout' ht (.inr (Standing.at_self _ _)))
  | closing u =>
    obtain ⟨hup, hout, hret⟩ := hx
    have hup' := h.givesUp hup rfl
    obtain ⟨target, ht⟩ := hup.belongs
    have hnext : s.next = .done (.failure f) := by
      obtain rfl := Invalidate.eq_of_closing hs'
      rw [← hs]
      rfl
    rw [hnext]
    exact hup'.ends rfl (h.givenUp hnext (h.succeeds.out u target ht hout) ht
      (.inl (h.moves.retired u target ht hret)))

/-- One step of an execution leads to the next stage with its own account, or to an end. -/
theorem tells (h : x.Takes y s) (ha : Account c xs y.before.engine.router x) :
    s.next.All (Tells c (xs ++ [y]) s.router) (Ends (xs ++ [y]) y x) := by
  cases x with
  | first => exact h.tells_first ha.stage
  | reconnecting => exact h.tells_reconnecting ha.belongs ha.stage
  | second => exact h.tells_second ha.stage
  | discarding => exact h.tells_discarding ha.stage
  | invalidating => exact h.tells_invalidating ha.stage

/-- A statement is sent as the stage that sends it tells. -/
theorem tried (h : x.Takes y s) (ha : Account c xs y.before.engine.router x) :
    Tried c (xs ++ [y]) := by
  refine ha.tried.concat fun d hd => ?_
  have hsends : x.sends? = some d := by
    rw [h.delivers?_eq] at hd
    split at hd
    · cases hd
    · have hsent := step_sends h.step
      cases hn : s.next with
      | stage x' =>
        rw [hn] at hd hsent
        rcases hsent with hnone | ⟨-, heq⟩
        · cases hnone.symm.trans hd
        · exact heq.symm.trans hd
      | done z =>
        rw [hn] at hd
        cases hd
  have hstage := ha.stage
  cases x with
  | first sql limitMs u q =>
    obtain ⟨rfl, hq, hone⟩ := hstage
    simp only [sends?] at hsends
    split at hsends
    · rename_i hahead
      cases hsends
      exact .inl ⟨hq, hone.resolve_right fun hx => by
        have hsent := hx.1
        rw [hahead] at hsent
        cases hsent⟩
    · cases hsends
  | second limitMs u q =>
    obtain ⟨rfl, hne, hfailed, hone⟩ := hstage
    simp only [sends?] at hsends
    split at hsends
    · cases hsends
      exact .inr ⟨hne, hfailed, hone ‹_›⟩
    · cases hsends
  | reconnecting | discarding | invalidating => cases hsends

end Execute.Takes

end MetricBoard
