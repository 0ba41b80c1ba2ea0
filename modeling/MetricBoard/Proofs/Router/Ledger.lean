import Mathlib.Data.List.Count
import MetricBoard.Proofs.Router.Traffic

/-!
# Every connection is closed once

A connection that was opened is in its slot, or it was taken out and is to be closed, or it was
closed: this is the ledger of the connections, and it is balanced all through the traffic
(`World.Balanced`, `Traffic.balanced`). Taking a connection out makes some task owe its close, and
that task hands the debt on to another one or pays it. Giving a connection up is true of the call
that has taken it out, and of no other.

The balance of one step is that of the slots (`GripStep.holds_balance`) and of what the task has in
hand (`GripStep.taken_balance`), so it does not matter which call the step belongs to.
-/

namespace MetricBoard

/-! ## Counting tasks -/

/-- The number of tasks at an elementary call of some kind. -/
def World.count (p : Call → Bool) (w : World) : Nat :=
  w.tasks.countP fun
    | some (.call c) => p c.current
    | _ => false

namespace World

variable {w : World} {t : TaskId} {c : Call} {s : RouterStep Call CallResult}

theorem count_spawn (p : Call → Bool) (h : p c.current = false) :
    (w.spawn [.call c]).count p = w.count p := by
  simp [count, spawn, List.countP_append, h]

/-- What a step changes in the number of tasks of some kind. -/
theorem count_afterCall (p : Call → Bool) (hc : w.call? t = some c) :
    (w.afterCall t s).count p + (if p c.current then 1 else 0) =
      w.count p + (if s.next.view (fun c => p c.current) false then 1 else 0) +
        (if s.closes.any fun d => p (.closing d) then 1 else 0) := by
  have hact := call?_eq_some.1 hc
  have ht := lt_of_activity? hact
  have hget : w.tasks[t] = some (.call c) := by
    rwa [activity?, List.getElem?_eq_getElem ht, Option.join_some] at hact
  have hpos : p c.current = true → 0 < w.count p := fun hp =>
    List.countP_pos_iff.2 ⟨_, List.getElem_mem ht, by simpa [hget] using hp⟩
  simp only [count] at hpos ⊢
  rw [afterCall, after, List.countP_append, List.countP_set ht, hget]
  cases s.next <;> cases s.closes <;> simp [Next.view, Next.stage?, Call.current] <;> grind

end World

/-! ## What slots hold -/

namespace Router

/-- Some slot holds a connection. -/
def Holds (r : Router) (c : ConnectionId) : Prop := ∃ target, r.cached target = some c

instance decidableHolds (r : Router) (c : ConnectionId) : Decidable (r.Holds c) :=
  decidable_of_iff (r.cached .relational = some c ∨ r.cached .fileDatabase = some c)
    ⟨fun h => h.elim (fun h => ⟨_, h⟩) fun h => ⟨_, h⟩, fun ⟨target, h⟩ => by
      cases target
      · exact .inl h
      · exact .inr h⟩

variable {r r' : Router} {target : Target} {c d : ConnectionId}

theorem Coherent.lt_of_holds (hr : r.Coherent) (h : r.Holds c) : c < r.connections.length := by
  obtain ⟨target, hc⟩ := h
  exact target?_lt (hr target c hc)

theorem holds_congr (h : ∀ target, r'.cached target = r.cached target) :
    r'.Holds c ↔ r.Holds c := by
  simp only [Holds, h]

theorem Coherent.holds_setCached_none (hr : r.Coherent) (hd : r.cached target = some d) :
    (r.setCached target none).Holds c ↔ r.Holds c ∧ c ≠ d := by
  simp only [Holds, cached_setCached]
  constructor
  · rintro ⟨u, hu⟩
    split at hu
    · cases hu
    · rename_i hne
      refine ⟨⟨u, hu⟩, ?_⟩
      rintro rfl
      exact hne (Option.some.inj ((hr u c hu).symm.trans (hr target c hd)))
  · rintro ⟨⟨u, hu⟩, hne⟩
    refine ⟨u, ?_⟩
    rw [if_neg, hu]
    rintro rfl
    exact hne (Option.some.inj (hu.symm.trans hd))

theorem holds_opened (hnone : r.cached target = none) :
    (r.opened target).Holds c ↔ r.Holds c ∨ c = r.connections.length := by
  simp only [Holds, opened, cached_setCached]
  constructor
  · rintro ⟨u, hu⟩
    split at hu
    · exact .inr (Option.some.inj hu).symm
    · exact .inl ⟨u, hu⟩
  · rintro (⟨u, hu⟩ | rfl)
    · refine ⟨u, ?_⟩
      rw [if_neg]
      · exact hu
      · rintro rfl
        rw [hnone] at hu
        cases hu
    · exact ⟨target, if_pos rfl⟩

theorem length_retire : (r.retire d).connections.length = r.connections.length :=
  List.length_modify ..

theorem holds_retire : (r.retire d).Holds c ↔ r.Holds c := holds_congr fun _ => rfl

end Router

/-! ## The balance of a step -/

namespace GripStep

variable {r r' : Router} {g g' : Grip} {closes closed : Option ConnectionId} {c : ConnectionId}

/-- The slots gain what is opened in a step, and lose what is taken out. -/
theorem holds_balance (h : GripStep r r' g g' closes closed) (hr : r.Coherent)
    (hg : ∀ target, g.vacant = some target → r.cached target = none) :
    (if r'.Holds c then 1 else 0) + (if r.Holds c ∧ ¬ r'.Holds c then 1 else 0) +
        (if c < r.connections.length then 1 else 0) =
      (if r.Holds c then 1 else 0) + (if c < r'.connections.length then 1 else 0) := by
  have hlt : r.Holds c → c < r.connections.length := hr.lt_of_holds
  cases h with
  | keep _ _ hstill | handOver _ _ hstill =>
    simp [Router.holds_congr hstill.cached, hstill.length]
  | opened target hrouter =>
    simp only [hrouter, Router.holds_opened (hg target rfl), Router.length_opened]
    grind
  | take target d hd hrouter | replace target d hd _ hrouter =>
    have hlength : r'.connections.length = r.connections.length := by rw [hrouter]; rfl
    simp only [hlength]
    simp only [hrouter, hr.holds_setCached_none hd]
    grind
  | retire _ d hrouter => simp [hrouter, Router.length_retire, Router.holds_retire]
  | close d hrouter => simp [hrouter]

/-- The task gains what is taken out in a step, unless it leaves it to be closed by another one, and
loses what is closed. -/
theorem taken_balance (h : GripStep r r' g g' closes closed) (hr : r.Coherent)
    (hg : ∀ target, g.vacant = some target → r.cached target = none) :
    (if g'.taken = some c then 1 else 0) + (if closes = some c then 1 else 0) +
        (if closed = some c then 1 else 0) =
      (if g.taken = some c then 1 else 0) + (if r.Holds c ∧ ¬ r'.Holds c then 1 else 0) := by
  cases h with
  | keep _ _ hstill | handOver _ _ hstill => simp [Router.holds_congr hstill.cached]
  | opened target hrouter =>
    simp only [hrouter, Router.holds_opened (hg target rfl)]
    grind
  | take target d hd hrouter | replace target d hd _ hrouter =>
    have hholds : r.Holds d := ⟨target, hd⟩
    simp only [hrouter, hr.holds_setCached_none hd]
    grind
  | retire _ d hrouter => simp [hrouter, Router.holds_retire]
  | close d hrouter => simp [hrouter]

/-- What a task has taken out after a step it had taken out before, or the step has taken it out. -/
theorem taken_of_taken (h : GripStep r r' g g' closes closed) (hr : r.Coherent)
    (hg : ∀ target, g.vacant = some target → r.cached target = none) (ht : g'.taken = some c) :
    g.taken = some c ∨ r.Holds c ∧ ¬ r'.Holds c := by
  have hbalance := h.taken_balance (c := c) hr hg
  rw [if_pos ht] at hbalance
  by_contra hneither
  rw [not_or] at hneither
  rw [if_neg hneither.1, if_neg hneither.2] at hbalance
  omega

end GripStep

/-! ## Giving connections up -/

/-- A connection is not taken out of a slot that holds another one. -/
theorem Evict.step_slot {t : TaskId} {r : Router} {c d : ConnectionId} {v : Evict}
    {s : RouterStep Evict Bool} {target : Target} (h : v.step t r = some s) (hv : v.Refers r c)
    (hg : ∀ u, (v.grip c).vacant = some u → r.cached u = none) (hc : r.target? c = some target)
    (hd : r.cached target = some d) (hne : d ≠ c) :
    s.router.cached target = some d ∧ s.router.phase target = r.phase target := by
  have hvacant : (v.grip c).vacant ≠ some target := fun hvac => by simp [hg target hvac] at hd
  cases does_of_step h with
  | ask =>
    exact ⟨(Router.still_requestSlot.cached target).trans hd, Router.phase_requestSlot target⟩
  | @remove u _ _ hcached =>
    obtain ⟨rfl, hu⟩ := hv
    obtain rfl : u = target := Option.some.inj (hu.symm.trans hc)
    exact absurd (Option.some.inj (hd.symm.trans hcached)) hne
  | spare => exact ⟨hd, rfl⟩
  | hide | retire => exact absurd (hv.2.symm.trans hc) hvacant
  | leave =>
    exact ⟨(Router.still_releaseSlot.cached target).trans hd, Router.phase_releaseSlot target⟩

namespace Call

/-- The connection that a task is giving up. -/
def handle? : Call → Option ConnectionId
  | invalidate (.evicting c _) | invalidate (.closing c) | discard ⟨c, _⟩ => some c
  | _ => none

/-- The connection that a task has taken out to give it up, of which it will say so. -/
def pledged? : Call → Option ConnectionId
  | invalidate i => (invalidate i).grip.taken
  | discard d => (discard d).grip.taken
  | _ => none

variable {c c' : Call} {d : ConnectionId} {t : TaskId} {ans : Option Answer} {r : Router}
  {s : RouterStep Call CallResult}

theorem Starts.pledged? (h : Starts r c) : c.pledged? = none := by
  cases h <;> rfl

theorem pledged?_eq_some (h : c.pledged? = some d) : c.grip.taken = some d := by
  cases c with
  | invalidate | discard => exact h
  | acquire | statement | execute | close | shutdown | closing => cases h

/-- A task that has promised to give a connection up has done so before the step, or it has taken
the connection out with the step. -/
theorem step_pledged? (h : c.step t ans r = some s) (he : c.IsElementary) (hc : c.Refers r)
    (hr : r.Coherent) (hg : ∀ target, c.grip.vacant = some target → r.cached target = none) :
    s.next.All (fun c' => ∀ d, c'.pledged? = some d →
      c.pledged? = some d ∨ r.Holds d ∧ ¬ s.router.Holds d) fun _ => True := by
  have hgrip := step_grip h he hc
  cases hn : s.next with
  | done => trivial
  | stage c' =>
    intro d hd
    rw [hn] at hgrip
    refine (hgrip.taken_of_taken hr hg (pledged?_eq_some hd)).imp_left fun htaken => ?_
    -- the call is of the same sort before and after the step
    cases c with
    | invalidate | discard => exact htaken
    | closing =>
      obtain rfl := eq_of_closing h
      cases hn
    | acquire | statement | close =>
      obtain ⟨s', -, rfl⟩ := Option.map_eq_some_iff.1 h
      cases hs' : s'.next <;> simp only [RouterStep.within, Next.within, hs', Next.stage.injEq,
        reduceCtorEq] at hn
      rw [← hn] at hd
      cases hd
    | execute | shutdown => exact he.elim

/-- A task says that it has given up what it has taken out. -/
theorem pledged?_of_done (h : c.step t ans r = some s) (he : c.IsElementary)
    (hn : s.next = .done (.givenUp true)) : c.pledged? = c.handle? := by
  cases c with
  | invalidate i =>
    obtain ⟨s', hs', rfl⟩ := Option.map_eq_some_iff.1 h
    cases i with
    | closing c => rfl
    | evicting c v =>
      obtain ⟨s'', hs'', rfl⟩ := Option.map_eq_some_iff.1 hs'
      cases hs : s''.next with
      | stage => simp [RouterStep.within, Next.within, hs] at hn
      | done wasCached => cases wasCached <;> simp [RouterStep.within, Next.within, hs] at hn
  | discard d =>
    obtain ⟨s', hs', rfl⟩ := Option.map_eq_some_iff.1 h
    obtain ⟨s'', hs'', rfl⟩ := Option.map_eq_some_iff.1 hs'
    cases hs : s''.next with
    | stage => simp [RouterStep.within, Next.within, hs] at hn
    | done wasCached =>
      obtain ⟨target, hv, -⟩ := Evict.of_done hs'' hs
      obtain rfl : wasCached = true := by simpa [RouterStep.within, Next.within, hs] using hn
      simp [pledged?, handle?, grip, Evict.grip, hv]
  | closing =>
    obtain rfl := eq_of_closing h
    cases hn
  | acquire | statement | close =>
    obtain ⟨s', -, rfl⟩ := Option.map_eq_some_iff.1 h
    cases hs : s'.next <;> simp [RouterStep.within, Next.within, hs] at hn
  | execute | shutdown => exact he.elim

/-- A slot that holds another connection is left alone. -/
theorem step_slot {target : Target} {d' : ConnectionId} (h : c.step t ans r = some s)
    (he : c.IsElementary) (hc : c.Refers r)
    (hg : ∀ u, c.grip.vacant = some u → r.cached u = none) (hh : c.handle? = some d)
    (ht : r.target? d = some target) (hd' : r.cached target = some d') (hne : d' ≠ d) :
    s.router.cached target = some d' ∧ s.router.phase target = r.phase target := by
  cases c with
  | invalidate i =>
    obtain ⟨s', hs', rfl⟩ := Option.map_eq_some_iff.1 h
    cases i with
    | evicting c v =>
      cases hh
      obtain ⟨s'', hs'', rfl⟩ := Option.map_eq_some_iff.1 hs'
      exact Evict.step_slot hs'' hc hg ht hd' hne
    | closing c =>
      obtain rfl := Invalidate.eq_of_closing hs'
      exact ⟨hd', rfl⟩
  | discard x =>
    cases hh
    obtain ⟨s', hs', rfl⟩ := Option.map_eq_some_iff.1 h
    obtain ⟨s'', hs'', rfl⟩ := Option.map_eq_some_iff.1 hs'
    exact Evict.step_slot hs'' hc hg ht hd' hne
  | execute | shutdown => exact he.elim
  | acquire | statement | close | closing => cases hh

end Call

/-! ## The ledger -/

namespace Move

variable (x : Move) (c : ConnectionId)

/-- The connection that has been closed by the end of the step. -/
def closed? : Option ConnectionId := (x.before.request? x.task).bind Request.closes?

/-- The step has taken a connection out of its slot. -/
def Removes : Prop := x.before.engine.router.Holds c ∧ ¬ x.after.engine.router.Holds c

/-- The step is the last one of an invalidation or a discard of a connection, and it is true. -/
def GivesUp : Prop := x.call?.bind Call.handle? = some c ∧ x.result? = some (.givenUp true)

instance decidableRemoves : DecidablePred x.Removes := fun c =>
  inferInstanceAs (Decidable (x.before.engine.router.Holds c ∧ ¬ x.after.engine.router.Holds c))

instance decidableGivesUp : DecidablePred x.GivesUp := fun c =>
  inferInstanceAs (Decidable (x.call?.bind Call.handle? = some c ∧
    x.result? = some (.givenUp true)))

end Move

namespace World

variable (w : World) (xs : List Move) (c : ConnectionId)

/-- The number of tasks that have taken a connection out of its slot and are to close it. -/
def owing : Nat := w.count fun k => k.grip.taken = some c

/-- The number of tasks that have taken a connection out and will say so. -/
def pledged : Nat := w.count fun k => k.pledged? = some c

/-- The ledger of a connection, if it has been opened. -/
structure Balanced : Prop where
  closed : (if w.engine.router.Holds c then 1 else 0) + w.owing c +
      xs.countP (fun x => x.closed? = some c) =
    if c < w.engine.router.connections.length then 1 else 0
  removed : (if w.engine.router.Holds c then 1 else 0) + xs.countP (fun x => x.Removes c) =
    if c < w.engine.router.connections.length then 1 else 0
  pledged : w.pledged c + xs.countP (fun x => x.GivesUp c) ≤ xs.countP fun x => x.Removes c

variable {w xs c} {t : TaskId} {k : Call} {s : RouterStep Call CallResult} {ans : Option Answer}

theorem owing_afterCall (hc : w.call? t = some k) :
    (w.afterCall t s).owing c + (if (w.grip t).taken = some c then 1 else 0) =
      w.owing c + (if ((w.afterCall t s).grip t).taken = some c then 1 else 0) +
        (if s.closes = some c then 1 else 0) := by
  have hcount := count_afterCall (s := s) (fun k => k.grip.taken = some c) hc
  rw [grip_of_call? hc, grip_afterCall_self (lt_of_call? hc)]
  simp only [decide_eq_true_eq] at hcount
  have hnext : (s.next.view (fun k => decide (k.current.grip.taken = some c)) false = true) =
      ((s.next.view (fun k : Call => k.current.grip) {}).taken = some c) := by
    cases s.next <;> simp [Next.view]
  have hcloses : ((s.closes.any fun d => decide ((Call.closing d).grip.taken = some c)) = true) =
      (s.closes = some c) := by
    cases s.closes <;> simp [Call.grip]
  simpa only [owing, hnext, hcloses] using hcount

theorem pledged_afterCall (hc : w.call? t = some k) :
    (w.afterCall t s).pledged c + (if k.current.pledged? = some c then 1 else 0) =
      w.pledged c +
        (if s.next.view (fun k => k.current.pledged?) none = some c then 1 else 0) := by
  have hcount := count_afterCall (s := s) (fun k => k.pledged? = some c) hc
  simp only [decide_eq_true_eq] at hcount
  have hnext : (s.next.view (fun k => decide (k.current.pledged? = some c)) false = true) =
      (s.next.view (fun k => k.current.pledged?) none = some c) := by
    cases s.next <;> simp [Next.view]
  have hcloses : ((s.closes.any fun d => decide ((Call.closing d).pledged? = some c)) = true) =
      False := by
    cases s.closes <;> simp [Call.pledged?]
  simpa only [pledged, hnext, hcloses, if_false, Nat.add_zero] using hcount

variable {x : Move} {out : Outside} {res : Option Result}

/-- A slot that a call knows to be empty is empty. -/
theorem Orderly.vacant_of_call? (hw : w.Orderly) (hc : w.call? t = some k) (target : Target)
    (h : k.current.grip.vacant = some target) : w.engine.router.cached target = none :=
  hw.vacant t target (by rwa [grip_of_call? hc])

/-- Who says that a connection is given up has promised it, and who promises it has taken the
connection out. -/
theorem Orderly.pledged_le (hw : w.Orderly) (hc : w.call? t = some k)
    (hs : k.step t out.answer w.engine.router = some s)
    (hx : x = ⟨w, t, out, w.afterCall t s, res⟩) :
    (if s.next.view (fun k => k.current.pledged?) none = some c then 1 else 0) +
        (if x.GivesUp c then 1 else 0) ≤
      (if k.current.pledged? = some c then 1 else 0) + (if x.Removes c then 1 else 0) := by
  obtain ⟨s', hs', hrouter, -, hgo⟩ := Call.step_current hs (hw.refers t k hc) hw.coherent
  have hview := hgo.view_eq fun _ h => Call.Starts.pledged? h
  by_cases hgives : x.GivesUp c
  · obtain ⟨hhandle, hresult⟩ := hgives
    have hcall : x.call? = some k.current := by simp [hx, Move.call?, hc]
    have hdone : s'.next.result? = some (.givenUp true) := by
      rw [Move.result?, hcall, hx] at hresult
      simpa [hs'] using hresult
    cases hn : s'.next with
    | stage => simp [hn, Next.result?] at hdone
    | done y =>
      obtain rfl : y = .givenUp true := by simpa [hn, Next.result?] using hdone
      have hpledged := Call.pledged?_of_done hs' k.isElementary_current hn
      rw [hcall] at hhandle
      rw [hview, hn, if_pos (hpledged.trans hhandle)]
      simp only [Next.view, reduceCtorEq, if_false]
      split <;> omega
  · rw [if_neg hgives, hview]
    split
    · rename_i hafter
      cases hn : s'.next with
      | done => simp [hn, Next.view] at hafter
      | stage k' =>
        have hstep := Call.step_pledged? hs' k.isElementary_current (hw.refers t k hc) hw.coherent
          (hw.vacant_of_call? hc)
        rw [hn] at hstep hafter
        rcases hstep c hafter with hbefore | hremoved
        · rw [if_pos hbefore]
          omega
        · have hremoves : x.Removes c := by
            rw [hrouter] at hremoved
            rw [hx]
            exact hremoved
          rw [if_pos hremoves]
          omega
    · omega

/-- **A step keeps the ledger balanced.** -/
theorem Balanced.step (hw : w.Orderly) (h : w.Balanced xs c) (hc : w.call? t = some k)
    (hs : k.step t out.answer w.engine.router = some s)
    (hx : x = ⟨w, t, out, w.afterCall t s, res⟩) : (w.afterCall t s).Balanced (xs ++ [x]) c := by
  have hgrip := hw.gripStep_of_step hc hs
  have hholds := hgrip.holds_balance (c := c) hw.coherent (hw.vacant t)
  have htaken := hgrip.taken_balance (c := c) hw.coherent (hw.vacant t)
  have howing := owing_afterCall (c := c) (s := s) hc
  have hpledged := pledged_afterCall (c := c) (s := s) hc
  have hle := hw.pledged_le (c := c) hc hs hx
  have hclosed : x.closed? = k.closes? := by
    rw [Move.closed?, hx, hw.request?_eq, hc, Option.bind_some, Call.request?_current, Call.closes?]
  have hremoves : x.Removes c ↔ w.engine.router.Holds c ∧ ¬ s.router.Holds c := by
    rw [hx]
    rfl
  obtain ⟨hc₁, hc₂, hc₃⟩ := h
  have hengine : (w.afterCall t s).engine.router = s.router := rfl
  constructor
  · rw [List.countP_append, List.countP_singleton, hengine]
    simp only [hclosed, decide_eq_true_eq]
    omega
  · rw [List.countP_append, List.countP_singleton, hengine]
    simp only [hremoves, decide_eq_true_eq]
    omega
  · rw [List.countP_append, List.countP_append, List.countP_singleton, List.countP_singleton]
    simp only [decide_eq_true_eq]
    omega

/-- The ledger is balanced before any call. -/
theorem balanced_quiet {e : Engine} (hslots : e.router.slots = .const {})
    (hconnections : e.router.connections = []) : (World.mk e []).Balanced [] c := by
  have hholds : ¬ e.router.Holds c := by
    rintro ⟨target, h⟩
    simp [Router.cached, hslots] at h
  constructor <;> simp [owing, pledged, count, hholds, hconnections]

/-- A call that begins owes nothing and promises nothing. -/
theorem Balanced.spawn (h : w.Balanced xs c) (hk : k.Begins w.engine.router) :
    (w.spawn [.call k]).Balanced xs c := by
  have howing : (w.spawn [.call k]).owing c = w.owing c :=
    count_spawn _ (by simp [hk.starts.grip])
  have hpledged : (w.spawn [.call k]).pledged c = w.pledged c :=
    count_spawn _ (by simp [hk.starts.pledged?])
  exact ⟨howing ▸ h.closed, h.removed, hpledged ▸ h.pledged⟩

end World

/-- **The ledger is balanced all through the traffic.** -/
theorem Traffic.balanced {made : Call → Prop} {xs : List Move} {w : World}
    (h : Traffic made xs w) (c : ConnectionId) : w.Balanced xs c := by
  induction h with
  | quiet hslots hconnections => exact World.balanced_quiet hslots hconnections
  | call _ _ hk h => exact h.spawn hk
  | configure _ _ h => exact ⟨h.closed, h.removed, h.pledged⟩
  | move h hstep ih =>
    obtain ⟨k, s, hc, hs, rfl, -⟩ := h.orderly.step hstep
    exact ih.step h.orderly hc hs rfl

/-- The step of a call that gives a connection up leaves a slot alone that holds another one. -/
theorem World.Orderly.slot_of_step {x : Move} {c d : ConnectionId} {target : Target}
    (hw : x.before.Orderly)
    (hstep : x.before.step x.outside x.task = some (x.after, x.result))
    (hh : x.call?.bind Call.handle? = some c)
    (ht : x.before.engine.router.target? c = some target)
    (hd : x.before.engine.router.cached target = some d) (hne : d ≠ c) :
    x.after.engine.router.cached target = some d ∧
      x.after.engine.router.phase target = x.before.engine.router.phase target := by
  obtain ⟨k, s, hk, hs, hafter, -⟩ := hw.step hstep
  obtain ⟨s', hs', hrouter, -⟩ := Call.step_current hs (hw.refers _ k hk) hw.coherent
  have hh' : k.current.handle? = some c := by simpa [Move.call?, hk] using hh
  have hslot := Call.step_slot hs' k.isElementary_current (hw.refers _ k hk)
    (hw.vacant_of_call? hk) hh' ht hd hne
  rw [hafter]
  rwa [hrouter] at hslot

/-! ## Shutting down -/

/-- What is known of a slot while it is emptied, if nobody else uses it. -/
def Close.Empties (r : Router) (target : Target) : Close → Prop
  | start u | queued u => u = target
  | removed u _ | released u _ => u = target ∧ r.cached target = none
  | hidden _ | closing _ => r.cached target = none

/-- What is known of the slots while they are emptied, if nobody else uses them. -/
def Shutdown.Empties (r : Router) : Shutdown → Prop
  | first k => k.Empties r .relational
  | second k => r.cached .relational = none ∧ k.Empties r .fileDatabase

section Empties

variable {t : TaskId} {ans : Option Answer} {r : Router} {target : Target}

theorem Close.step_cached {k : Close} {s : RouterStep Close Unit} (h : k.step t ans r = some s)
    {u : Target} (hu : r.cached u = none) : s.router.cached u = none := by
  cases does_of_step h with
  | ask => exact (Router.still_requestSlot.cached u).trans hu
  | empty => rw [Router.cached_setCached, hu, ite_self]
  | unlock => exact (Router.still_releaseSlot.cached u).trans hu
  | hide | finish => exact ((Router.still_setPhase _).cached u).trans hu
  | retire | close => exact hu

theorem Close.step_empties {k : Close} {s : RouterStep Close Unit} (h : k.step t ans r = some s)
    (hk : k.Empties r target) :
    s.next.All (Empties s.router target) fun _ => s.router.cached target = none := by
  have hstays := Close.step_cached (u := target) h
  cases does_of_step h with
  | ask | close => exact hk
  | empty =>
    obtain rfl := hk
    exact ⟨rfl, by rw [Router.cached_setCached, if_pos rfl]⟩
  | unlock => exact ⟨hk.1, hstays hk.2⟩
  | hide | finish => exact hstays hk.2
  | retire => exact hstays hk

theorem Shutdown.step_empties {k : Shutdown} {s : RouterStep Shutdown Unit}
    (h : k.step t ans r = some s) (hk : k.Empties r) :
    s.next.All (Empties s.router) fun _ => ∀ target, s.router.cached target = none := by
  cases k with
  | first k =>
    obtain ⟨s', hs', rfl⟩ := Option.map_eq_some_iff.1 h
    exact (Close.step_empties hs' hk).within (fun _ h => h) fun _ h => ⟨h, rfl⟩
  | second k =>
    obtain ⟨s', hs', rfl⟩ := Option.map_eq_some_iff.1 h
    have hfirst := Close.step_cached hs' hk.1
    refine (Close.step_empties hs' hk.2).within (fun _ h => ⟨hfirst, h⟩) fun _ h target => ?_
    cases target
    · exact hfirst
    · exact h

end Empties

namespace World

variable {w w' : World} {t : TaskId} {xs ys : List Move} {c : ConnectionId}

/-- No call is in progress; connections may still be closing. -/
def Calm (w : World) : Prop := ∀ t a, w.activity? t = some a → ∃ c, a = .call (.closing c)

/-- A task shuts the router down, or it has done so, and no other call is in progress. -/
structure ShutBy (t : TaskId) (w : World) : Prop where
  others : ∀ u a, u ≠ t → w.activity? u = some a → ∃ c, a = .call (.closing c)
  slots : (∃ k, w.activity? t = some (.call (.shutdown k)) ∧ k.Empties w.engine.router) ∨
    w.activity? t = none ∧ ∀ target, w.engine.router.cached target = none

theorem ShutBy.spawn (hw : w.Calm) :
    ShutBy w.tasks.length (w.spawn [.call (.shutdown .start)]) where
  others u a hu ha := by
    rw [activity?_spawn, if_neg hu] at ha
    exact hw u a ha
  slots := .inl ⟨.start, by rw [activity?_spawn, if_pos rfl], rfl⟩

theorem ShutBy.step {out : Outside} {u : TaskId} {res : Option Result} (hw : w.Orderly)
    (h : ShutBy t w) (hstep : w.step out u = some (w', res)) : ShutBy t w' := by
  obtain ⟨k, s, hc, hs, rfl, -⟩ := hw.step hstep
  have hact := call?_eq_some.1 hc
  have hu := lt_of_activity? hact
  have hafter := fun v => activity?_after { w.engine with router := s.router }
    (s.next.stage?.map .call) (s.closes.toList.map fun c => .call (.closing c)) hu v
  refine ⟨fun v a hv ha => ?_, ?_⟩
  · rw [afterCall, hafter] at ha
    split at ha
    · rename_i hvu
      subst hvu
      obtain ⟨d, hd⟩ := h.others v _ hv hact
      cases hd
      obtain rfl := Call.eq_of_closing hs
      cases ha
    · split at ha
      · exact h.others v a hv ha
      · obtain ⟨d, -, rfl⟩ := List.mem_map.1 (List.mem_of_getElem? ha)
        exact ⟨d, rfl⟩
  · rw [afterCall, hafter]
    by_cases hut : u = t
    · subst hut
      rcases h.slots with ⟨k', hk', hempties⟩ | ⟨hnone, -⟩
      · cases hact.symm.trans hk'
        obtain ⟨s', hs', rfl⟩ := Option.map_eq_some_iff.1 hs
        have hnext := Shutdown.step_empties hs' hempties
        rw [if_pos rfl]
        cases hn : s'.next with
        | stage k =>
          rw [hn] at hnext
          exact .inl ⟨k, by simp [RouterStep.within, Next.within, Next.stage?, hn], hnext⟩
        | done y =>
          rw [hn] at hnext
          exact .inr ⟨by simp [RouterStep.within, Next.within, Next.stage?, hn], hnext⟩
      · cases hact.symm.trans hnone
    · -- the task closes a connection, which does not touch the router
      obtain ⟨d, hd⟩ := h.others u _ hut hact
      cases hd
      obtain rfl := Call.eq_of_closing hs
      rw [if_neg (Ne.symm hut)]
      rcases h.slots with ⟨k', hk', hempties⟩ | hended
      · rw [if_pos (lt_of_activity? hk')]
        exact .inl ⟨k', hk', hempties⟩
      · refine .inr ⟨?_, hended.2⟩
        split
        · exact hended.1
        · rfl

theorem ShutBy.course {made : Call → Prop} (hw : Traffic made xs w) (h : ShutBy t w)
    (hc : Course w ys w') : ShutBy t w' := by
  induction hc with
  | refl => exact h
  | move hc hstep ih => exact ih.step (hw.course hc).orderly hstep

/-- Where no call is in progress, what is owed is what is being closed. -/
theorem Calm.owing_eq (hw : w.Calm) : w.owing c = w.count fun k => k.closes? = some c := by
  refine List.countP_congr fun o ho => ?_
  obtain ⟨t, ht, rfl⟩ := List.getElem_of_mem ho
  cases ha : w.tasks[t] with
  | none => rfl
  | some a =>
    obtain ⟨d, rfl⟩ := hw t a (by rw [activity?, List.getElem?_eq_getElem ht, ha]; rfl)
    rfl

end World

/-- **Every connection is closed exactly once.** A connection that was opened is in its slot, or it
was taken out once and is closed once, or about to be. One call at most is told that it gave the
connection up, and a slot that holds another connection is left alone by it. Once the router has
been shut down, with no other call in progress, every connection has been closed or is closing. -/
theorem Traffic.closed_exactly_once {made : Call → Prop} {xs : List Move} {w : World}
    (h : Traffic made xs w) :
    (∀ c < w.engine.router.connections.length,
      (∃ target, w.engine.router.target? c = some target ∧
          w.engine.router.cached target = some c) ∧ xs.countP (fun x => x.Removes c) = 0 ∧
          w.owing c + xs.countP (fun x => x.closed? = some c) = 0 ∨
        ¬ w.engine.router.Holds c ∧ xs.countP (fun x => x.Removes c) = 1 ∧
          w.owing c + xs.countP (fun x => x.closed? = some c) = 1) ∧
      (∀ c, xs.countP (fun x => x.GivesUp c) ≤ 1) ∧
      (∀ x ∈ xs, ∀ c target d, x.call?.bind Call.handle? = some c →
        x.before.engine.router.target? c = some target →
          x.before.engine.router.cached target = some d → d ≠ c →
            x.after.engine.router.cached target = some d ∧
              x.after.engine.router.phase target = x.before.engine.router.phase target) ∧
      ∀ ys w', w.Calm → Course (w.spawn [.call (.shutdown .start)]) ys w' →
        w'.activity? w.tasks.length = none → ∀ c < w'.engine.router.connections.length,
          ¬ w'.engine.router.Holds c ∧ (w'.count fun k => k.closes? = some c) +
            (xs ++ ys).countP (fun x => x.closed? = some c) = 1 := by
  refine ⟨fun c hc => ?_, fun c => ?_, fun x hx c target d hh ht hd hne => ?_,
    fun ys w' hcalm hcourse hended c hc => ?_⟩
  · obtain ⟨hclosed, hremoved, -⟩ := h.balanced c
    rw [if_pos hc] at hclosed hremoved
    by_cases hholds : w.engine.router.Holds c
    · rw [if_pos hholds] at hclosed hremoved
      obtain ⟨target, hcached⟩ := hholds
      have hc := h.orderly.coherent target c hcached
      exact .inl ⟨⟨target, hc, hcached⟩, by omega, by omega⟩
    · rw [if_neg hholds] at hclosed hremoved
      exact .inr ⟨hholds, by omega, by omega⟩
  · obtain ⟨-, hremoved, hpledged⟩ := h.balanced c
    have hopened : (if c < w.engine.router.connections.length then 1 else 0) ≤ 1 := by
      split <;> omega
    omega
  · obtain ⟨zs, hzs, hstep⟩ := h.of_mem hx
    exact hzs.orderly.slot_of_step hstep (x := x) hh ht hd hne
  · have hopening : Traffic (fun _ => True) xs (w.spawn [.call (.shutdown .start)]) :=
      (h.mono fun _ _ => trivial).call trivial .shutdown
    have hshut := World.ShutBy.course hopening (.spawn hcalm) hcourse
    obtain ⟨-, hempty⟩ := hshut.slots.resolve_left fun ⟨k, hk, _⟩ => by
      rw [hended] at hk
      cases hk
    have hholds : ¬ w'.engine.router.Holds c := fun ⟨target, hcached⟩ => by
      rw [hempty target] at hcached
      cases hcached
    have hrest : w'.Calm := fun u a ha => by
      refine hshut.others u a ?_ ha
      rintro rfl
      rw [hended] at ha
      cases ha
    have hclosed := ((hopening.course hcourse).balanced c).closed
    rw [if_neg hholds, if_pos hc, hrest.owing_eq, Nat.zero_add] at hclosed
    exact ⟨hholds, hclosed⟩

/-- Two tasks give up the same connection; another one is opened, and given up by a third task that
still means the first one. -/
def Cue.race : List Cue :=
  opening ++ ([.invalidate 0, .discard 0, .move 1 none, .move 2 none, .move 1 none, .move 1 none,
    .move 1 none, .move 1 none, .move 2 none, .move 2 none, .move 1 (some .closed),
    .acquire .relational, .move 3 none, .move 3 none, .move 3 none, .move 3 (some .connected),
    .move 3 none, .move 3 none, .discard 0, .move 4 none, .move 4 none, .move 4 none] : List Cue)

/-- The steps of shutting the router down, up to the last. -/
def Cue.shutting : List Cue :=
  List.replicate 5 (Cue.move 5 none) ++
    Cue.move 5 (some .closed) :: List.replicate 4 (Cue.move 5 none)

set_option maxRecDepth 20000 in
theorem Traffic.closed_exactly_once_race :
    let p := Router.relationalOnly.enact Cue.race
    let q := Cue.shutting.foldl (Cue.follow World.move) ([], p.2.spawn [.call (.shutdown .start)])
    (¬ p.2.engine.router.Holds 0 ∧ p.1.countP (fun x => x.Removes 0) = 1 ∧
        p.2.owing 0 + p.1.countP (fun x => x.closed? = some 0) = 1) ∧
      p.1.countP (fun x => x.GivesUp 0) = 1 ∧
      q.2.engine.router.connections.length = 2 ∧
      ∀ c < 2, ¬ q.2.engine.router.Holds c ∧ (q.2.count fun k => k.closes? = some c) +
        (p.1 ++ q.1).countP (fun x => x.closed? = some c) = 1 := by
  intro p q
  have htraffic : Traffic (fun _ => True) p.1 p.2 := .enact rfl rfl fun _ _ _ _ _ => trivial
  obtain ⟨hledger, hgives, -, hshut⟩ := htraffic.closed_exactly_once
  have hcalm : p.2.Calm := by
    have hended : ∀ o ∈ p.2.tasks, o = none := by decide
    intro t a ha
    rw [World.activity?, Option.join_eq_some_iff] at ha
    cases hended _ (List.mem_of_getElem? ha)
  have hcourse : Course (p.2.spawn [.call (.shutdown .start)]) q.1 q.2 :=
    .follow (by decide)
  have hlength : q.2.engine.router.connections.length = 2 := by decide
  have hout : ¬ p.2.engine.router.Holds 0 := by decide
  refine ⟨?_, ?_, hlength, fun c hc => ?_⟩
  · exact (hledger 0 (by decide)).resolve_left fun h => hout (h.1.imp fun _ h => h.2)
  · exact Nat.le_antisymm (hgives 0) (by decide)
  · exact hshut q.1 q.2 hcalm hcourse (by decide) c (hlength ▸ hc)

end MetricBoard
