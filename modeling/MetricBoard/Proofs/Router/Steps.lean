import MetricBoard.Router.Call

/-!
# What the steps of the router's calls do

Each call is a machine of its own, and what one of its steps can do is said here once: `Does` lists
the steps with the conditions under which they are taken and what they come to, and `does_of_step`
says that there are no others. What is kept by every step is then shown for each of these.
-/

namespace MetricBoard

/-! ## Getting a connection -/

namespace Acquire

/-- What a task that gets a connection does with a step. -/
inductive Does (t : TaskId) (ans : Option Answer) (r : Router) :
    Acquire → RouterStep Acquire (Except AcquireError ConnectionId) → Prop
  | ask {target : Target} {p : ConnectionParameters} : r.parameters? target = some p →
    Does t ans r (.start target) ⟨r.requestSlot target t, .stage (.queued target p), none⟩
  | unconfigured {target : Target} : r.parameters? target = none →
    Does t ans r (.start target) ⟨r, .done (.error (.configurationMissing target)), none⟩
  /-- The cached connection has been retired, and is left to be closed. -/
  | drop {target : Target} {p : ConnectionParameters} {c : ConnectionId} :
    r.holdsSlot target t = true → r.cached target = some c → r.isRetired c = true →
    Does t ans r (.queued target p) ⟨r.setCached target none, .stage (.empty target p), some c⟩
  | reuse {target : Target} {p : ConnectionParameters} {c : ConnectionId} :
    r.holdsSlot target t = true → r.cached target = some c → r.isRetired c = false →
    Does t ans r (.queued target p) ⟨r, .stage (.leaving target (.ok c)), none⟩
  | miss {target : Target} {p : ConnectionParameters} :
    r.holdsSlot target t = true → r.cached target = none →
    Does t ans r (.queued target p) ⟨r, .stage (.empty target p), none⟩
  | announce {target : Target} {p : ConnectionParameters} :
    Does t ans r (.empty target p)
      ⟨r.setPhase target .connecting, .stage (.connecting target p), none⟩
  | connect {target : Target} {p : ConnectionParameters} : ans = some .connected →
    Does t ans r (.connecting target p)
      ⟨(r.addConnection target).setCached target (some r.connections.length),
        .stage (.cached target r.connections.length), none⟩
  | refuse {target : Target} {p : ConnectionParameters} {e : DriverError} :
    ans = some (.refused e) →
    Does t ans r (.connecting target p) ⟨r, .stage (.refused target e), none⟩
  | ready {target : Target} {c : ConnectionId} :
    Does t ans r (.cached target c)
      ⟨r.setPhase target .ready, .stage (.leaving target (.ok c)), none⟩
  | giveUp {target : Target} {e : DriverError} :
    Does t ans r (.refused target e)
      ⟨r.setPhase target .absent, .stage (.leaving target (.error (.connectionFailed target e))),
        none⟩
  | leave {target : Target} {x : Except AcquireError ConnectionId} :
    Does t ans r (.leaving target x) ⟨r.releaseSlot target t, .done x, none⟩

theorem does_of_step {t : TaskId} {ans : Option Answer} {r : Router} {a : Acquire}
    {s : RouterStep Acquire (Except AcquireError ConnectionId)} (h : a.step t ans r = some s) :
    Does t ans r a s := by
  cases a with
  | start target =>
    simp only [step] at h
    split at h <;> cases h
    · exact .ask ‹_›
    · exact .unconfigured ‹_›
  | queued target p =>
    simp only [step] at h
    split at h
    · rename_i hheld
      split at h
      · rename_i c hc
        split at h <;> rename_i hret <;> cases h
        · exact .drop hheld hc hret
        · exact .reuse hheld hc (Bool.eq_false_iff.2 hret)
      · rename_i hnone
        cases h
        exact .miss hheld hnone
    · cases h
  | connecting target p =>
    simp only [step] at h
    split at h <;> cases h
    · exact .connect rfl
    · exact .refuse rfl
  | empty target p =>
    cases h
    exact .announce
  | cached target c =>
    cases h
    exact .ready
  | refused target e =>
    cases h
    exact .giveUp
  | leaving target x =>
    cases h
    exact .leave

end Acquire

/-! ## Statements -/

namespace Statement

/-- What a task that runs a statement does with a step. -/
inductive Does (t : TaskId) (ans : Option Answer) (r : Router) :
    Statement → RouterStep Statement StatementResult → Prop
  | ask {c : ConnectionId} {sql : String} {limitMs : Nat} :
    Does t ans r (.start c sql limitMs) ⟨r.requestTurn c t, .stage (.queued c sql limitMs), none⟩
  /-- The connection has been retired in the meantime. -/
  | discard {c : ConnectionId} {sql : String} {limitMs : Nat} :
    r.hasTurn c t = true → r.isRetired c = true →
    Does t ans r (.queued c sql limitMs) ⟨r, .stage (.leaving c .discarded), none⟩
  | run {c : ConnectionId} {sql : String} {limitMs : Nat} :
    r.hasTurn c t = true → r.isRetired c = false →
    Does t ans r (.queued c sql limitMs) ⟨r, .stage (.running c sql limitMs), none⟩
  | rows {c : ConnectionId} {sql : String} {limitMs : Nat} {rows : List Row} :
    ans = some (.rows rows) →
    Does t ans r (.running c sql limitMs) ⟨r, .stage (.leaving c (.answered (.ok rows))), none⟩
  | fail {c : ConnectionId} {sql : String} {limitMs : Nat} {e : DriverError} :
    ans = some (.failed e) →
    Does t ans r (.running c sql limitMs) ⟨r, .stage (.leaving c (.answered (.error e))), none⟩
  | elapse {c : ConnectionId} {sql : String} {limitMs : Nat} : ans = some .elapsed →
    Does t ans r (.running c sql limitMs) ⟨r, .stage (.overdue c), none⟩
  | breakDown {c : ConnectionId} {sql : String} {limitMs : Nat} : ans = some .brokeDown →
    Does t ans r (.running c sql limitMs) ⟨r, .stage (.leaving c .brokeDown), none⟩
  | retire {c : ConnectionId} :
    Does t ans r (.overdue c) ⟨r.retire c, .stage (.leaving c .elapsed), none⟩
  | leave {c : ConnectionId} {x : StatementResult} :
    Does t ans r (.leaving c x) ⟨r.releaseTurn c t, .done x, none⟩

theorem does_of_step {t : TaskId} {ans : Option Answer} {r : Router} {q : Statement}
    {s : RouterStep Statement StatementResult} (h : q.step t ans r = some s) :
    Does t ans r q s := by
  cases q with
  | start c sql limitMs =>
    cases h
    exact .ask
  | queued c sql limitMs =>
    simp only [step] at h
    split at h
    · rename_i hturn
      split at h <;> rename_i hret <;> cases h
      · exact .discard hturn hret
      · exact .run hturn (Bool.eq_false_iff.2 hret)
    · cases h
  | running c sql limitMs =>
    simp only [step] at h
    split at h <;> cases h
    · exact .rows rfl
    · exact .fail rfl
    · exact .elapse rfl
    · exact .breakDown rfl
  | overdue c =>
    cases h
    exact .retire
  | leaving c x =>
    cases h
    exact .leave

end Statement

/-! ## Giving connections up -/

namespace Evict

/-- What a task that takes a connection out of its slot does with a step. -/
inductive Does (t : TaskId) (r : Router) : Evict → RouterStep Evict Bool → Prop
  | ask {target : Target} {c : ConnectionId} :
    Does t r (.start target c) ⟨r.requestSlot target t, .stage (.queued target c), none⟩
  | remove {target : Target} {c : ConnectionId} :
    r.holdsSlot target t = true → r.cached target = some c →
    Does t r (.queued target c) ⟨r.setCached target none, .stage (.removed target c), none⟩
  /-- The slot holds another connection, or none. -/
  | spare {target : Target} {c : ConnectionId} :
    r.holdsSlot target t = true → r.cached target ≠ some c →
    Does t r (.queued target c) ⟨r, .stage (.leaving target false), none⟩
  | hide {target : Target} {c : ConnectionId} :
    Does t r (.removed target c) ⟨r.setPhase target .absent, .stage (.hidden target c), none⟩
  | retire {target : Target} {c : ConnectionId} :
    Does t r (.hidden target c) ⟨r.retire c, .stage (.leaving target true), none⟩
  | leave {target : Target} {wasCached : Bool} :
    Does t r (.leaving target wasCached) ⟨r.releaseSlot target t, .done wasCached, none⟩

theorem does_of_step {t : TaskId} {r : Router} {v : Evict} {s : RouterStep Evict Bool}
    (h : v.step t r = some s) : Does t r v s := by
  cases v with
  | start target c =>
    cases h
    exact .ask
  | queued target c =>
    simp only [step] at h
    split at h
    · split at h <;> cases h
      · exact .remove ‹_› ‹_›
      · exact .spare ‹_› ‹_›
    · cases h
  | removed target c =>
    cases h
    exact .hide
  | hidden target c =>
    cases h
    exact .retire
  | leaving target wasCached =>
    cases h
    exact .leave

end Evict

namespace Close

/-- What a task that empties a slot does with a step. -/
inductive Does (t : TaskId) (ans : Option Answer) (r : Router) :
    Close → RouterStep Close Unit → Prop
  | ask {target : Target} :
    Does t ans r (.start target) ⟨r.requestSlot target t, .stage (.queued target), none⟩
  | empty {target : Target} : r.holdsSlot target t = true →
    Does t ans r (.queued target)
      ⟨r.setCached target none, .stage (.removed target (r.cached target)), none⟩
  | unlock {target : Target} {c : Option ConnectionId} :
    Does t ans r (.removed target c) ⟨r.releaseSlot target t, .stage (.released target c), none⟩
  | hide {target : Target} {c : ConnectionId} :
    Does t ans r (.released target (some c))
      ⟨r.setPhase target .absent, .stage (.hidden c), none⟩
  /-- There was no connection to close. -/
  | finish {target : Target} :
    Does t ans r (.released target none) ⟨r.setPhase target .absent, .done (), none⟩
  | retire {c : ConnectionId} :
    Does t ans r (.hidden c) ⟨r.retire c, .stage (.closing c), none⟩
  | close {c : ConnectionId} : ans = some .closed →
    Does t ans r (.closing c) ⟨r, .done (), none⟩

theorem does_of_step {t : TaskId} {ans : Option Answer} {r : Router} {k : Close}
    {s : RouterStep Close Unit} (h : k.step t ans r = some s) : Does t ans r k s := by
  cases k with
  | start target =>
    cases h
    exact .ask
  | queued target =>
    simp only [step] at h
    split at h <;> cases h
    exact .empty ‹_›
  | removed target c =>
    cases h
    exact .unlock
  | released target c =>
    cases h
    cases c with
    | none => exact .finish
    | some c => exact .hide
  | hidden c =>
    cases h
    exact .retire
  | closing c =>
    simp only [step] at h
    split at h <;> cases h
    exact .close ‹_›

end Close

/-! ## Waiting for a close

A task that waits for the close of a connection does nothing but end, once it is closed. -/

theorem Invalidate.eq_of_closing {t : TaskId} {ans : Option Answer} {r : Router} {c : ConnectionId}
    {s : RouterStep Invalidate Bool} (h : (Invalidate.closing c).step t ans r = some s) :
    s = ⟨r, .done true, none⟩ := by
  simp only [step] at h
  split at h <;> cases h
  rfl

theorem Call.eq_of_closing {t : TaskId} {ans : Option Answer} {r : Router} {c : ConnectionId}
    {s : RouterStep Call CallResult} (h : (Call.closing c).step t ans r = some s) :
    s = ⟨r, .done .finished, none⟩ := by
  simp only [step] at h
  split at h <;> cases h
  rfl

end MetricBoard
