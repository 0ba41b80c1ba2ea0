import MetricBoard.Proofs.Concurrency.Semaphore
import MetricBoard.Proofs.Router.Steps

/-!
# The locks of the router

A task stands before each lock in one of three ways: it is away, it has asked for the lock and may
or may not have it by now, or it is inside (`Standing`). What a step of the task does to the
semaphore behind the lock goes with the change of its standing, and there are only a few such
changes (`LockStep`). Each call is shown once to make no others; what follows for locks, whoever
holds them, is then said of `LockStep` alone.

The permits of a batch are locks as well; the router does not touch them.
-/

namespace MetricBoard

/-- What a task may have to wait for. -/
inductive Lock where
  /-- The permits of a batch for a server. -/
  | permit (target : Target)
  /-- The permits of a batch over all servers. -/
  | overall
  /-- The lock of a slot. -/
  | slot (target : Target)
  /-- The turns on a connection. -/
  | turn (c : ConnectionId)
  deriving DecidableEq, Repr

/-- How a task stands before a lock. -/
inductive Standing where
  | away
  /-- It has asked for the lock and not looked whether it has it. -/
  | queued
  /-- It has the lock. -/
  | inside
  deriving DecidableEq, Repr

namespace Standing

/-- Standing before one lock and away from the others. -/
def at_ (a : Standing) (l₀ l : Lock) : Standing := if l = l₀ then a else away

@[simp] theorem at_self (a : Standing) (l : Lock) : a.at_ l l = a := if_pos rfl

theorem at_of_ne (a : Standing) {l l₀ : Lock} (h : l ≠ l₀) : a.at_ l₀ l = away := if_neg h

theorem eq_of_at_ne {a : Standing} {l l₀ : Lock} (h : a.at_ l₀ l ≠ away) : l = l₀ :=
  Decidable.byContradiction fun hl => h (a.at_of_ne hl)

end Standing

/-- What a step of task `t` does to the semaphore behind the lock `l`, from how the task stands
before it to how it stands after it, where there are `n` connections. A lock may be missing: there
are connections without turns. -/
inductive LockStep (t : TaskId) (n : Nat) (l : Lock) :
    Standing → Standing → Option Semaphore → Option Semaphore → Prop
  | stay (a : Standing) (o : Option Semaphore) : LockStep t n l a a o o
  | ask (s : Semaphore) : LockStep t n l .away .queued (some s) (some (s.request t))
  | enter (s : Semaphore) : t ∈ s.holders → LockStep t n l .queued .inside (some s) (some s)
  | leave (s : Semaphore) : LockStep t n l .inside .away (some s) (some (s.release t))
  /-- It does not wait for the lock any longer. -/
  | withdraw (s : Semaphore) : LockStep t n l .queued .away (some s) (some (s.withdraw t))
  | missing (a b : Standing) : LockStep t n l a b none none
  /-- A connection is opened. -/
  | opened : l = .turn n → LockStep t n l .away .away none (some .lock)

/-- The semaphore behind a lock has as its users the tasks that do not stand away from it, and has
given a permit to all that are inside. -/
def LockOk (limit : Nat) (standing : TaskId → Standing) (o : Option Semaphore) : Prop :=
  ∀ s, o = some s → s.Tracks (standing · ≠ .away) ∧
    (∀ t, standing t = .inside → t ∈ s.holders) ∧ s.limit = limit

/-- A lock that everybody stands away from is right as it was made. -/
theorem LockOk.of_away {limit : Nat} {f : TaskId → Standing} {o : Option Semaphore}
    (hf : ∀ t, f t = .away) (ho : ∀ s, o = some s → s = { limit := limit }) :
    LockOk limit f o := by
  intro s hs
  obtain rfl := ho s hs
  refine ⟨(Semaphore.Tracks.idle limit).congr fun t => ?_, fun t ht => ?_, rfl⟩
  · simp [hf t]
  · rw [hf t] at ht
    cases ht

/-- A lock is right after a step of task `t` if its semaphore tracks the task as it stands by then,
and each other task as it stood before. -/
theorem LockOk.of_step {t : TaskId} {limit : Nat} {f g : TaskId → Standing} {s : Semaphore}
    {users : TaskId → Prop} (hu : ∀ u, u ≠ t → g u = f u) (htracks : s.Tracks users)
    (hlimit : s.limit = limit) (ht : users t ↔ g t ≠ .away) (hin : g t = .inside → t ∈ s.holders)
    (hothers : ∀ u, u ≠ t → (users u ↔ f u ≠ .away) ∧ (f u = .inside → u ∈ s.holders)) :
    LockOk limit g (some s) := by
  intro _ hs
  cases hs
  refine ⟨htracks.congr fun u => ?_, fun u hinside => ?_, hlimit⟩
  · by_cases hut : u = t
    · exact hut ▸ ht
    · exact hu u hut ▸ (hothers u hut).1
  · by_cases hut : u = t
    · exact hut ▸ hin (hut ▸ hinside)
    · exact (hothers u hut).2 (hu u hut ▸ hinside)

/-- A step of one task keeps a lock right. -/
theorem LockStep.lockOk {t : TaskId} {n limit : Nat} {l : Lock} {f g : TaskId → Standing}
    {o o' : Option Semaphore} (h : LockStep t n l (f t) (g t) o o') (hu : ∀ u, u ≠ t → g u = f u)
    (hn : l = .turn n → limit = 1 ∧ ∀ u, f u = .away) (hok : LockOk limit f o) :
    LockOk limit g o' := by
  generalize ha : f t = a at h
  generalize hb : g t = b at h
  cases h with
  | stay a o =>
    have hgf : g = f := by
      funext u
      by_cases hut : u = t
      · rw [hut, ha, hb]
      · exact hu u hut
    rw [hgf]
    exact hok
  | ask s =>
    obtain ⟨htracks, hinside, hlimit⟩ := hok s rfl
    refine .of_step hu (htracks.request (by simp [ha])) (Semaphore.limit_request.trans hlimit)
      (by simp [hb]) (by simp [hb]) fun u hut => ⟨by simp [hut], fun hin => ?_⟩
    exact Semaphore.mem_holders_request (hinside u hin)
  | enter s ht =>
    obtain ⟨htracks, hinside, hlimit⟩ := hok s rfl
    exact .of_step hu htracks hlimit (by simp [ha, hb]) (fun _ => ht) fun u _ =>
      ⟨Iff.rfl, hinside u⟩
  | leave s =>
    obtain ⟨htracks, hinside, hlimit⟩ := hok s rfl
    refine .of_step hu (htracks.release (hinside t ha)) (Semaphore.limit_release.trans hlimit)
      (by simp [hb]) (by simp [hb]) fun u hut => ⟨by simp [hut], fun hin => ?_⟩
    exact Semaphore.mem_holders_release (hinside u hin) hut
  | withdraw s =>
    obtain ⟨htracks, hinside, hlimit⟩ := hok s rfl
    refine .of_step hu htracks.withdraw (Semaphore.limit_withdraw.trans hlimit)
      (by simp [hb]) (by simp [hb]) fun u hut => ⟨by simp [hut], fun hin => ?_⟩
    exact Semaphore.mem_holders_withdraw (hinside u hin) hut
  | missing a b => simp [LockOk]
  | opened hl =>
    obtain ⟨rfl, haway⟩ := hn hl
    have hg : ∀ u, g u = .away := by
      intro u
      by_cases hut : u = t
      · rw [hut, hb]
      · rw [hu u hut, haway u]
    intro _ hs
    cases hs
    refine ⟨(Semaphore.Tracks.idle 1).congr fun u => by simp [hg u], fun u hin => ?_, rfl⟩
    rw [hg u] at hin
    cases hin

/-- A lock that is there stays there. -/
theorem LockStep.isSome {t : TaskId} {n : Nat} {l : Lock} {a b : Standing} {o o' : Option Semaphore}
    (h : LockStep t n l a b o o') (ho : o.isSome = true) : o'.isSome = true := by
  cases h with
  | stay => exact ho
  | ask | enter | leave | withdraw => rfl
  | missing | opened => cases ho

namespace Next

variable {σ τ ρ ρ' : Type}

/-- How a task stands after a step. -/
def standing (f : σ → Lock → Standing) (l : Lock) : Next σ ρ → Standing
  | stage s => f s l
  | done _ => .away

/-- A call within a call stands as the inner one does, if what it leads on to stands nowhere. -/
theorem lockStep_within {f : σ → Lock → Standing} {g : τ → Lock → Standing} {inner : σ → τ}
    {after : ρ → Next τ ρ'} {l : Lock} {t k : Nat} {a : Standing} {o o' : Option Semaphore}
    {n : Next σ ρ} (hi : ∀ s, g (inner s) l = f s l) (ha : ∀ r, (after r).standing g l = .away)
    (h : LockStep t k l a (n.standing f l) o o') :
    LockStep t k l a ((n.within inner after).standing g l) o o' := by
  cases n with
  | stage s =>
    rw [within, standing, hi s]
    exact h
  | done r =>
    rw [within, ha r]
    exact h

end Next

namespace Router

variable {r : Router} {target : Target} {t : TaskId} {c : ConnectionId} {l : Lock}

/-- The semaphore behind a lock of the router. -/
def semaphore? (r : Router) : Lock → Option Semaphore
  | .permit _ | .overall => none
  | .slot target => some (r.slots.get target).lock
  | .turn c => r.connections[c]?.bind Connection.turn

/-! ## Slots -/

theorem semaphore?_onSlot (f : Slot → Slot) :
    (r.onSlot target f).semaphore? l =
      if l = .slot target then some (f (r.slots.get target)).lock else r.semaphore? l := by
  cases l with
  | slot u =>
    by_cases h : u = target
    · subst h
      simp [semaphore?, onSlot]
    · simp [semaphore?, onSlot, PerTarget.get_modify_of_ne _ _ h, h]
  | permit u => rfl
  | overall => rfl
  | turn c => rfl

theorem semaphore?_onSlot_of_lock {f : Slot → Slot} (hf : ∀ s, (f s).lock = s.lock) :
    (r.onSlot target f).semaphore? l = r.semaphore? l := by
  rw [semaphore?_onSlot, hf]
  split
  · rename_i h
    subst h
    rfl
  · rfl

theorem semaphore?_setCached (c : Option ConnectionId) :
    (r.setCached target c).semaphore? l = r.semaphore? l :=
  semaphore?_onSlot_of_lock (f := fun s => { s with cached := c }) fun _ => rfl

theorem semaphore?_setPhase (phase : Phase) :
    (r.setPhase target phase).semaphore? l = r.semaphore? l :=
  semaphore?_onSlot_of_lock (f := fun s => { s with phase := phase }) fun _ => rfl

theorem lockStep_requestSlot :
    LockStep t r.connections.length l .away (Standing.queued.at_ (.slot target) l) (r.semaphore? l)
      ((r.requestSlot target t).semaphore? l) := by
  rw [requestSlot, semaphore?_onSlot]
  split
  · rename_i h
    subst h
    rw [Standing.at_self]
    exact .ask _
  · rw [Standing.at_of_ne _ ‹_›]
    exact .stay _ _

theorem lockStep_enterSlot (h : r.holdsSlot target t = true) :
    LockStep t r.connections.length l (Standing.queued.at_ (.slot target) l)
      (Standing.inside.at_ (.slot target) l) (r.semaphore? l) (r.semaphore? l) := by
  by_cases hl : l = .slot target
  · subst hl
    rw [Standing.at_self, Standing.at_self]
    exact .enter _ (Semaphore.isHeldBy_iff.1 h)
  · rw [Standing.at_of_ne _ hl, Standing.at_of_ne _ hl]
    exact .stay _ _

theorem lockStep_releaseSlot :
    LockStep t r.connections.length l (Standing.inside.at_ (.slot target) l) .away (r.semaphore? l)
      ((r.releaseSlot target t).semaphore? l) := by
  rw [releaseSlot, semaphore?_onSlot]
  split
  · rename_i h
    subst h
    rw [Standing.at_self]
    exact .leave _
  · rw [Standing.at_of_ne _ ‹_›]
    exact .stay _ _

/-! ## Connections -/

theorem semaphore?_onConnection (f : Connection → Connection) :
    (r.onConnection c f).semaphore? l =
      if l = .turn c then r.connections[c]?.bind fun k => (f k).turn else r.semaphore? l := by
  cases l with
  | turn d =>
    by_cases h : c = d
    · subst h
      simp [semaphore?, onConnection, Option.bind_map, Function.comp_def]
    · simp [semaphore?, onConnection, h, Ne.symm h]
  | permit u => rfl
  | overall => rfl
  | slot u => rfl

theorem semaphore?_retire : (r.retire c).semaphore? l = r.semaphore? l := by
  rw [retire, semaphore?_onConnection]
  split
  · rename_i h
    subst h
    rfl
  · rfl

theorem lockStep_requestTurn :
    LockStep t r.connections.length l .away (Standing.queued.at_ (.turn c) l) (r.semaphore? l)
      ((r.requestTurn c t).semaphore? l) := by
  rw [requestTurn, semaphore?_onConnection]
  split
  · rename_i h
    subst h
    rw [Standing.at_self, semaphore?]
    cases r.connections[c]? with
    | none => exact .missing _ _
    | some k =>
      simp only [Option.bind_some]
      cases k.turn with
      | none => exact .missing _ _
      | some s => exact .ask s
  · rw [Standing.at_of_ne _ ‹_›]
    exact .stay _ _

theorem lockStep_enterTurn (h : r.hasTurn c t = true) :
    LockStep t r.connections.length l (Standing.queued.at_ (.turn c) l)
      (Standing.inside.at_ (.turn c) l) (r.semaphore? l) (r.semaphore? l) := by
  by_cases hl : l = .turn c
  · subst hl
    rw [Standing.at_self, Standing.at_self, semaphore?]
    rw [hasTurn] at h
    cases hk : r.connections[c]? with
    | none => exact .missing _ _
    | some k =>
      simp only [hk] at h
      simp only [Option.bind_some]
      cases hs : k.turn with
      | none => exact .missing _ _
      | some s =>
        simp only [hs] at h
        exact .enter s (Semaphore.isHeldBy_iff.1 h)
  · rw [Standing.at_of_ne _ hl, Standing.at_of_ne _ hl]
    exact .stay _ _

theorem lockStep_releaseTurn :
    LockStep t r.connections.length l (Standing.inside.at_ (.turn c) l) .away (r.semaphore? l)
      ((r.releaseTurn c t).semaphore? l) := by
  rw [releaseTurn, semaphore?_onConnection]
  split
  · rename_i h
    subst h
    rw [Standing.at_self, semaphore?]
    cases r.connections[c]? with
    | none => exact .missing _ _
    | some k =>
      simp only [Option.bind_some]
      cases k.turn with
      | none => exact .missing _ _
      | some s => exact .leave s
  · rw [Standing.at_of_ne _ ‹_›]
    exact .stay _ _

/-- Opening a connection changes no lock there was. -/
theorem lockStep_addConnection (ht : ∀ c, l = .turn c → a = .away) :
    LockStep t r.connections.length l a a (r.semaphore? l)
      ((r.addConnection target).semaphore? l) := by
  cases l with
  | turn c =>
    obtain rfl := ht c rfl
    simp only [semaphore?, addConnection]
    rcases Nat.lt_trichotomy c r.connections.length with hc | rfl | hc
    · rw [List.getElem?_append_left hc]
      exact .stay _ _
    · rw [List.getElem?_eq_none (Nat.le_refl _), List.getElem?_concat_length]
      simp only [Option.bind_none, Option.bind_some]
      split
      · exact .opened rfl
      · exact .missing _ _
    · have hlen : (r.addConnection target).connections.length ≤ c := by
        rw [addConnection, List.length_append]
        exact hc
      rw [List.getElem?_eq_none (Nat.le_of_lt hc)]
      rw [addConnection] at hlen
      rw [List.getElem?_eq_none hlen]
      exact .missing _ _
  | permit u => exact .stay _ _
  | overall => exact .stay _ _
  | slot u => exact .stay _ _

end Router

/-! ## Calls -/

namespace Acquire

/-- How a task stands at a stage. -/
def standing : Acquire → Lock → Standing
  | start _ => fun _ => .away
  | queued target _ => Standing.queued.at_ (.slot target)
  | empty target _ | connecting target _ | cached target _ | refused target _ | leaving target _ =>
    Standing.inside.at_ (.slot target)

theorem step_locks {t : TaskId} {ans : Option Answer} {r : Router} {a : Acquire}
    {s : RouterStep Acquire (Except AcquireError ConnectionId)} (l : Lock)
    (h : a.step t ans r = some s) :
    LockStep t r.connections.length l (a.standing l) (s.next.standing standing l) (r.semaphore? l)
      (s.router.semaphore? l) := by
  cases does_of_step h with
  | ask => exact Router.lockStep_requestSlot
  | drop hheld =>
    rw [Router.semaphore?_setCached]
    exact Router.lockStep_enterSlot hheld
  | reuse hheld | miss hheld => exact Router.lockStep_enterSlot hheld
  | announce | ready | giveUp =>
    rw [Router.semaphore?_setPhase]
    exact .stay _ _
  | connect =>
    rw [Router.semaphore?_setCached]
    refine Router.lockStep_addConnection fun c hc => ?_
    exact Standing.at_of_ne _ (by simp [hc])
  | unconfigured | refuse => exact .stay _ _
  | leave => exact Router.lockStep_releaseSlot

end Acquire

namespace Statement

/-- How a task stands at a stage. -/
def standing : Statement → Lock → Standing
  | start _ _ _ => fun _ => .away
  | queued c _ _ => Standing.queued.at_ (.turn c)
  | running c _ _ | overdue c | leaving c _ => Standing.inside.at_ (.turn c)

theorem step_locks {t : TaskId} {ans : Option Answer} {r : Router} {q : Statement}
    {s : RouterStep Statement StatementResult} (l : Lock) (h : q.step t ans r = some s) :
    LockStep t r.connections.length l (q.standing l) (s.next.standing standing l) (r.semaphore? l)
      (s.router.semaphore? l) := by
  cases does_of_step h with
  | ask => exact Router.lockStep_requestTurn
  | discard hturn | run hturn => exact Router.lockStep_enterTurn hturn
  | rows | fail | elapse | breakDown => exact .stay _ _
  | retire =>
    rw [Router.semaphore?_retire]
    exact .stay _ _
  | leave => exact Router.lockStep_releaseTurn

end Statement

namespace Evict

/-- How a task stands at a stage. -/
def standing : Evict → Lock → Standing
  | start _ _ => fun _ => .away
  | queued target _ => Standing.queued.at_ (.slot target)
  | removed target _ | hidden target _ | leaving target _ => Standing.inside.at_ (.slot target)

theorem step_locks {t : TaskId} {r : Router} {e : Evict} {s : RouterStep Evict Bool} (l : Lock)
    (h : e.step t r = some s) :
    LockStep t r.connections.length l (e.standing l) (s.next.standing standing l) (r.semaphore? l)
      (s.router.semaphore? l) := by
  cases does_of_step h with
  | ask => exact Router.lockStep_requestSlot
  | remove hheld =>
    rw [Router.semaphore?_setCached]
    exact Router.lockStep_enterSlot hheld
  | spare hheld => exact Router.lockStep_enterSlot hheld
  | hide =>
    rw [Router.semaphore?_setPhase]
    exact .stay _ _
  | retire =>
    rw [Router.semaphore?_retire]
    exact .stay _ _
  | leave => exact Router.lockStep_releaseSlot

end Evict

namespace Invalidate

/-- How a task stands at a stage. -/
def standing : Invalidate → Lock → Standing
  | evicting _ e => e.standing
  | closing _ => fun _ => .away

theorem step_locks {t : TaskId} {ans : Option Answer} {r : Router} {i : Invalidate}
    {s : RouterStep Invalidate Bool} (l : Lock) (h : i.step t ans r = some s) :
    LockStep t r.connections.length l (i.standing l) (s.next.standing standing l) (r.semaphore? l)
      (s.router.semaphore? l) := by
  cases i with
  | evicting c e =>
    obtain ⟨s', hs', rfl⟩ := Option.map_eq_some_iff.1 h
    refine Next.lockStep_within (fun _ => rfl) (fun wasCached => ?_) (Evict.step_locks l hs')
    cases wasCached <;> rfl
  | closing c =>
    obtain rfl := eq_of_closing h
    exact .stay _ _

end Invalidate

namespace Discard

/-- How a task stands at a stage. -/
def standing (d : Discard) : Lock → Standing := d.evict.standing

theorem step_locks {t : TaskId} {r : Router} {d : Discard} {s : RouterStep Discard Bool} (l : Lock)
    (h : d.step t r = some s) :
    LockStep t r.connections.length l (d.standing l) (s.next.standing standing l) (r.semaphore? l)
      (s.router.semaphore? l) := by
  obtain ⟨s', hs', rfl⟩ := Option.map_eq_some_iff.1 h
  exact Next.lockStep_within (fun _ => rfl) (fun _ => rfl) (Evict.step_locks l hs')

end Discard

namespace Execute

/-- How a task stands at a stage. -/
def standing : Execute → Lock → Standing
  | first _ _ _ q | second _ _ q => q.standing
  | reconnecting _ _ a => a.standing
  | discarding _ d => d.standing
  | invalidating _ i => i.standing

theorem standing_conclude (limitMs : Nat) (target : Target) (c : ConnectionId)
    (q : StatementResult) (l : Lock) :
    (conclude limitMs target c q).standing standing l = .away := by
  unfold conclude
  split
  · rfl
  · simp only
    split
    · rfl
    · split <;> rfl
  · rfl
  · rfl

theorem standing_afterFirst (sql : String) (limitMs : Nat) (r : Router) (c : ConnectionId)
    (q : StatementResult) (l : Lock) :
    (afterFirst sql limitMs r c q).standing standing l = .away := by
  unfold afterFirst
  split
  · split
    · rfl
    · exact standing_conclude ..
  · rfl

theorem standing_afterSecond (limitMs : Nat) (r : Router) (c : ConnectionId) (q : StatementResult)
    (l : Lock) : (afterSecond limitMs r c q).standing standing l = .away := by
  unfold afterSecond
  split
  · exact standing_conclude ..
  · rfl

theorem standing_afterAcquire (sql : String) (limitMs : Nat)
    (x : Except AcquireError ConnectionId) (l : Lock) :
    (afterAcquire sql limitMs x).standing standing l = .away := by
  cases x <;> rfl

theorem step_locks {t : TaskId} {ans : Option Answer} {r : Router} {x : Execute}
    {s : RouterStep Execute ExecuteResult} (l : Lock) (h : x.step t ans r = some s) :
    LockStep t r.connections.length l (x.standing l) (s.next.standing standing l) (r.semaphore? l)
      (s.router.semaphore? l) := by
  cases x with
  | first sql limitMs c q =>
    obtain ⟨s', hs', rfl⟩ := Option.map_eq_some_iff.1 h
    exact Next.lockStep_within (fun _ => rfl) (standing_afterFirst sql limitMs s'.router c · l)
      (Statement.step_locks l hs')
  | reconnecting sql limitMs a =>
    obtain ⟨s', hs', rfl⟩ := Option.map_eq_some_iff.1 h
    exact Next.lockStep_within (fun _ => rfl) (standing_afterAcquire sql limitMs · l)
      (Acquire.step_locks l hs')
  | second limitMs c q =>
    obtain ⟨s', hs', rfl⟩ := Option.map_eq_some_iff.1 h
    exact Next.lockStep_within (fun _ => rfl) (standing_afterSecond limitMs s'.router c · l)
      (Statement.step_locks l hs')
  | discarding f d =>
    obtain ⟨s', hs', rfl⟩ := Option.map_eq_some_iff.1 h
    exact Next.lockStep_within (fun _ => rfl) (fun _ => rfl) (Discard.step_locks l hs')
  | invalidating f i =>
    obtain ⟨s', hs', rfl⟩ := Option.map_eq_some_iff.1 h
    exact Next.lockStep_within (fun _ => rfl) (fun _ => rfl) (Invalidate.step_locks l hs')

end Execute

end MetricBoard
