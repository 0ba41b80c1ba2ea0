import MetricBoard.Proofs.Router.Locks

/-!
# Calls go on

A call whose requests are answered, in whatever way, can take its next step unless it waits for a
lock that another task has (`Blocked`), and it comes nearer to its end with each step: `rank` bounds
the number of steps that are left, those of the tasks it starts to close connections included.

The answers may be those of a `Backend`: connecting and closing succeed, and what is answered to a
statement depends on the server and on the statement's text alone.
-/

namespace MetricBoard

/-! ## Answers -/

/-- Whether an answer is one to a request. -/
def Answer.Fits : Request → Answer → Prop
  | .connect _ _, connected | .connect _ _, refused _ => True
  | .statement _ _ _, rows _ | .statement _ _ _, failed _ | .statement _ _ _, elapsed
  | .statement _ _ _, brokeDown => True
  | .close _, closed => True
  | _, _ => False

/-- What is asked, if anything, is answered. -/
def Answered (asked : Option Request) (answer : Option Answer) : Prop :=
  ∀ q, asked = some q → ∃ a, answer = some a ∧ a.Fits q

/-- Servers that answer a statement by its text alone: with rows, with an error that does not
cost the connection, or never. -/
structure Backend where
  reply : Target → String → Option (Except DriverError (List Row))
  poisons_eq_false : ∀ target sql e, reply target sql = some (.error e) → e.kind.poisons = false

/-- The answer to a request. A statement that is never answered is given up in the end. -/
def Backend.answer (b : Backend) (r : Router) : Request → Answer
  | .connect _ _ => .connected
  | .statement c sql _ =>
    match r.target? c with
    | none => .brokeDown
    | some target =>
      match b.reply target sql with
      | some (.ok rows) => .rows rows
      | some (.error e) => .failed e
      | none => .elapsed
  | .close _ => .closed

theorem Backend.answer_fits (b : Backend) (r : Router) (q : Request) : (b.answer r q).Fits q := by
  cases q with
  | connect | close => trivial
  | statement c sql limitMs =>
    simp only [answer]
    split
    · trivial
    · split <;> trivial

theorem Backend.answered (b : Backend) (r : Router) (asked : Option Request) :
    Answered asked (asked.map (b.answer r)) := by
  rintro q rfl
  exact ⟨_, rfl, b.answer_fits r q⟩

/-- A task waits for a lock that it does not have. -/
def Blocked (t : TaskId) (standing : Lock → Standing) (semaphore? : Lock → Option Semaphore) :
    Prop :=
  ∃ l s, standing l = .queued ∧ semaphore? l = some s ∧ t ∉ s.holders

namespace Next

variable {σ τ ρ ρ' : Type}

/-- The rank after a step; at the end it is zero. -/
def rank (f : σ → Nat) : Next σ ρ → Nat
  | stage s => f s
  | done _ => 0

end Next

/-- What is left after a step: the rank of the stage, and one step for a connection that is to be
closed. -/
def RouterStep.rank {σ ρ : Type} (f : σ → Nat) (s : RouterStep σ ρ) : Nat :=
  s.next.rank f + s.closes.toList.length

/-- A call within a call comes nearer to its end as the inner one does, if what that leads on to is
no longer than `k`. -/
theorem RouterStep.rank_within_lt {σ τ ρ ρ' : Type} {f : σ → Nat} {g : τ → Nat} {inner : σ → τ}
    {after : ρ → Next τ ρ'} {n k : Nat} {s : RouterStep σ ρ} (hi : ∀ s, g (inner s) = f s + k)
    (ha : ∀ r, (after r).rank g ≤ k) (h : s.rank f < n) :
    (s.within inner after).rank g < n + k := by
  obtain ⟨r, next, closes⟩ := s
  simp only [RouterStep.rank, RouterStep.within] at h ⊢
  cases next with
  | stage s =>
    have := hi s
    simp only [Next.within, Next.rank] at h ⊢
    omega
  | done r =>
    have := ha r
    simp only [Next.rank] at h
    simp only [Next.within]
    omega

variable {t : TaskId} {ans : Option Answer} {r : Router}

/-! ## Getting a connection -/

namespace Acquire

theorem blocked {a : Acquire} (hans : Answered a.request? ans) (h : a.step t ans r = none) :
    Blocked t a.standing r.semaphore? := by
  cases a with
  | start target =>
    simp only [step] at h
    split at h <;> cases h
  | queued target p =>
    simp only [step] at h
    split at h
    · split at h
      · split at h <;> cases h
      · cases h
    · rename_i hheld
      exact ⟨.slot target, _, Standing.at_self _ _, rfl, mt Semaphore.isHeldBy_iff.2 hheld⟩
  | connecting target p =>
    obtain ⟨x, rfl, hx⟩ := hans _ rfl
    cases x with
    | connected | refused => cases h
    | _ => cases hx
  | empty | cached | refused | leaving => cases h

/-- A bound on the steps that are left. -/
def rank : Acquire → Nat
  | start _ => 7
  | queued _ _ => 6
  | empty _ _ => 4
  | connecting _ _ => 3
  | cached _ _ | refused _ _ => 2
  | leaving _ _ => 1

theorem rank_le (a : Acquire) : a.rank ≤ 7 := by
  cases a <;> simp [rank]

theorem step_rank {a : Acquire} {s : RouterStep Acquire (Except AcquireError ConnectionId)}
    (h : a.step t ans r = some s) : s.rank rank < a.rank := by
  cases does_of_step h <;> simp [RouterStep.rank, Next.rank, rank]

end Acquire

/-! ## Statements -/

namespace Statement

theorem blocked {q : Statement} (hans : Answered q.request? ans) (h : q.step t ans r = none) :
    Blocked t q.standing r.semaphore? := by
  cases q with
  | queued c sql limitMs =>
    simp only [step] at h
    split at h
    · split at h <;> cases h
    · rename_i hturn
      rw [Router.hasTurn] at hturn
      split at hturn
      · rename_i k hk
        split at hturn
        · rename_i s hs
          refine ⟨.turn c, s, Standing.at_self _ _, ?_, mt Semaphore.isHeldBy_iff.2 hturn⟩
          simp [Router.semaphore?, hk, hs]
        · exact absurd rfl hturn
      · exact absurd rfl hturn
  | running c sql limitMs =>
    obtain ⟨x, rfl, hx⟩ := hans _ rfl
    cases x with
    | rows | failed | elapsed | brokeDown => cases h
    | _ => cases hx
  | start | overdue | leaving => cases h

/-- A bound on the steps that are left. -/
def rank : Statement → Nat
  | start _ _ _ => 5
  | queued _ _ _ => 4
  | running _ _ _ => 3
  | overdue _ => 2
  | leaving _ _ => 1

theorem rank_le (q : Statement) : q.rank ≤ 5 := by
  cases q <;> simp [rank]

theorem step_rank {q : Statement} {s : RouterStep Statement StatementResult}
    (h : q.step t ans r = some s) : s.rank rank < q.rank := by
  cases does_of_step h <;> simp [RouterStep.rank, Next.rank, rank]

end Statement

/-! ## Giving connections up -/

namespace Evict

theorem blocked {e : Evict} (h : e.step t r = none) : Blocked t e.standing r.semaphore? := by
  cases e with
  | queued target c =>
    simp only [step] at h
    split at h
    · split at h <;> cases h
    · rename_i hheld
      exact ⟨.slot target, _, Standing.at_self _ _, rfl, mt Semaphore.isHeldBy_iff.2 hheld⟩
  | start | removed | hidden | leaving => cases h

/-- A bound on the steps that are left. -/
def rank : Evict → Nat
  | start _ _ => 5
  | queued _ _ => 4
  | removed _ _ => 3
  | hidden _ _ => 2
  | leaving _ _ => 1

theorem rank_le (e : Evict) : e.rank ≤ 5 := by
  cases e <;> simp [rank]

theorem step_rank {e : Evict} {s : RouterStep Evict Bool} (h : e.step t r = some s) :
    s.rank rank < e.rank := by
  cases does_of_step h <;> simp [RouterStep.rank, Next.rank, rank]

/-- Taking a connection out of its slot leaves no other to be closed. -/
theorem step_closes {e : Evict} {s : RouterStep Evict Bool} (h : e.step t r = some s) :
    s.closes = none := by
  cases does_of_step h <;> rfl

end Evict

namespace Invalidate

theorem blocked {i : Invalidate} (hans : Answered i.request? ans) (h : i.step t ans r = none) :
    Blocked t i.standing r.semaphore? := by
  cases i with
  | evicting c e =>
    simp only [step, Option.map_eq_none_iff] at h
    exact Evict.blocked h
  | closing c =>
    obtain ⟨x, rfl, hx⟩ := hans _ rfl
    cases x with
    | closed => cases h
    | _ => cases hx

/-- A bound on the steps that are left. -/
def rank : Invalidate → Nat
  | evicting _ e => e.rank + 1
  | closing _ => 1

theorem rank_le (i : Invalidate) : i.rank ≤ 6 := by
  cases i with
  | evicting c e => exact Nat.succ_le_succ e.rank_le
  | closing c => exact Nat.le_add_left 1 5

theorem step_rank {i : Invalidate} {s : RouterStep Invalidate Bool}
    (h : i.step t ans r = some s) : s.rank rank < i.rank := by
  cases i with
  | evicting c e =>
    obtain ⟨s', hs', rfl⟩ := Option.map_eq_some_iff.1 h
    refine RouterStep.rank_within_lt (fun _ => rfl) (fun wasCached => ?_) (Evict.step_rank hs')
    cases wasCached <;> simp [Next.rank, rank]
  | closing c =>
    obtain rfl := eq_of_closing h
    simp [RouterStep.rank, Next.rank, rank]

end Invalidate

namespace Discard

theorem blocked {d : Discard} (h : d.step t r = none) : Blocked t d.standing r.semaphore? := by
  simp only [step, Option.map_eq_none_iff] at h
  exact Evict.blocked h

/-- A bound on the steps that are left; one more than the eviction's, for the close. -/
def rank (d : Discard) : Nat := d.evict.rank + 1

theorem rank_le (d : Discard) : d.rank ≤ 6 := Nat.succ_le_succ d.evict.rank_le

theorem step_rank {d : Discard} {s : RouterStep Discard Bool} (h : d.step t r = some s) :
    s.rank rank < d.rank := by
  obtain ⟨s', hs', rfl⟩ := Option.map_eq_some_iff.1 h
  have hlt := Evict.step_rank hs'
  rw [RouterStep.rank, Evict.step_closes hs'] at hlt
  simp only [RouterStep.rank, RouterStep.within, rank]
  cases hn : s'.next with
  | stage e =>
    simp only [hn, Next.rank] at hlt
    simp [Next.within, Next.rank, rank]
    omega
  | done x =>
    simp only [hn, Next.rank] at hlt
    have : (if s'.next = .done true then some d.connection else none).toList.length ≤ 1 := by
      split <;> simp
    rw [hn] at this
    simp only [Next.within, Next.rank]
    omega

end Discard

/-! ## Executing a statement -/

namespace Execute

theorem blocked {x : Execute} (hans : Answered x.request? ans) (h : x.step t ans r = none) :
    Blocked t x.standing r.semaphore? := by
  cases x with
  | first sql limitMs c q | second limitMs c q =>
    simp only [step, Option.map_eq_none_iff] at h
    exact Statement.blocked hans h
  | reconnecting sql limitMs a =>
    simp only [step, Option.map_eq_none_iff] at h
    exact Acquire.blocked hans h
  | discarding f d =>
    simp only [step, Option.map_eq_none_iff] at h
    exact Discard.blocked h
  | invalidating f i =>
    simp only [step, Option.map_eq_none_iff] at h
    exact Invalidate.blocked hans h

/-- A bound on the steps that are left. -/
def rank : Execute → Nat
  | discarding _ d => d.rank
  | invalidating _ i => i.rank
  | second _ _ q => q.rank + 6
  | reconnecting _ _ a => a.rank + 11
  | first _ _ _ q => q.rank + 18

theorem rank_le (x : Execute) : x.rank ≤ 23 := by
  cases x with
  | discarding f d => exact Nat.le_trans d.rank_le (by decide)
  | invalidating f i => exact Nat.le_trans i.rank_le (by decide)
  | second limitMs c q => exact Nat.le_trans (Nat.add_le_add_right q.rank_le 6) (by decide)
  | reconnecting sql limitMs a => exact Nat.le_trans (Nat.add_le_add_right a.rank_le 11) (by decide)
  | first sql limitMs c q => exact Nat.add_le_add_right q.rank_le 18

theorem rank_conclude (limitMs : Nat) (target : Target) (c : ConnectionId) (q : StatementResult) :
    (conclude limitMs target c q).rank rank ≤ 6 := by
  unfold conclude
  split
  · exact Nat.zero_le _
  · simp only
    split
    · exact Discard.rank_le ⟨c, .start target c⟩
    · split
      · exact Invalidate.rank_le (.evicting c (.start target c))
      · exact Nat.zero_le _
  · exact Discard.rank_le ⟨c, .start target c⟩
  · exact Nat.zero_le _

theorem rank_afterFirst (sql : String) (limitMs : Nat) (r : Router) (c : ConnectionId)
    (q : StatementResult) : (afterFirst sql limitMs r c q).rank rank ≤ 18 := by
  unfold afterFirst
  split
  · split
    · exact Nat.add_le_add_right (Acquire.rank_le _) 11
    · exact Nat.le_trans (rank_conclude ..) (by decide)
  · exact Nat.zero_le _

theorem rank_afterSecond (limitMs : Nat) (r : Router) (c : ConnectionId) (q : StatementResult) :
    (afterSecond limitMs r c q).rank rank ≤ 6 := by
  unfold afterSecond
  split
  · exact rank_conclude ..
  · exact Nat.zero_le _

theorem rank_afterAcquire (sql : String) (limitMs : Nat) (x : Except AcquireError ConnectionId) :
    (afterAcquire sql limitMs x).rank rank ≤ 11 := by
  cases x with
  | ok c => exact Nat.add_le_add_right (Statement.rank_le _) 6
  | error e => exact Nat.zero_le _

theorem step_rank {x : Execute} {s : RouterStep Execute ExecuteResult}
    (h : x.step t ans r = some s) : s.rank rank < x.rank := by
  cases x with
  | first sql limitMs c q =>
    obtain ⟨s', hs', rfl⟩ := Option.map_eq_some_iff.1 h
    exact RouterStep.rank_within_lt (fun _ => rfl) (rank_afterFirst sql limitMs s'.router c)
      (Statement.step_rank hs')
  | reconnecting sql limitMs a =>
    obtain ⟨s', hs', rfl⟩ := Option.map_eq_some_iff.1 h
    exact RouterStep.rank_within_lt (fun _ => rfl) (rank_afterAcquire sql limitMs)
      (Acquire.step_rank hs')
  | second limitMs c q =>
    obtain ⟨s', hs', rfl⟩ := Option.map_eq_some_iff.1 h
    exact RouterStep.rank_within_lt (fun _ => rfl) (rank_afterSecond limitMs s'.router c)
      (Statement.step_rank hs')
  | discarding f d =>
    obtain ⟨s', hs', rfl⟩ := Option.map_eq_some_iff.1 h
    change _ < d.rank + 0
    exact RouterStep.rank_within_lt (fun _ => rfl) (fun _ => Nat.le_refl _) (Discard.step_rank hs')
  | invalidating f i =>
    obtain ⟨s', hs', rfl⟩ := Option.map_eq_some_iff.1 h
    change _ < i.rank + 0
    exact RouterStep.rank_within_lt (fun _ => rfl) (fun _ => Nat.le_refl _)
      (Invalidate.step_rank hs')

end Execute

end MetricBoard
