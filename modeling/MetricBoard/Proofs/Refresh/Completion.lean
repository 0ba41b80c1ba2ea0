import Mathlib.Algebra.GroupWithZero.Nat
import MetricBoard.Proofs.Refresh.Invariant

/-!
# A batch comes to its end

Every task asks for locks in one order: the permit of its server, the permit over all servers, then
a lock of the router (`Lock.level`, `Metric.level_lt`). So among tasks that all wait, one would
wait for a lock that nobody has, and some task can always go on (`Job.Inv.exists_step`). As each
step brings some task nearer to its end (`Job.Shape.rank_lt`), a batch ends however its steps
follow one another (`Job.Inv.ends`).
-/

namespace MetricBoard

/-! ## The order of the locks -/

/-- The place of a lock in the order in which tasks ask for locks. -/
def Lock.level : Lock → Nat
  | permit _ => 0
  | overall => 1
  | slot _ | turn _ => 2

section

variable {l l' : Lock}

theorem Acquire.eq_of_standing {a : Acquire} (h : a.standing l ≠ .away)
    (h' : a.standing l' ≠ .away) : l = l' := by
  cases a with
  | start => exact absurd rfl h
  | _ => exact (Standing.eq_of_at_ne h).trans (Standing.eq_of_at_ne h').symm

theorem Statement.eq_of_standing {q : Statement} (h : q.standing l ≠ .away)
    (h' : q.standing l' ≠ .away) : l = l' := by
  cases q with
  | start => exact absurd rfl h
  | _ => exact (Standing.eq_of_at_ne h).trans (Standing.eq_of_at_ne h').symm

theorem Evict.eq_of_standing {v : Evict} (h : v.standing l ≠ .away)
    (h' : v.standing l' ≠ .away) : l = l' := by
  cases v with
  | start => exact absurd rfl h
  | _ => exact (Standing.eq_of_at_ne h).trans (Standing.eq_of_at_ne h').symm

theorem Execute.eq_of_standing {x : Execute} (h : x.standing l ≠ .away)
    (h' : x.standing l' ≠ .away) : l = l' := by
  cases x with
  | first | second => exact Statement.eq_of_standing h h'
  | reconnecting => exact Acquire.eq_of_standing h h'
  | discarding f d => exact Evict.eq_of_standing (v := d.evict) h h'
  | invalidating f i =>
    cases i with
    | evicting => exact Evict.eq_of_standing h h'
    | closing => exact absurd rfl h

/-- A call stands before one lock of the router at most. -/
theorem Compute.eq_of_standing {c : Compute} (h : c.standing l ≠ .away)
    (h' : c.standing l' ≠ .away) : l = l' := by
  cases c with
  | acquiring => exact Acquire.eq_of_standing h h'
  | executing => exact Execute.eq_of_standing h h'

/-- What a metric waits for: one of its permits, or a lock of the router. -/
theorem Metric.cases_of_queued {m : Metric} {target : Target}
    (h : m.standing target l = .queued) :
    l = .permit target ∧ m = .queuedTarget ∨ l = .overall ∧ m = .queuedOverall ∨
      ∃ startedMs c, m = .computing startedMs c ∧ l.level = 2 ∧ c.standing l ≠ .away := by
  have hrouter : m.standingRouter l = .queued → l.level = 2 →
      ∃ startedMs c, m = .computing startedMs c ∧ l.level = 2 ∧ c.standing l ≠ .away := by
    intro h hlevel
    cases m with
    | computing startedMs c =>
      exact ⟨startedMs, c, rfl, hlevel, fun haway => by simp [standingRouter, haway] at h⟩
    | _ => cases h
  cases l with
  | permit u =>
    left
    simp only [standing] at h
    split at h
    · rename_i hu
      subst hu
      cases m <;> first | exact ⟨rfl, rfl⟩ | cases h
    · cases h
  | overall =>
    right
    left
    have h : m.standingOverall = .queued := h
    cases m <;> first | exact ⟨rfl, rfl⟩ | cases h
  | slot | turn => exact .inr (.inr (hrouter h rfl))

/-- A metric asks for a lock only when those that it has stand before it in the order. -/
theorem Metric.level_lt {m : Metric} {target : Target} (h : m.standing target l ≠ .away)
    (h' : m.standing target l' = .queued) (hne : l ≠ l') : l.level < l'.level := by
  rcases cases_of_queued h' with ⟨rfl, rfl⟩ | ⟨rfl, rfl⟩ | ⟨startedMs, c, rfl, hlevel, hc⟩
  · cases l with
    | permit u => exact absurd (if_neg (mt (congrArg Lock.permit) hne)) h
    | overall | slot | turn => exact absurd rfl h
  · cases l with
    | permit u => exact Nat.zero_lt_one
    | overall => exact absurd rfl hne
    | slot | turn => exact absurd rfl h
  · rw [hlevel]
    cases l with
    | permit => exact Nat.two_pos
    | overall => exact Nat.one_lt_two
    | slot | turn => exact absurd (Compute.eq_of_standing h hc) hne

end

namespace Job

variable {j : Job} {backend : Backend} {w w' : World} {out : Outside} {t : TaskId}
  {res : Option Result}

/-! ## Some task can go on -/

theorem Shape.exists_metric (hs : j.Shape w) {i : Nat} {a : Activity}
    (hi : i < j.definitions.length) (ha : w.activity? (i + 1) = some a) : ∃ m, a = .metric j.index i m := by
  have hplace := hs.place _ a ha
  cases a with
  | metric b i' m =>
    obtain ⟨rfl, hi', -⟩ := hplace
    exact ⟨m, by rw [Nat.succ.inj hi']⟩
  | batch r =>
    cases r with
    | start => cases hplace
    | joining b => cases hplace.1
    | reporting r => cases hplace
  | call c =>
    cases c with
    | closing c => exact absurd (Nat.lt_of_lt_of_le hplace hi) (Nat.lt_irrefl _)
    | _ => cases hplace
  | _ => cases hplace

theorem Inv.blocked (hs : j.Inv backend w) {i : Nat} {m : Metric}
    (ha : w.activity? (i + 1) = some (.metric j.index i m))
    (h : backend.step out (i + 1) w = none) :
    ∃ l s, j.standing w l (i + 1) = .queued ∧ w.engine.semaphore? j.index l = some s ∧
      i + 1 ∉ s.holders := by
  obtain ⟨-, -, hi⟩ := hs.place _ _ ha
  have hd : j.definitions[i]? = some j.definitions[i] := List.getElem?_eq_getElem hi
  obtain ⟨k, hk, hds, -⟩ := hs.batch
  have hnone := World.step_eq_none ha h
  simp only [Activity.step, hk, hds, hd, Option.map_eq_none_iff] at hnone
  have hans : Answered m.request?
      (((w.activity? (i + 1)).bind Activity.request?).map (backend.answer w.engine.router)) := by
    rw [ha]
    exact backend.answered _ _
  obtain ⟨l, s, hl, hsem, hn⟩ := Metric.blocked hk hans hnone
  exact ⟨l, s, by rw [standing_of_activity? ha, standingOf, hd]; exact hl, hsem, hn⟩

/-- Not all tasks wait: for the lock that is last in the order nobody would. -/
theorem Inv.not_waiting (hs : j.Inv backend w) (hstuck : ∀ u, backend.step out u w = none)
    (n : Nat) :
    ∀ l s u, 3 ≤ l.level + n → w.engine.semaphore? j.index l = some s →
      j.standing w l u = .queued → u ∈ s.holders := by
  induction n with
  | zero =>
    intro l s u hl
    cases l <;> simp [Lock.level] at hl
  | succ n ih =>
    intro l s u hl hsem hu
    by_contra hn
    obtain ⟨htracks, -, hlimit⟩ := hs.locks l s hsem
    obtain ⟨v, hv⟩ := htracks.exists_holder (hlimit ▸ limit_pos l) (by simp [hu]) hn
    have huses := htracks.uses_of_mem hv
    obtain ⟨i, m, rfl, ha, hd⟩ : ∃ i m, v = i + 1 ∧ w.activity? v = some (.metric j.index i m) ∧
        i < j.definitions.length := by
      rw [standing] at huses
      cases ha : w.activity? v with
      | none => simp [ha] at huses
      | some a =>
        rw [ha, Option.elim_some] at huses
        cases a with
        | metric b i m =>
          obtain ⟨rfl, rfl, hi⟩ := hs.place v _ ha
          exact ⟨i, m, rfl, rfl, hi⟩
        | _ => exact absurd rfl huses
    obtain ⟨l', s', hl', hsem', hn'⟩ := hs.blocked ha (hstuck (i + 1))
    have hd' : j.definitions[i]? = some j.definitions[i] := List.getElem?_eq_getElem hd
    rw [standing_of_activity? ha, standingOf, hd', Option.elim_some] at huses hl'
    have hne : l ≠ l' := by
      rintro rfl
      exact hn' (Option.some.inj (hsem.symm.trans hsem') ▸ hv)
    have hlt := Metric.level_lt huses hl' hne
    refine hn' (ih l' s' (i + 1) (by omega) hsem' ?_)
    rw [standing_of_activity? ha, standingOf, hd', Option.elim_some]
    exact hl'

/-- Some task can go on until the first one has ended. -/
theorem Inv.exists_step (hs : j.Inv backend w) (h0 : w.activity? 0 ≠ none) (out : Outside) :
    ∃ t, (backend.step out t w).isSome = true := by
  by_contra hstuck
  simp only [not_exists, Option.isSome_iff_ne_none, ne_eq, not_not] at hstuck
  obtain ⟨a, ha⟩ := Option.ne_none_iff_exists'.1 h0
  obtain ⟨k, hk, -, -, -, hcard⟩ := hs.batch
  have hplace := hs.place 0 a ha
  have hnone := World.step_eq_none ha (hstuck 0)
  cases a with
  | batch r =>
    cases r with
    | start => cases hplace
    | joining b =>
      obtain ⟨-, rfl⟩ := hplace
      simp only [Activity.step, BatchRun.step, hk, Option.map_eq_none_iff] at hnone
      split at hnone
      · cases hnone
      · rename_i hu
        obtain ⟨i, hi⟩ := Finset.card_pos.1 (Nat.pos_of_ne_zero (hcard ▸ hu))
        obtain ⟨hlt, hsome⟩ := mem_alive.1 hi
        obtain ⟨a, ha'⟩ := Option.isSome_iff_exists.1 hsome
        obtain ⟨m, rfl⟩ := hs.exists_metric hlt ha'
        obtain ⟨l, s, hl, hsem, hn⟩ := hs.blocked ha' (hstuck (i + 1))
        exact hn (hs.not_waiting hstuck 3 l s (i + 1) (Nat.le_add_left ..) hsem hl)
    | reporting r => simp [Activity.step, BatchRun.step] at hnone
  | metric b i m => exact absurd hplace.2.1 (Nat.succ_ne_zero i).symm
  | call c =>
    cases c with
    | closing c => exact absurd hplace (Nat.not_lt_zero _)
    | _ => cases hplace
  | _ => cases hplace

end Job

/-! ## Steps come to an end -/

/-- A bound on the steps that are left to a task of a job. -/
def Activity.rank : Activity → Nat
  | .metric _ _ m => m.rank
  | .batch (.joining _) => 2
  | .batch (.reporting _) | .call _ => 1
  | _ => 0

/-- A bound on the steps that are left. -/
def World.rank (w : World) : Nat := (w.tasks.map fun x => x.elim 0 Activity.rank).sum

theorem sum_map_set {α : Type} (f : α → Nat) {l : List α} {t : Nat} {a : α} (b : α)
    (h : l[t]? = some a) : ((l.set t b).map f).sum + f a = (l.map f).sum + f b := by
  induction l generalizing t with
  | nil => simp at h
  | cons c l ih =>
    cases t with
    | zero =>
      obtain rfl : c = a := by simpa using h
      simp only [List.set_cons_zero, List.map_cons, List.sum_cons]
      omega
    | succ t =>
      have := ih (by simpa using h)
      simp only [List.set_cons_succ, List.map_cons, List.sum_cons]
      omega

theorem World.rank_after_lt {w : World} {t : TaskId} {a : Activity} (h : w.activity? t = some a)
    (e : Engine) {x : Option Activity} {as : List Activity}
    (hlt : x.elim 0 Activity.rank + (as.map Activity.rank).sum < a.rank) :
    (w.after t e x as).rank < w.rank := by
  have hset := sum_map_set (fun x : Option Activity => x.elim 0 Activity.rank) x
    (Option.join_eq_some_iff.1 h)
  simp only [rank, after, List.map_append, List.map_map, List.sum_append,
    Option.elim_some] at hset ⊢
  change _ + (as.map Activity.rank).sum < _
  omega

namespace Job

variable {j : Job} {backend : Backend} {w w' : World} {out : Outside} {t : TaskId}
  {res : Option Result}

theorem Step.rank_lt (h : j.Step backend w t w' res) : w'.rank < w.rank := by
  cases h with
  | @metric i m d k out s ha hd hk ho hm =>
    have hspawns : ∀ p ∈ s.spawns, (Activity.rank ∘ Spawn.activity) p = 1 := by
      intro p hp
      obtain ⟨c, rfl⟩ := Metric.step_spawns hm p hp
      rfl
    have hnext : (s.next.stage?.map (Activity.metric j.index i)).elim 0 Activity.rank =
        s.next.rank Metric.rank := by
      cases s.next <;> rfl
    refine World.rank_after_lt ha _ ?_
    rw [hnext, List.map_map, List.map_congr_left hspawns]
    simpa [Activity.rank] using Metric.step_rank hm
  | closing ha | reporting ha => exact World.rank_after_lt ha _ Nat.zero_lt_one
  | joining ha => exact World.rank_after_lt ha _ Nat.one_lt_two

/-- However its steps follow one another, a batch that has begun ends with a right report. -/
theorem Inv.ends (hs : j.Inv backend w) (h0 : w.activity? 0 ≠ none) (out : Outside) :
    backend.Ends (fun x => ∃ r, x = .reported (.value (some r)) ∧ j.Right backend r) w := by
  induction hn : w.rank using Nat.strong_induction_on generalizing w with
  | _ n ih =>
    obtain ⟨t, ht⟩ := hs.exists_step h0 out
    refine .intro ⟨out, t, ht⟩ (fun _ _ _ h => hs.right_of_step h) fun _ t w' res h hres => ?_
    have hstep := hs.toShape.step h
    exact ih _ (hn ▸ hstep.rank_lt) (hs.next h) (World.activity?_ne_none_of_step h h0 hres) rfl

end Job

end MetricBoard
