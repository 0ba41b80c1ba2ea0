import MetricBoard.Proofs.Refresh.Scheduling

/-!
# What becomes of a trigger

A trigger rings the bell of the scheduler. A ring that is not answered is kept, or some loop has it
in hand: the loop was woken by it, or is about to make a run for it (`World.pending`). It follows
from what each step does with the bell (`Bell.Heeds`) that a step which is no such run loses none of
these rings (`World.Heeding`): a loop that was woken but ends its wait for a tick hands its ring on.
A run that is made for a ring answers it, whether it begins a batch or is turned away because
another holder of the scheduler has one in progress. In the second case the trigger is lost
(`Swallowed`), and that is the only way (`Service.trigger_is_lost_only_while_busy`).
-/

namespace MetricBoard

/-! ## The bell -/

namespace Bell

/-- The tasks that listen or were woken. -/
def tasks (b : Bell) : List TaskId := b.listening ++ b.woken

variable {b : Bell} {t : TaskId}

/-- A ring is kept if nobody listens, and else wakes somebody. -/
theorem ring_cases (b : Bell) :
    b.ring.kept = true ∧ b.ring.woken = b.woken ∨
      ∃ u ∈ b.listening, b.ring.kept = b.kept ∧ b.ring.woken = b.woken ++ [u] := by
  unfold ring
  split
  · rename_i u us hlistening
    exact .inr ⟨u, by rw [hlistening]; exact List.mem_cons_self, rfl, rfl⟩
  · exact .inl ⟨rfl, rfl⟩

theorem tasks_ring (b : Bell) : b.ring.tasks.Perm b.tasks := by
  unfold ring
  split
  · rename_i u us hlistening
    rw [tasks, tasks, hlistening, ← List.append_assoc]
    exact List.perm_append_comm
  · exact .refl _

theorem tasks_listen (b : Bell) (t : TaskId) : (b.listen t).tasks.Perm (t :: b.tasks) := by
  rw [tasks, listen, List.append_assoc]
  exact List.perm_middle

theorem tasks_notice (hb : b.tasks.Nodup) (ht : t ∈ b.woken) :
    (b.notice t).tasks = b.tasks.erase t := by
  have hnot : t ∉ b.listening := fun hl => (List.disjoint_of_nodup_append hb) hl ht
  rw [tasks, tasks, List.erase_append_right _ hnot]
  rfl

theorem tasks_leave (hb : b.tasks.Nodup) (t : TaskId) :
    (b.leave t).tasks.Perm (b.tasks.erase t) := by
  unfold leave
  split
  · rename_i hwoken
    rw [← tasks_notice hb (List.contains_iff_mem.1 hwoken)]
    exact tasks_ring _
  · rename_i hwoken
    have hnot : t ∉ b.woken := fun ht => hwoken (List.contains_iff_mem.2 ht)
    by_cases ht : t ∈ b.listening
    · rw [tasks, tasks, List.erase_append_left _ ht]
    · rw [tasks, tasks, List.erase_append_right _ ht, List.erase_of_not_mem ht,
        List.erase_of_not_mem hnot]

/-- What a step of a task does with the bell: the wake that the task notices, the bell after the
step, and what the task does next. -/
inductive Heeds (b : Bell) (t : TaskId) :
    Activity → Option Wake → Bell → Option Activity → Prop
  /-- The task is no loop. -/
  | aside {a : Activity} {a' : Option Activity} : (∀ l, a ≠ .refreshLoop l) →
    (∀ l, a' ≠ some (.refreshLoop l)) → Heeds b t a none b a'
  /-- The loop begins, or is at a run. -/
  | work {l : RefreshLoop} {a' : Option Activity} : (∀ tick, l ≠ .waiting tick) →
    (∀ tick, a' ≠ some (.refreshLoop (.waiting tick))) →
    (∀ tick, a' ≠ some (.refreshLoop (.running tick .start))) →
    Heeds b t (.refreshLoop l) none b a'
  | listen {tick : Nat} : Heeds b t (.refreshLoop (.looking tick)) none (b.listen t)
    (some (.refreshLoop (.waiting tick)))
  /-- The ring that is kept is for this loop. -/
  | take {tick : Nat} : b.kept = true → Heeds b t (.refreshLoop (.looking tick)) (some .ring)
    { b with kept := false } (some (.refreshLoop (.running tick .start)))
  /-- Another wake keeps the loop from listening. -/
  | pass {tick : Nat} {v : Wake} {a' : Option Activity} : v ≠ .ring →
    (∀ tick, a' ≠ some (.refreshLoop (.waiting tick))) →
    Heeds b t (.refreshLoop (.looking tick)) (some v) b a'
  | notice {tick : Nat} : t ∈ b.woken → Heeds b t (.refreshLoop (.waiting tick)) (some .ring)
    (b.notice t) (some (.refreshLoop (.running tick .start)))
  /-- Another wake ends the loop's wait. -/
  | leave {tick : Nat} {v : Wake} {a' : Option Activity} : v ≠ .ring →
    (∀ tick, a' ≠ some (.refreshLoop (.waiting tick))) →
    Heeds b t (.refreshLoop (.waiting tick)) (some v) (b.leave t) a'

end Bell

/-- The bell of the scheduler. -/
def World.bell (w : World) : Bell := w.engine.scheduler.bell

theorem RunOnce.Does.bell {t : TaskId} {e : Engine} {r : RunOnce}
    {s : EngineStep RunOnce (Ended (Option Report))} (h : r.Does t e s) :
    s.engine.scheduler.bell = e.scheduler.bell := by
  cases h with
  | work he | succeed he | fail he => exact congrArg Scheduler.bell he
  | turnAway | enter | publish | leave => rfl

/-- A run that goes on has not just begun. -/
theorem RunOnce.Does.stage?_ne_start {t : TaskId} {e : Engine} {r : RunOnce}
    {s : EngineStep RunOnce (Ended (Option Report))} (h : r.Does t e s) :
    s.next.stage? ≠ some .start := by
  cases h <;> exact fun hn => by cases hn

namespace RefreshLoop

variable {out : Outside} {t : TaskId} {e : Engine} {l : RefreshLoop}
  {s : EngineStep RefreshLoop Unit}

/-- The wake that a loop notices with its next step. -/
def wake? (out : Outside) (t : TaskId) (e : Engine) : RefreshLoop → Option Wake
  | looking tick => out.order.find? (isThere out e tick)
  | waiting tick => out.order.find? (hasCome out t e tick)
  | _ => none

theorem bell_wake (tick : Nat) (e : Engine) (v : Wake) :
    (wake out t tick e v).engine.scheduler.bell = e.scheduler.bell := by
  cases v <;> rfl

theorem wake_ne_waiting (tick : Nat) (e : Engine) (v : Wake) (tick' : Nat) :
    (wake out t tick e v).next.stage?.map Activity.refreshLoop ≠
      some (.refreshLoop (.waiting tick')) := by
  cases v <;> exact fun h => by cases h

theorem step_heeds (h : l.step out t e = some s) :
    e.scheduler.bell.Heeds t (.refreshLoop l) (l.wake? out t e) s.engine.scheduler.bell
      (s.next.stage?.map .refreshLoop) := by
  cases does_of_step h with
  | idle | start =>
    exact .work (fun _ => RefreshLoop.noConfusion) (fun _ hn => by cases hn) fun _ hn => by cases hn
  | @take tick hfind =>
    have hkept : isThere out e tick .ring = true := List.find?_some hfind
    rw [wake?, hfind]
    exact .take hkept
  | @heed tick v hfind hne =>
    rw [wake?, hfind, bell_wake]
    exact .pass hne (wake_ne_waiting tick e v)
  | listen hfind =>
    rw [wake?, hfind]
    exact .listen
  | @awake tick v hfind =>
    rw [wake?, hfind, bell_wake]
    by_cases hv : v = .ring
    · subst hv
      have hwoken : hasCome out t e tick .ring = true := List.find?_some hfind
      exact .notice (List.contains_iff_mem.1 hwoken)
    · simp only [if_neg hv, Engine.onScheduler]
      exact .leave hv (wake_ne_waiting tick _ v)
  | @run tick r s' hs' =>
    have hdoes := RunOnce.does_of_step hs'
    have hbell : (afterBatch t tick s').engine.scheduler.bell = e.scheduler.bell := by
      rw [← hdoes.bell]
      unfold afterBatch
      split <;> rfl
    have hnext : ∀ l, (afterBatch t tick s').next.stage? = some l →
        (∀ tick', l ≠ waiting tick') ∧ ∀ tick', l ≠ running tick' .start := by
      intro l hl
      unfold afterBatch at hl
      split at hl
      · cases hl
      · cases hl
        exact ⟨fun _ => RefreshLoop.noConfusion, fun _ => RefreshLoop.noConfusion⟩
      · rename_i r' hr'
        cases hl
        refine ⟨fun _ => RefreshLoop.noConfusion, fun tick' heq => hdoes.stage?_ne_start ?_⟩
        cases heq
        rw [hr']
        rfl
    rw [hbell]
    refine .work (fun _ => RefreshLoop.noConfusion) (fun tick' hl => ?_) fun tick' hl => ?_
    · obtain ⟨l, hl, heq⟩ := Option.map_eq_some_iff.1 hl
      cases heq
      exact (hnext _ hl).1 tick' rfl
    · obtain ⟨l, hl, heq⟩ := Option.map_eq_some_iff.1 hl
      cases heq
      exact (hnext _ hl).2 tick' rfl

end RefreshLoop

namespace Activity

variable {out : Outside} {t : TaskId} {e : Engine} {a : Activity} {s : EngineStep Activity Result}

/-- The wake that a task notices with its next step. -/
def wake? (out : Outside) (t : TaskId) (e : Engine) : Activity → Option Wake
  | refreshLoop l => l.wake? out t e
  | _ => none

/-- A task that is no loop leaves the bell alone and becomes none. -/
theorem step_notLoop (hl : ∀ l, a ≠ .refreshLoop l) (h : a.step out t e = some s) :
    s.engine.scheduler.bell = e.scheduler.bell ∧ ∀ l, s.next.stage? ≠ some (.refreshLoop l) := by
  cases hr : a.run? with
  | none =>
    obtain ⟨⟨-, hbell⟩, hnext⟩ := step_offLoop hr hl h
    exact ⟨hbell, fun l hn => (hnext _ hn).2 l rfl⟩
  | some r =>
    cases a with
    | runOnce r' =>
      obtain ⟨s', hs', rfl⟩ := Option.map_eq_some_iff.1 h
      refine ⟨(RunOnce.does_of_step hs').bell, fun l => ?_⟩
      rw [EngineStep.within, Next.stage?_within_done]
      cases s'.next.stage? with
      | none => exact fun hn => by cases hn
      | some r'' => exact fun hn => by cases hn
    | refreshLoop l => exact absurd rfl (hl l)
    | call | metric | batch | catalog | retentionLoop | stop => cases hr

theorem step_heeds (h : a.step out t e = some s) :
    e.scheduler.bell.Heeds t a (a.wake? out t e) s.engine.scheduler.bell s.next.stage? := by
  cases a with
  | refreshLoop l =>
    obtain ⟨s', hs', rfl⟩ := Option.map_eq_some_iff.1 h
    rw [EngineStep.within, Next.stage?_within_done]
    exact RefreshLoop.step_heeds hs'
  | call | metric | batch | catalog | runOnce | retentionLoop | stop =>
    obtain ⟨hbell, hnext⟩ := step_notLoop (fun _ => Activity.noConfusion) h
    rw [hbell]
    exact .aside (fun _ => Activity.noConfusion) hnext

end Activity

/-- The wake that a task notices with a step. -/
def Move.wake? (x : Move) : Option Wake :=
  (x.before.activity? x.task).bind
    (Activity.wake? (x.before.outside x.outside) x.task x.before.engine)

theorem Move.heeds {x : Move}
    (h : x.before.step x.outside x.task = some (x.after, x.result)) :
    ∃ a, x.before.activity? x.task = some a ∧
      x.before.bell.Heeds x.task a x.wake? x.after.bell (x.after.activity? x.task) := by
  obtain ⟨a, s, ha, hs, hafter, -⟩ := World.step_eq_some h
  refine ⟨a, ha, ?_⟩
  rw [Move.wake?, ha, hafter, World.activity?_after_self _ _ _ (World.lt_of_activity? ha)]
  exact Activity.step_heeds hs

/-! ## Those that the bell knows of -/

/-- Those that the bell knows of are loops that wait, each once. -/
structure World.Attended (w : World) : Prop where
  nodup : w.bell.tasks.Nodup
  waiting : ∀ t ∈ w.bell.tasks, ∃ tick, w.activity? t = some (.refreshLoop (.waiting tick))

namespace World

variable {w w' : World} {out : Outside} {t u : TaskId} {res : Option Result} {a : Activity}

/-- What another task does after a step: what it did before, or something that was just asked
for. -/
theorem activity?_step_of_ne (h : w.step out t = some (w', res)) (hu : u ≠ t) :
    w'.activity? u = w.activity? u ∨
      w.activity? u = none ∧ ∃ p : Spawn, w'.activity? u = some p.activity := by
  obtain ⟨a, s, ha, -, rfl, -⟩ := step_eq_some h
  rw [activity?_after _ _ _ (lt_of_activity? ha), if_neg hu]
  split
  · exact .inl rfl
  · rename_i hlt
    rw [activity?_of_le (Nat.le_of_not_lt hlt)]
    cases hn : (s.spawns.map Spawn.activity)[u - w.tasks.length]? with
    | none => exact .inl rfl
    | some a =>
      obtain ⟨p, -, rfl⟩ := List.mem_map.1 (List.mem_of_getElem? hn)
      exact .inr ⟨rfl, p, rfl⟩

/-- Another loop waits, or makes a run, after a step if it did so before. -/
theorem refreshLoop_step_of_ne (h : w.step out t = some (w', res)) (hu : u ≠ t) {l : RefreshLoop}
    (hl : l ≠ .start) :
    w'.activity? u = some (.refreshLoop l) ↔ w.activity? u = some (.refreshLoop l) := by
  rcases activity?_step_of_ne h hu with heq | ⟨hnone, p, hp⟩
  · rw [heq]
  · rw [hnone, hp]
    refine iff_of_false (fun heq => ?_) fun heq => by cases heq
    cases p with
    | refreshLoop =>
      cases heq
      exact hl rfl
    | closing | metric | retentionLoop => cases heq

namespace Attended

theorem not_mem (h : w.Attended) (ha : w.activity? t = some a)
    (hne : ∀ tick, a ≠ .refreshLoop (.waiting tick)) : t ∉ w.bell.tasks := by
  intro ht
  obtain ⟨tick, hwaiting⟩ := h.waiting t ht
  exact hne tick (Option.some.inj (ha.symm.trans hwaiting))

theorem of_perm (h : w.Attended) (hperm : w'.bell.tasks.Perm w.bell.tasks)
    (hact : ∀ t tick, w.activity? t = some (.refreshLoop (.waiting tick)) →
      w'.activity? t = some (.refreshLoop (.waiting tick))) : w'.Attended where
  nodup := hperm.nodup_iff.2 h.nodup
  waiting t ht := by
    obtain ⟨tick, hwaiting⟩ := h.waiting t (hperm.mem_iff.1 ht)
    exact ⟨tick, hact t tick hwaiting⟩

/-- **The bell knows of loops that wait after a step as well.** -/
theorem step {x : Move} (h : x.before.Attended)
    (hstep : x.before.step x.outside x.task = some (x.after, x.result)) : x.after.Attended := by
  obtain ⟨a, ha, hheeds⟩ := Move.heeds hstep
  have hother : ∀ {u tick}, u ≠ x.task →
      x.before.activity? u = some (.refreshLoop (.waiting tick)) →
      x.after.activity? u = some (.refreshLoop (.waiting tick)) := fun hu hwaiting =>
    (refreshLoop_step_of_ne hstep hu RefreshLoop.noConfusion).2 hwaiting
  -- the task is not among those that the bell knows of
  have hapart : (∀ tick, a ≠ .refreshLoop (.waiting tick)) →
      x.after.bell.tasks = x.before.bell.tasks → x.after.Attended := by
    intro hne hsame
    refine ⟨hsame ▸ h.nodup, fun u hu => ?_⟩
    rw [hsame] at hu
    obtain ⟨tick, hwaiting⟩ := h.waiting u hu
    exact ⟨tick, hother (fun heq => h.not_mem ha hne (heq ▸ hu)) hwaiting⟩
  -- the task is not among them any more
  have herase : x.after.bell.tasks.Perm (x.before.bell.tasks.erase x.task) → x.after.Attended := by
    intro hperm
    refine ⟨hperm.nodup_iff.2 (h.nodup.erase x.task), fun u hu => ?_⟩
    obtain ⟨hut, hu⟩ := h.nodup.mem_erase_iff.1 (hperm.mem_iff.1 hu)
    obtain ⟨tick, hwaiting⟩ := h.waiting u hu
    exact ⟨tick, hother hut hwaiting⟩
  generalize hb : x.after.bell = b at hheeds hapart herase
  generalize ha' : x.after.activity? x.task = a' at hheeds
  generalize Move.wake? _ = v at hheeds
  cases hheeds with
  | aside hno => exact hapart (fun tick => hno _) rfl
  | work hne => exact hapart (fun tick heq => hne tick (Activity.refreshLoop.inj heq)) rfl
  | take | pass => exact hapart (fun tick heq => by cases heq) rfl
  | listen =>
    have hperm := Bell.tasks_listen x.before.bell x.task
    have hnot : x.task ∉ x.before.bell.tasks := h.not_mem ha fun tick heq => by cases heq
    rw [← hb] at hperm
    refine ⟨hperm.nodup_iff.2 (List.nodup_cons.2 ⟨hnot, h.nodup⟩), fun u hu => ?_⟩
    rcases List.mem_cons.1 (hperm.mem_iff.1 hu) with rfl | hu
    · exact ⟨_, ha'⟩
    · obtain ⟨tick, hwaiting⟩ := h.waiting u hu
      exact ⟨tick, hother (fun heq => hnot (heq ▸ hu)) hwaiting⟩
  | notice hwoken => exact herase (.of_eq (Bell.tasks_notice h.nodup hwoken))
  | leave => exact herase (Bell.tasks_leave h.nodup x.task)

end Attended

end World

/-! ## Rings that are not answered -/

/-- The last wake that a task has noticed. -/
def lastWake? (t : TaskId) (os : List Occurrence) : Option Wake :=
  (((movesOf os).filter fun x => x.task = t).filterMap Move.wake?).getLast?

theorem lastWake?_concat (t : TaskId) (os : List Occurrence) (x : Move) :
    lastWake? t (os ++ [Occurrence.move x]) =
      if x.task = t then x.wake?.or (lastWake? t os) else lastWake? t os := by
  have hmoves : movesOf (os ++ [Occurrence.move x]) = movesOf os ++ [x] := movesOf_append os _
  rw [lastWake?, hmoves, List.filter_append, List.filterMap_append, List.getLast?_append]
  by_cases ht : x.task = t
  · rw [if_pos ht, lastWake?]
    congr 1
    cases hx : x.wake? <;> simp [ht, hx]
  · rw [if_neg ht, lastWake?]
    simp [ht]

theorem lastWake?_concat_of_none {t : TaskId} {os : List Occurrence} {o : Occurrence}
    (h : o.move? = none) : lastWake? t (os ++ [o]) = lastWake? t os := by
  rw [lastWake?, movesOf_append, movesOf_singleton_of_none h, List.append_nil, lastWake?]

/-- Whether a task has a ring in hand: a loop that was woken by one, or is about to make a run for
one. -/
def Activity.isRung (b : Bell) (last? : Option Wake) (t : TaskId) : Activity → Bool
  | refreshLoop (.waiting _) => b.woken.contains t
  | refreshLoop (.running _ .start) => last? == some .ring
  | _ => false

/-- Whether a task is a loop that runs batches. -/
def Activity.isLoop : Activity → Bool
  | refreshLoop _ => true
  | _ => false

/-- The tasks that have a ring in hand. -/
def World.rung (w : World) (os : List Occurrence) : Finset TaskId :=
  {t ∈ Finset.range w.tasks.length |
    (w.activity? t).any (Activity.isRung w.bell (lastWake? t os) t)}

/-- How many rings are not answered: the one that is kept, and those that tasks have in hand. -/
def World.pending (w : World) (os : List Occurrence) : Nat :=
  w.bell.kept.toNat + (w.rung os).card

/-- Whether a step is the run that a loop makes for a ring. -/
def Move.answers (x : Move) (os : List Occurrence) : Bool :=
  match x.before.activity? x.task with
  | some (.refreshLoop (.running _ .start)) => lastWake? x.task os == some .ring
  | _ => false

theorem Move.answers_iff {x : Move} {os : List Occurrence} : x.answers os = true ↔
    ∃ tick, x.before.activity? x.task = some (.refreshLoop (.running tick .start)) ∧
      lastWake? x.task os = some .ring := by
  unfold answers
  split
  · rename_i tick ha
    rw [ha, beq_iff_eq]
    exact ⟨fun h => ⟨tick, rfl, h⟩, fun ⟨_, _, h⟩ => h⟩
  · rename_i hne
    refine iff_of_false Bool.false_ne_true ?_
    rintro ⟨tick, ha, -⟩
    exact hne tick ha

namespace World

variable {os os' : List Occurrence} {w w' : World} {out : Outside} {t u : TaskId}
  {res : Option Result} {a : Activity}

theorem mem_rung : t ∈ w.rung os ↔
    (∃ tick, w.activity? t = some (.refreshLoop (.waiting tick)) ∧ t ∈ w.bell.woken) ∨
    ∃ tick, w.activity? t = some (.refreshLoop (.running tick .start)) ∧
      lastWake? t os = some .ring := by
  rw [rung, Finset.mem_filter, Finset.mem_range]
  constructor
  · rintro ⟨-, h⟩
    obtain ⟨a, ha, h⟩ := (Option.any_eq_true _ _).1 h
    unfold Activity.isRung at h
    split at h
    · exact .inl ⟨_, ha, List.contains_iff_mem.1 h⟩
    · exact .inr ⟨_, ha, eq_of_beq h⟩
    · cases h
  · rintro (⟨tick, ha, hwoken⟩ | ⟨tick, ha, hlast⟩)
    · refine ⟨lt_of_activity? ha, ?_⟩
      rw [ha]
      exact List.contains_iff_mem.2 hwoken
    · refine ⟨lt_of_activity? ha, ?_⟩
      rw [ha, hlast]
      rfl

theorem not_mem_rung
    (hwaiting : ∀ tick, w.activity? t = some (.refreshLoop (.waiting tick)) → t ∉ w.bell.woken)
    (hrunning : ∀ tick, w.activity? t = some (.refreshLoop (.running tick .start)) →
      lastWake? t os ≠ some .ring) : t ∉ w.rung os := by
  rw [mem_rung]
  rintro (⟨tick, ha, hwoken⟩ | ⟨tick, ha, hlast⟩)
  · exact hwaiting tick ha hwoken
  · exact hrunning tick ha hlast

/-- Whether a task has a ring in hand is up to what the loop does, to the bell and to the wake that
was noticed. -/
theorem mem_rung_congr
    (hact : ∀ {l}, l ≠ RefreshLoop.start →
      (w'.activity? t = some (.refreshLoop l) ↔ w.activity? t = some (.refreshLoop l)))
    (hwoken : t ∈ w'.bell.woken ↔ t ∈ w.bell.woken)
    (hlast : lastWake? t os' = lastWake? t os) : t ∈ w'.rung os' ↔ t ∈ w.rung os := by
  rw [mem_rung, mem_rung, hlast, hwoken]
  refine or_congr (exists_congr fun tick => ?_) (exists_congr fun tick => ?_)
  · rw [hact RefreshLoop.noConfusion]
  · rw [hact RefreshLoop.noConfusion]

/-- Who listens has no ring in hand. -/
theorem Attended.not_mem_rung_of_listening (h : w.Attended) (ht : t ∈ w.bell.listening) :
    t ∉ w.rung os := by
  obtain ⟨tick, ha⟩ := h.waiting t (List.mem_append_left _ ht)
  refine not_mem_rung (fun _ _ => List.disjoint_of_nodup_append h.nodup ht) fun tick' ha' => ?_
  rw [ha] at ha'
  cases ha'

/-- What becomes of the rings that are not answered with a step: one of them less, if the step
answers it, and else still some if there were. -/
inductive Heeding (os : List Occurrence) (x : Move) : Prop
  | answered : x.answers os = true →
    x.after.pending (os ++ [Occurrence.move x]) + 1 = x.before.pending os → Heeding os x
  | kept : x.answers os = false →
    x.after.pending (os ++ [Occurrence.move x]) ≤ x.before.pending os →
    (0 < x.before.pending os → 0 < x.after.pending (os ++ [Occurrence.move x])) → Heeding os x

theorem Heeding.of_eq {x : Move} (hans : x.answers os = false)
    (h : x.after.pending (os ++ [Occurrence.move x]) = x.before.pending os) : Heeding os x :=
  .kept hans (Nat.le_of_eq h) fun hpos => h ▸ hpos

section Step

variable {x : Move} (hstep : x.before.step x.outside x.task = some (x.after, x.result))

include hstep

theorem mem_rung_step_of_ne (hu : u ≠ x.task)
    (hwoken : u ∈ x.after.bell.woken ↔ u ∈ x.before.bell.woken) :
    u ∈ x.after.rung (os ++ [Occurrence.move x]) ↔ u ∈ x.before.rung os := by
  refine mem_rung_congr (fun hl => refreshLoop_step_of_ne hstep hu hl) hwoken ?_
  rw [lastWake?_concat, if_neg (Ne.symm hu)]

/-- A step of a task that then has no ring in hand. -/
theorem rung_step_of_erase
    (hwoken : ∀ u, u ≠ x.task → (u ∈ x.after.bell.woken ↔ u ∈ x.before.bell.woken))
    (hself : x.task ∉ x.after.rung (os ++ [Occurrence.move x])) :
    x.after.rung (os ++ [Occurrence.move x]) = (x.before.rung os).erase x.task := by
  ext u
  rw [Finset.mem_erase]
  by_cases hu : u = x.task
  · rw [hu]
    exact iff_of_false hself fun h => h.1 rfl
  · rw [mem_rung_step_of_ne hstep hu (hwoken u hu)]
    exact (and_iff_right hu).symm

/-- A step of a task that hands its ring on. -/
theorem rung_step_of_insert (hu : u ≠ x.task)
    (hwoken : ∀ v, v ≠ x.task → (v ∈ x.after.bell.woken ↔ v ∈ x.before.bell.woken ∨ v = u))
    (hself : x.task ∉ x.after.rung (os ++ [Occurrence.move x]))
    (hin : u ∈ x.after.rung (os ++ [Occurrence.move x])) :
    x.after.rung (os ++ [Occurrence.move x]) = insert u ((x.before.rung os).erase x.task) := by
  ext v
  rw [Finset.mem_insert, Finset.mem_erase]
  by_cases hv : v = x.task
  · rw [hv]
    exact iff_of_false hself fun h => h.elim (fun heq => hu heq.symm) fun h => h.1 rfl
  · by_cases hvu : v = u
    · rw [hvu]
      exact iff_of_true hin (.inl rfl)
    · have hsame : v ∈ x.after.bell.woken ↔ v ∈ x.before.bell.woken :=
        (hwoken v hv).trans (or_iff_left hvu)
      rw [mem_rung_step_of_ne hstep hv hsame]
      simp [hv, hvu]

/-- A step that leaves it as it is which rings are kept and in hand. -/
theorem heeding_of_same (hans : x.answers os = false)
    (hkept : x.after.bell.kept = x.before.bell.kept)
    (hwoken : ∀ u, u ≠ x.task → (u ∈ x.after.bell.woken ↔ u ∈ x.before.bell.woken))
    (hself : x.task ∈ x.after.rung (os ++ [Occurrence.move x]) ↔ x.task ∈ x.before.rung os) :
    Heeding os x := by
  have hrung : x.after.rung (os ++ [Occurrence.move x]) = x.before.rung os := by
    ext u
    by_cases hu : u = x.task
    · rw [hu, hself]
    · exact mem_rung_step_of_ne hstep hu (hwoken u hu)
  exact .of_eq hans (by rw [pending, pending, hkept, hrung])

/-- A loop makes the run for its ring. -/
theorem heeding_of_answers (hans : x.answers os = true) (hbell : x.after.bell = x.before.bell)
    (hself : x.task ∉ x.after.rung (os ++ [Occurrence.move x])) : Heeding os x := by
  obtain ⟨tick, ha, hring⟩ := Move.answers_iff.1 hans
  have hrung : x.task ∈ x.before.rung os := mem_rung.2 (.inr ⟨tick, ha, hring⟩)
  have herased := rung_step_of_erase hstep (fun _ _ => by rw [hbell]) hself
  refine .answered hans ?_
  rw [pending, pending, hbell, herased, Nat.add_assoc, Finset.card_erase_add_one hrung]

/-- A loop takes the ring that is kept. -/
theorem heeding_of_take (hans : x.answers os = false) (hkept : x.before.bell.kept = true)
    (hbell : x.after.bell = { x.before.bell with kept := false })
    (hnot : x.task ∉ x.before.rung os)
    (hself : x.task ∈ x.after.rung (os ++ [Occurrence.move x])) : Heeding os x := by
  have hrung : x.after.rung (os ++ [Occurrence.move x]) = insert x.task (x.before.rung os) := by
    ext u
    rw [Finset.mem_insert]
    by_cases hu : u = x.task
    · rw [hu]
      exact iff_of_true hself (.inl rfl)
    · rw [mem_rung_step_of_ne hstep hu (by rw [hbell])]
      exact (or_iff_right hu).symm
  refine .of_eq hans ?_
  rw [pending, pending, hrung, Finset.card_insert_of_notMem hnot, hbell, hkept]
  exact (Nat.zero_add _).trans (Nat.add_comm ..)

/-- A loop that turns away hands its ring on, or has it kept. -/
theorem Attended.heeding_of_leave (h : x.before.Attended) (hans : x.answers os = false)
    {tick : Nat}
    (ha : x.before.activity? x.task = some (.refreshLoop (.waiting tick)))
    (hbell : x.after.bell = x.before.bell.leave x.task)
    (hself : x.task ∉ x.after.rung (os ++ [Occurrence.move x])) : Heeding os x := by
  by_cases ht : x.task ∈ x.before.bell.woken
  · have hrung : x.task ∈ x.before.rung os := mem_rung.2 (.inl ⟨tick, ha, ht⟩)
    have hcard := Finset.card_erase_add_one hrung
    have hring : x.after.bell = (x.before.bell.notice x.task).ring := by
      rw [hbell, Bell.leave, if_pos (List.contains_iff_mem.2 ht)]
    have herase : ∀ v, v ≠ x.task →
        (v ∈ (x.before.bell.notice x.task).woken ↔ v ∈ x.before.bell.woken) :=
      fun v hv => List.mem_erase_of_ne hv
    obtain ⟨hkept, hwoken⟩ | ⟨u, hu, hkept, hwoken⟩ := (x.before.bell.notice x.task).ring_cases
    · rw [← hring] at hkept hwoken
      have herased := rung_step_of_erase hstep (fun v hv => by rw [hwoken, herase v hv]) hself
      have hpending : x.after.pending (os ++ [Occurrence.move x]) =
          1 + ((x.before.rung os).erase x.task).card := by
        rw [pending, hkept, herased, Bool.toNat_true]
      have hle : 1 + ((x.before.rung os).erase x.task).card ≤ x.before.pending os := by
        rw [pending]
        omega
      exact .kept hans (hpending.trans_le hle) fun _ => hpending ▸ Nat.add_pos_left Nat.one_pos _
    · rw [← hring] at hkept hwoken
      have hut : u ≠ x.task := fun heq => List.disjoint_of_nodup_append h.nodup (heq ▸ hu) ht
      obtain ⟨tick', hu'⟩ := h.waiting u (List.mem_append_left _ hu)
      have hin : u ∈ x.after.rung (os ++ [Occurrence.move x]) := by
        refine mem_rung.2 (.inl ⟨tick', ?_, ?_⟩)
        · exact (refreshLoop_step_of_ne hstep hut RefreshLoop.noConfusion).2 hu'
        · rw [hwoken]
          exact List.mem_append_right _ (List.mem_singleton_self u)
      have hinserted := rung_step_of_insert hstep hut (fun v hv => by
        rw [hwoken, List.mem_append, herase v hv, List.mem_singleton]) hself hin
      have hnot : u ∉ (x.before.rung os).erase x.task := fun hmem =>
        h.not_mem_rung_of_listening hu (Finset.mem_of_mem_erase hmem)
      refine .of_eq hans ?_
      rw [pending, pending, hkept, hinserted, Finset.card_insert_of_notMem hnot, hcard]
      rfl
  · have hleave : x.after.bell =
        { x.before.bell with listening := x.before.bell.listening.erase x.task } := by
      rw [hbell, Bell.leave, if_neg fun hin => ht (List.contains_iff_mem.1 hin)]
    have hnot : x.task ∉ x.before.rung os := by
      refine not_mem_rung (fun _ _ => ht) fun tick' ha' => ?_
      rw [ha] at ha'
      cases ha'
    exact heeding_of_same hstep hans (congrArg Bell.kept hleave :) (fun _ _ => by rw [hleave])
      (iff_of_false hself hnot)

/-- **No ring is lost with a step**, but the one that the step answers. -/
theorem Attended.heeding (h : x.before.Attended) (os : List Occurrence) : Heeding os x := by
  obtain ⟨a, ha, hheeds⟩ := Move.heeds hstep
  have hlast : lastWake? x.task (os ++ [Occurrence.move x]) = x.wake?.or (lastWake? x.task os) := by
    rw [lastWake?_concat, if_pos rfl]
  have hans : (∀ tick, a ≠ .refreshLoop (.running tick .start)) → x.answers os = false := by
    intro hne
    refine Bool.eq_false_iff.2 fun hans => ?_
    obtain ⟨tick, ha', -⟩ := Move.answers_iff.1 hans
    exact hne tick (Option.some.inj (ha.symm.trans ha'))
  have hbefore : (∀ tick, a ≠ .refreshLoop (.waiting tick)) →
      (∀ tick, a = .refreshLoop (.running tick .start) → lastWake? x.task os ≠ some .ring) →
      x.task ∉ x.before.rung os := fun hwaiting hrunning =>
    not_mem_rung (fun tick ha' => absurd (Option.some.inj (ha.symm.trans ha')) (hwaiting tick))
      fun tick ha' => hrunning tick (Option.some.inj (ha.symm.trans ha'))
  have hafter : (∀ tick, x.after.activity? x.task ≠ some (.refreshLoop (.waiting tick))) →
      (∀ tick, x.after.activity? x.task = some (.refreshLoop (.running tick .start)) →
        x.wake?.or (lastWake? x.task os) ≠ some .ring) →
      x.task ∉ x.after.rung (os ++ [Occurrence.move x]) := fun hwaiting hrunning =>
    not_mem_rung (fun tick ha' => absurd ha' (hwaiting tick)) fun tick ha' =>
      hlast ▸ hrunning tick ha'
  generalize hb : x.after.bell = b at hheeds
  generalize ha' : x.after.activity? x.task = a' at hheeds hafter
  generalize Move.wake? _ = v at hheeds hafter hlast
  cases hheeds with
  | aside hno hno' =>
    have hself := hafter (fun tick => hno' _) fun tick heq => absurd heq (hno' _)
    have hnot := hbefore (fun tick => hno _) fun tick heq => absurd heq (hno _)
    exact heeding_of_same hstep (hans fun tick => hno _) (congrArg Bell.kept hb :)
      (fun _ _ => by rw [hb]) (iff_of_false hself hnot)
  | work hwaiting hwaiting' hrunning' =>
    have hself := hafter hwaiting' fun tick heq => absurd heq (hrunning' tick)
    cases hanswers : x.answers os with
    | true => exact heeding_of_answers hstep hanswers hb hself
    | false =>
      have hnot : x.task ∉ x.before.rung os := by
        refine hbefore (fun tick heq => hwaiting tick (Activity.refreshLoop.inj heq)) ?_
        intro tick heq hring
        rw [Move.answers_iff.2 ⟨tick, heq ▸ ha, hring⟩] at hanswers
        cases hanswers
      exact heeding_of_same hstep hanswers (congrArg Bell.kept hb :) (fun _ _ => by rw [hb])
        (iff_of_false hself hnot)
  | listen =>
    have hwoken : x.task ∉ x.after.bell.woken := by
      rw [hb]
      exact fun hin => h.not_mem ha (fun tick heq => by cases heq) (List.mem_append_right _ hin)
    have hself : x.task ∉ x.after.rung (os ++ [Occurrence.move x]) := by
      refine not_mem_rung (fun _ _ => hwoken) fun tick heq => ?_
      rw [ha'] at heq
      cases heq
    have hnot := hbefore (fun tick heq => by cases heq) fun tick heq => by cases heq
    exact heeding_of_same hstep (hans fun tick heq => by cases heq) (congrArg Bell.kept hb :)
      (fun _ _ => by rw [hb]; rfl) (iff_of_false hself hnot)
  | @take tick hkept =>
    have hnot := hbefore (fun tick heq => by cases heq) fun tick heq => by cases heq
    exact heeding_of_take hstep (hans fun tick heq => by cases heq) hkept hb hnot
      (mem_rung.2 (.inr ⟨tick, ha', hlast⟩))
  | pass hne hwaiting' =>
    have hself := hafter hwaiting' fun tick _ hring => hne (Option.some.inj hring)
    have hnot := hbefore (fun tick heq => by cases heq) fun tick heq => by cases heq
    exact heeding_of_same hstep (hans fun tick heq => by cases heq) (congrArg Bell.kept hb :)
      (fun _ _ => by rw [hb]) (iff_of_false hself hnot)
  | @notice tick hwoken =>
    have hself := mem_rung.2 (.inr ⟨tick, ha', hlast⟩)
    have hin : x.task ∈ x.before.rung os := mem_rung.2 (.inl ⟨tick, ha, hwoken⟩)
    refine heeding_of_same hstep (hans fun tick heq => by cases heq) (congrArg Bell.kept hb :)
      (fun u hu => ?_) (iff_of_true hself hin)
    rw [hb]
    exact List.mem_erase_of_ne hu
  | leave hne hwaiting' =>
    have hself := hafter hwaiting' fun tick _ hring => hne (Option.some.inj hring)
    exact h.heeding_of_leave hstep (hans fun tick heq => by cases heq) ha hb hself

end Step

/-! ### What is no step -/

/-- The bell and the loops that have begun are the same in both worlds. -/
structure SameLoops (w w' : World) : Prop where
  bell : w'.bell = w.bell
  activity? : ∀ t {l}, l ≠ RefreshLoop.start →
    (w'.activity? t = some (.refreshLoop l) ↔ w.activity? t = some (.refreshLoop l))

namespace SameLoops

theorem trans {w₁ w₂ w₃ : World} (h : w₁.SameLoops w₂) (h' : w₂.SameLoops w₃) :
    w₁.SameLoops w₃ :=
  ⟨h'.bell.trans h.bell, fun t _ hl => (h'.activity? t hl).trans (h.activity? t hl)⟩

theorem spawn (w : World) (ha : a.isEntry = true) : w.SameLoops (w.spawn [a]) where
  bell := rfl
  activity? t l hl := by
    rw [activity?_spawn]
    split
    · rename_i ht
      rw [activity?_of_le (Nat.le_of_eq ht.symm)]
      refine iff_of_false (fun heq => ?_) fun heq => by cases heq
      obtain rfl := Option.some.inj heq
      cases l with
      | start => exact hl rfl
      | looking | waiting | running => cases ha
    · exact .rfl

theorem startLoops (w : World) (out : Outside) : w.SameLoops (w.startLoops out) := by
  have hengine : w.SameLoops { w with engine := (w.engine.startLoops (w.outside out)).1 } :=
    ⟨rfl, fun _ _ _ => .rfl⟩
  rw [startLoops_eq]
  exact (hengine.trans (.spawn _ rfl)).trans (.spawn _ rfl)

theorem attended (h : w.SameLoops w') (hw : w.Attended) : w'.Attended :=
  hw.of_perm (.of_eq (congrArg Bell.tasks h.bell)) fun t _ =>
    (h.activity? t RefreshLoop.noConfusion).2

theorem rung_eq (h : w.SameLoops w') (hlast : ∀ t, lastWake? t os' = lastWake? t os) :
    w'.rung os' = w.rung os := by
  ext t
  exact mem_rung_congr (h.activity? t) (by rw [h.bell]) (hlast t)

theorem pending_eq (h : w.SameLoops w') (hlast : ∀ t, lastWake? t os' = lastWake? t os) :
    w'.pending os' = w.pending os := by
  rw [pending, pending, h.bell, h.rung_eq hlast]

end SameLoops

/-- The world after somebody has asked for a batch. -/
def trigger (w : World) : World := { w with engine := w.engine.trigger }

theorem Attended.trigger (h : w.Attended) : w.trigger.Attended :=
  h.of_perm (Bell.tasks_ring w.bell) fun _ _ => id

/-- A trigger adds a ring at most, and then there is one. -/
theorem Attended.pending_trigger (h : w.Attended) (os : List Occurrence) :
    w.trigger.pending (os ++ [Occurrence.trigger]) ≤ w.pending os + 1 ∧
      0 < w.trigger.pending (os ++ [Occurrence.trigger]) := by
  have hsame : ∀ u, (u ∈ w.trigger.bell.woken ↔ u ∈ w.bell.woken) →
      (u ∈ w.trigger.rung (os ++ [Occurrence.trigger]) ↔ u ∈ w.rung os) := fun u hwoken =>
    mem_rung_congr (fun _ => .rfl) hwoken (lastWake?_concat_of_none rfl)
  obtain ⟨hkept, hwoken⟩ | ⟨u, hu, hkept, hwoken⟩ := w.bell.ring_cases
  · have hrung : w.trigger.rung (os ++ [Occurrence.trigger]) = w.rung os := by
      ext u
      exact hsame u (by rw [← hwoken]; rfl)
    have hkept' : w.trigger.bell.kept = true := hkept
    rw [pending, pending, hrung, hkept', Bool.toNat_true]
    omega
  · obtain ⟨tick, hwaiting⟩ := h.waiting u (List.mem_append_left _ hu)
    have hin : u ∈ w.trigger.rung (os ++ [Occurrence.trigger]) := by
      refine mem_rung.2 (.inl ⟨tick, hwaiting, ?_⟩)
      have hmem : u ∈ w.bell.woken ++ [u] := List.mem_append_right _ (List.mem_singleton_self u)
      rw [← hwoken] at hmem
      exact hmem
    have hsub : w.trigger.rung (os ++ [Occurrence.trigger]) ⊆ insert u (w.rung os) := by
      intro v hv
      rw [Finset.mem_insert]
      by_cases hvu : v = u
      · exact .inl hvu
      · refine .inr ((hsame v ?_).1 hv)
        have hiff : v ∈ w.bell.ring.woken ↔ v ∈ w.bell.woken := by
          rw [hwoken, List.mem_append, List.mem_singleton, or_iff_left hvu]
        exact hiff
    have hle : (w.trigger.rung (os ++ [Occurrence.trigger])).card ≤ (w.rung os).card + 1 :=
      (Finset.card_le_card hsub).trans (Finset.card_insert_le u _)
    have hpos : 0 < (w.trigger.rung (os ++ [Occurrence.trigger])).card := Finset.card_pos.2 ⟨u, hin⟩
    have hkept' : w.trigger.bell.kept = w.bell.kept := hkept
    rw [pending, pending, hkept']
    omega

/-- The tasks that are loops. -/
def loops (w : World) : Finset TaskId :=
  {t ∈ Finset.range w.tasks.length | (w.activity? t).any Activity.isLoop}

/-- Who has a ring in hand is a loop, and not at a run that has begun. -/
theorem rung_subset_loops {r : RunOnce} (hr : w.run? t = some r) (hne : r ≠ .start) :
    w.rung os ⊆ w.loops.erase t := by
  intro u hu
  have hrun : w.run? u = none ∨ w.run? u = some .start := by
    rcases mem_rung.1 hu with ⟨tick, ha, -⟩ | ⟨tick, ha, -⟩
    · exact .inl (by rw [run?, ha]; rfl)
    · exact .inr (by rw [run?, ha]; rfl)
  refine Finset.mem_erase.2 ⟨?_, ?_⟩
  · rintro rfl
    rw [hr] at hrun
    simp [hne] at hrun
  · rw [loops, Finset.mem_filter]
    rcases mem_rung.1 hu with ⟨tick, ha, -⟩ | ⟨tick, ha, -⟩
    · exact ⟨Finset.mem_range.2 (lt_of_activity? ha), by rw [ha]; rfl⟩
    · exact ⟨Finset.mem_range.2 (lt_of_activity? ha), by rw [ha]; rfl⟩

end World

/-! ## Triggers and batches -/

namespace Occurrence

/-- Whether somebody asks for a batch. -/
def isTrigger : Occurrence → Bool
  | trigger => true
  | _ => false

/-- Whether a batch begins: a run is made that is not turned away. -/
def enters : Occurrence → Bool
  | move x => x.before.run? x.task == some .start && (x.after.run? x.task).isSome
  | _ => false

/-- Whether a batch begins for a ring. -/
def follows (ps : List Occurrence) : Occurrence → Bool
  | move x => x.answers ps && (x.after.run? x.task).isSome
  | _ => false

end Occurrence

/-- Whether somebody has asked for a batch since the last one began. -/
def unanswered (os : List Occurrence) : Bool :=
  (os.filter fun o => o.isTrigger || o.enters).getLast?.any Occurrence.isTrigger

/-- A ring was lost: the run that a loop made for it was turned away, as another one was in
progress, and since then nobody has asked for a batch and none has begun. -/
def Swallowed (os : List Occurrence) : Prop :=
  ∃ (ys : List Occurrence) (x : Move) (zs : List Occurrence), os = ys ++ .move x :: zs ∧
    unanswered ys = true ∧ x.answers ys = true ∧ x.after.run? x.task = none ∧
    (∃ u, u ≠ x.task ∧ x.before.inProgress u = true) ∧
    ∀ o ∈ zs, o.isTrigger = false ∧ o.enters = false

/-- How many batches have begun for rings, after what had happened before. -/
def followUps (ps : List Occurrence) : List Occurrence → Nat
  | [] => 0
  | o :: qs => (o.follows ps).toNat + followUps (ps ++ [o]) qs

section Occurrences

variable {ps qs os : List Occurrence} {o : Occurrence} {x : Move}

theorem unanswered_concat_of_trigger (ho : o.isTrigger = true) :
    unanswered (os ++ [o]) = true := by
  rw [unanswered, List.filter_append, List.filter_cons_of_pos (by simp [ho]), List.filter_nil,
    List.getLast?_concat]
  exact ho

theorem unanswered_concat_of_enters (ho : o.enters = true) : unanswered (os ++ [o]) = false := by
  rw [unanswered, List.filter_append, List.filter_cons_of_pos (by simp [ho]), List.filter_nil,
    List.getLast?_concat]
  cases o with
  | move x => rfl
  | trigger | fire => cases ho

theorem unanswered_append (hqs : ∀ o ∈ qs, o.isTrigger = false ∧ o.enters = false) :
    unanswered (os ++ qs) = unanswered os := by
  have hnil : qs.filter (fun o => o.isTrigger || o.enters) = [] := by
    refine List.filter_eq_nil_iff.2 fun o ho => ?_
    simp [hqs o ho]
  rw [unanswered, List.filter_append, hnil, List.append_nil, unanswered]

theorem unanswered_concat (ho : o.isTrigger = false ∧ o.enters = false) :
    unanswered (os ++ [o]) = unanswered os :=
  unanswered_append fun _ ho' => List.mem_singleton.1 ho' ▸ ho

/-- A trigger is not answered if no batch has begun since. -/
theorem unanswered_iff :
    unanswered os = true ↔ ∃ ps qs : List Occurrence,
      os = ps ++ Occurrence.trigger :: qs ∧ ∀ o ∈ qs, o.enters = false := by
  constructor
  · intro h
    induction os using List.reverseRecOn with
    | nil => cases h
    | append_singleton os o ih =>
      cases htrigger : o.isTrigger with
      | true =>
        cases o with
        | trigger => exact ⟨os, [], rfl, fun _ ho => by cases ho⟩
        | fire | move => cases htrigger
      | false =>
        cases henters : o.enters with
        | true =>
          rw [unanswered_concat_of_enters henters] at h
          cases h
        | false =>
          rw [unanswered_concat ⟨htrigger, henters⟩] at h
          obtain ⟨ps, qs, rfl, hqs⟩ := ih h
          refine ⟨ps, qs ++ [o], by rw [List.append_assoc, List.cons_append], fun o' ho' => ?_⟩
          rcases List.mem_append.1 ho' with hmem | hmem
          · exact hqs o' hmem
          · exact List.mem_singleton.1 hmem ▸ henters
  · rintro ⟨ps, qs, rfl, hqs⟩
    induction qs using List.reverseRecOn with
    | nil => exact unanswered_concat_of_trigger rfl
    | append_singleton qs o ih =>
      have hbefore := ih fun o' ho' => hqs o' (List.mem_append_left _ ho')
      rw [← List.cons_append, ← List.append_assoc]
      cases htrigger : o.isTrigger with
      | true => exact unanswered_concat_of_trigger htrigger
      | false =>
        have henters := hqs o (List.mem_append_right _ (List.mem_singleton_self o))
        rw [unanswered_concat ⟨htrigger, henters⟩]
        exact hbefore

namespace Swallowed

theorem concat (h : Swallowed os) (ho : o.isTrigger = false ∧ o.enters = false) :
    Swallowed (os ++ [o]) := by
  obtain ⟨ys, x, zs, rfl, hys, hans, hnone, hbusy, hzs⟩ := h
  refine ⟨ys, x, zs ++ [o], ?_, hys, hans, hnone, hbusy, fun o' ho' => ?_⟩
  · rw [List.append_assoc, List.cons_append]
  · rcases List.mem_append.1 ho' with hmem | hmem
    · exact hzs o' hmem
    · exact List.mem_singleton.1 hmem ▸ ho

theorem unanswered (h : Swallowed os) : unanswered os = true := by
  obtain ⟨ys, x, zs, rfl, hys, -, hnone, -, hzs⟩ := h
  rw [unanswered_append]
  · exact hys
  · intro o ho
    rcases List.mem_cons.1 ho with rfl | ho
    · exact ⟨rfl, by simp [Occurrence.enters, hnone]⟩
    · exact hzs o ho

end Swallowed

theorem Move.run?_of_answers (h : x.answers os = true) :
    x.before.run? x.task = some .start := by
  obtain ⟨tick, ha, -⟩ := answers_iff.1 h
  rw [World.run?, ha]
  rfl

theorem followUps_concat (ps qs : List Occurrence) (o : Occurrence) :
    followUps ps (qs ++ [o]) = followUps ps qs + (o.follows (ps ++ qs)).toNat := by
  induction qs generalizing ps with
  | nil =>
    rw [List.nil_append, List.append_nil, followUps, followUps, followUps, Nat.zero_add,
      Nat.add_zero]
  | cons p qs ih =>
    rw [List.cons_append, followUps, followUps, ih, List.append_assoc, List.singleton_append,
      Nat.add_assoc]

end Occurrences

/-- Whether a task is no loop, or one that waits. -/
def Activity.isResting : Activity → Bool
  | refreshLoop (.waiting _) => true
  | a => !a.isLoop

/-- Whether all loops wait and no ring is kept or still to be noticed. -/
def World.isResting (w : World) : Bool :=
  w.tasks.all (Option.all Activity.isResting) && !w.bell.kept && w.bell.woken.isEmpty

theorem World.pending_of_isResting {w : World} (h : w.isResting = true) (os : List Occurrence) :
    w.pending os = 0 := by
  simp only [isResting, Bool.and_eq_true, Bool.not_eq_true', List.all_eq_true] at h
  obtain ⟨⟨htasks, hkept⟩, hwoken⟩ := h
  have hrung : w.rung os = ∅ := by
    refine Finset.eq_empty_of_forall_notMem fun t => not_mem_rung (fun _ _ => ?_) ?_
    · rw [List.isEmpty_iff.1 hwoken]
      exact List.not_mem_nil
    · intro tick ha
      have hresting := htasks _ (List.mem_of_getElem? (Option.join_eq_some_iff.1 ha))
      cases hresting
  rw [pending, hrung, Finset.card_empty, hkept, Bool.toNat_false]

namespace Service

variable {os : List Occurrence} {w : World}

/-- What holds of the loops, of the bell and of what has happened. -/
theorem induction_loops {P : List Occurrence → World → Prop} (h : Service os w)
    (hidle : ∀ e : Engine, e.scheduler.IsNew → P [] ⟨e, []⟩)
    (hsame : ∀ os w w', World.SameLoops w w' → P os w → P os w')
    (hfire : ∀ (os : List Occurrence) w w' token, World.SameLoops w w' → P os w →
      P (os ++ [Occurrence.fire token]) w')
    (htrigger : ∀ (os : List Occurrence) w, Service os w → P os w →
      P (os ++ [Occurrence.trigger]) w.trigger)
    (hmove : ∀ (os : List Occurrence) (x : Move), Service os x.before →
      x.before.step x.outside x.task = some (x.after, x.result) → P os x.before →
      P (os ++ [Occurrence.move x]) x.after) : P os w := by
  induction h with
  | idle _ _ hnew => exact hidle _ hnew
  | @begin os w a _ ha ih => exact hsame _ _ _ (.spawn w ha) ih
  | @start os w out _ ih => exact hsame _ _ _ (.startLoops w out) ih
  | @change os w e _ _ he _ ih =>
    exact hsame _ w _ ⟨congrArg Scheduler.bell he, fun _ _ _ => .rfl⟩ ih
  | trigger h ih => exact htrigger _ _ h ih
  | @fire os w token _ ih => exact hfire _ w _ token ⟨rfl, fun _ _ _ => .rfl⟩ ih
  | @move os w w' t out res h hstep ih =>
    exact hmove os ⟨w, t, out, w', res⟩ h hstep ih

/-- **The bell knows of loops that wait all through the service.** -/
theorem attended (h : Service os w) : w.Attended := by
  refine h.induction_loops (P := fun _ w => w.Attended) ?_ ?_ ?_ ?_ ?_
  · intro e hnew
    have hbell : e.scheduler.bell = {} := by rw [hnew]
    have htasks : (World.mk e []).bell.tasks = [] := congrArg Bell.tasks hbell
    exact ⟨by rw [htasks]; exact List.nodup_nil, fun t ht => by rw [htasks] at ht; cases ht⟩
  · exact fun _ _ _ hsame ih => hsame.attended ih
  · exact fun _ _ _ _ hsame ih => hsame.attended ih
  · exact fun _ _ _ ih => ih.trigger
  · exact fun _ _ _ hstep ih => ih.step hstep

/-- **No trigger is lost but with a run that is turned away**: while a trigger is not answered,
some ring is not, unless the last one was lost. -/
theorem pending_or_swallowed (h : Service os w) :
    unanswered os = true → 0 < w.pending os ∨ Swallowed os := by
  refine h.induction_loops
    (P := fun os w => unanswered os = true → 0 < w.pending os ∨ Swallowed os) ?_ ?_ ?_ ?_ ?_
  · exact fun _ _ hun => absurd hun Bool.false_ne_true
  · intro os w w' hsame ih hun
    rw [hsame.pending_eq fun _ => rfl]
    exact ih hun
  · intro os w w' token hsame ih hun
    have hquiet : (Occurrence.fire token).isTrigger = false ∧
        (Occurrence.fire token).enters = false := ⟨rfl, rfl⟩
    rw [hsame.pending_eq fun _ => lastWake?_concat_of_none rfl]
    rw [unanswered_concat hquiet] at hun
    exact (ih hun).imp id fun hswallowed => hswallowed.concat hquiet
  · exact fun os w h _ _ => .inl (h.attended.pending_trigger os).2
  · intro os x h hstep ih hun
    cases henters : (Occurrence.move x).enters with
    | true =>
      rw [unanswered_concat_of_enters henters] at hun
      cases hun
    | false =>
      have hquiet : (Occurrence.move x).isTrigger = false ∧ (Occurrence.move x).enters = false :=
        ⟨rfl, henters⟩
      rw [unanswered_concat hquiet] at hun
      cases h.attended.heeding hstep os with
      | kept _ _ hpos => exact (ih hun).imp hpos fun hswallowed => hswallowed.concat hquiet
      | answered hans _ =>
        have hrun := Move.run?_of_answers hans
        rcases (h.move hstep).turned_away_or_enters (x := x) (by simp) hrun with
          ⟨hbusy, hnone, -⟩ | ⟨-, hsome⟩
        · exact .inr ⟨os, x, [], rfl, hun, hans, hnone, hbusy, fun _ ho => by cases ho⟩
        · simp [Occurrence.enters, hrun, hsome] at henters

/-- Each batch that has begun for a ring has answered one. -/
theorem followUps_add_pending_le (h : Service os w) {ps : List Occurrence} {x : Move} :
    ∀ qs, os = ps ++ .move x :: qs → followUps (ps ++ [Occurrence.move x]) qs + w.pending os ≤
      x.after.pending (ps ++ [Occurrence.move x]) + qs.countP Occurrence.isTrigger := by
  refine h.induction_loops (P := fun os w => ∀ qs, os = ps ++ .move x :: qs →
    followUps (ps ++ [Occurrence.move x]) qs + w.pending os ≤
      x.after.pending (ps ++ [Occurrence.move x]) + qs.countP Occurrence.isTrigger) ?_ ?_ ?_ ?_ ?_
  · intro _ _ qs hos
    simp at hos
  · intro os w w' hsame ih qs hos
    rw [hsame.pending_eq fun _ => rfl]
    exact ih qs hos
  · intro os w w' token hsame ih qs hos
    obtain ⟨-, hx, -⟩ | ⟨qs', rfl, hos'⟩ := eq_or_append_of_append_cons hos.symm
    · cases hx
    · rw [hsame.pending_eq fun _ => lastWake?_concat_of_none rfl, followUps_concat,
        List.countP_append]
      exact ih qs' hos'.symm
  · intro os w h ih qs hos
    obtain ⟨-, hx, -⟩ | ⟨qs', rfl, hos'⟩ := eq_or_append_of_append_cons hos.symm
    · cases hx
    · have hbefore := ih qs' hos'.symm
      have htrigger := (h.attended.pending_trigger os).1
      rw [followUps_concat, List.countP_append]
      simp only [Occurrence.follows, Bool.toNat_false, List.countP_singleton,
        Occurrence.isTrigger, if_true]
      omega
  · intro os y h hstep ih qs hos
    obtain ⟨rfl, hx, rfl⟩ | ⟨qs', rfl, hos'⟩ := eq_or_append_of_append_cons hos.symm
    · cases hx
      exact Nat.le_of_eq (Nat.zero_add _)
    · have hbefore := ih qs' hos'.symm
      have hps : ps ++ [Occurrence.move x] ++ qs' = os := by
        rw [List.append_assoc, List.singleton_append, hos']
      have hno : List.countP Occurrence.isTrigger [.move y] = 0 := rfl
      rw [followUps_concat, List.countP_append, hps, hno]
      cases h.attended.heeding hstep os with
      | kept hans hle _ =>
        have hnot : (Occurrence.move y).follows os = false := by
          rw [Occurrence.follows, hans, Bool.false_and]
        rw [hnot, Bool.toNat_false]
        omega
      | answered _ heq =>
        have hle := Bool.toNat_le ((Occurrence.move y).follows os)
        omega

/-- When a batch is over, only what the other loops have in hand and a ring that is kept are not
answered. -/
theorem pending_of_leaving {x : Move} (h : Service os x.before)
    (hstep : x.before.step x.outside x.task = some (x.after, x.result))
    {res : Ended (Option Report)} (hr : x.before.run? x.task = some (.leaving res)) :
    x.after.pending (os ++ [Occurrence.move x]) ≤ 1 + (x.before.loops.erase x.task).card := by
  have hheeding : World.Heeding os x := h.attended.heeding hstep os
  have hne : RunOnce.leaving res ≠ .start := RunOnce.noConfusion
  have hsub : x.before.rung os ⊆ x.before.loops.erase x.task := World.rung_subset_loops hr hne
  cases hheeding with
  | kept _ hle _ =>
    have hkept := Bool.toNat_le x.before.bell.kept
    have hcard := Finset.card_le_card hsub
    have hbound : x.before.pending os ≤ 1 + (x.before.loops.erase x.task).card := by
      rw [World.pending]
      exact Nat.add_le_add hkept hcard
    exact hle.trans hbound
  | answered hans _ =>
    rw [Move.run?_of_answers hans] at hr
    cases hr

/-- **A trigger is lost only with a run that is turned away.** While the loops rest, a trigger is
unanswered only if a ring was lost, that is, if the run that a loop made for it found another one in
progress. After a batch, rings lead to one more at most for each of the other loops and one for the
ring that is kept, however many triggers there were until then, and to one for each trigger
since. -/
theorem trigger_is_lost_only_while_busy (h : Service os w) :
    (w.isResting = true → (unanswered os = true ↔ Swallowed os)) ∧
      ∀ (ps : List Occurrence) (x : Move) (qs : List Occurrence) (res : Ended (Option Report)),
        os = ps ++ .move x :: qs → x.before.run? x.task = some (.leaving res) →
        followUps (ps ++ [Occurrence.move x]) qs ≤
          1 + (x.before.loops.erase x.task).card + qs.countP Occurrence.isTrigger := by
  constructor
  · intro hresting
    refine ⟨fun hun => ?_, Swallowed.unanswered⟩
    rcases h.pending_or_swallowed hun with hpos | hswallowed
    · rw [World.pending_of_isResting hresting] at hpos
      exact absurd hpos (Nat.lt_irrefl 0)
    · exact hswallowed
  · intro ps x qs res hos hr
    have hle := h.followUps_add_pending_le qs hos
    subst hos
    obtain ⟨hbefore, hstep⟩ := h.of_append
    have hover := hbefore.pending_of_leaving hstep hr
    omega

/-! ### Two rings for one loop, and one that is lost -/

/-- A task takes some steps at which all wakes count. -/
def Cue.wakes (t : TaskId) (n : Nat) : List Cue :=
  List.replicate n (.move t { Outside.answering none with order := [.stop, .tick, .ring] })

/-- A metric gets its count, and ends. -/
def Cue.counted (t : TaskId) : List Cue :=
  .move t (.answering (some (.rows [.ofPairs [("value", .int 7)]]))) :: Cue.steps t 5

/-- While a batch runs that was asked for directly, the bell is rung twice: the first ring wakes the
loop, and the second is kept. The loop notices the first one when the batch is over. -/
def queueing : List Cue :=
  List.flatten
    [[.start, .begin (.runOnce .start)], Cue.steps 2 1, Cue.wakes 0 4, [.trigger, .trigger],
      Cue.steps 2 2, Cue.steps 3 7, [.move 3 (.answering (some .connected))], Cue.steps 3 4,
      Cue.counted 3, Cue.steps 2 4, Cue.wakes 0 4, Cue.steps 4 9, Cue.counted 4, Cue.wakes 0 6]

/-- After the batch of its first tick the loop waits. Then a batch runs that was asked for directly;
the bell is rung, and the loop notices that while the batch runs. -/
def crossing : List Cue :=
  List.flatten
    [[.start], Cue.wakes 0 5, Cue.steps 2 7, [.move 2 (.answering (some .connected))],
      Cue.steps 2 4, Cue.counted 2, Cue.wakes 0 5, [.begin (.runOnce .start)], Cue.steps 3 1,
      [.trigger], Cue.wakes 0 3, Cue.steps 3 2, Cue.steps 4 9, Cue.counted 4, Cue.steps 3 4]

/-- When `crossing` is over, the loop waits and nothing else is under way. -/
theorem serve_crossing :
    let os := (single.serve crossing).1
    let w := (single.serve crossing).2
    os.any (Occurrence.fires .shutdown) = false ∧
      w.activity? 0 = some (.refreshLoop (.waiting 3600000)) ∧ w.isResting = true ∧
      (∀ x ∈ w.tasks, x.bind Activity.run? = none) ∧ unanswered os = true := by
  decide +kernel

/-- After the direct batch come two for the two rings, which is as many as can be; the ring that the
loop notices too early is lost. -/
theorem trigger_is_lost_only_while_busy_queueing :
    (∃ ps x qs, (single.serve queueing).1 = ps ++ .move x :: qs ∧ x.task = 2 ∧
      followUps (ps ++ [Occurrence.move x]) qs = 2 ∧
      followUps (ps ++ [Occurrence.move x]) qs ≤
        1 + (x.before.loops.erase x.task).card + qs.countP Occurrence.isTrigger ∧
      1 + (x.before.loops.erase x.task).card + qs.countP Occurrence.isTrigger = 2) ∧
    Swallowed (single.serve crossing).1 := by
  have hqueueing := trigger_is_lost_only_while_busy
    (Service.serve (e := single) rfl rfl rfl queueing)
  have hcrossing := trigger_is_lost_only_while_busy
    (Service.serve (e := single) rfl rfl rfl crossing)
  constructor
  · -- the step with which the direct batch is over
    have hover : (((single.serve queueing).1[30]?).bind Occurrence.move?).map (fun x =>
        (x.task, followUps ((single.serve queueing).1.take 30 ++ [Occurrence.move x])
            ((single.serve queueing).1.drop 31),
          1 + (x.before.loops.erase x.task).card +
            ((single.serve queueing).1.drop 31).countP Occurrence.isTrigger,
          (x.before.run? x.task).any (· matches .leaving _))) = some (2, 2, 2, true) := by
      decide +kernel
    obtain ⟨x, hx, hover⟩ := Option.map_eq_some_iff.1 hover
    obtain ⟨htask, hcount, hbound, hover⟩ : _ ∧ _ ∧ _ ∧ _ := by
      simpa only [Prod.mk.injEq] using hover
    obtain ⟨r, hr, hover⟩ := (Option.any_eq_true _ _).1 hover
    have hsplit := eq_take_append_move hx
    cases r with
    | leaving res =>
      exact ⟨_, x, _, hsplit, htask, hcount, hqueueing.2 _ x _ res hsplit hr, hbound⟩
    | start | running | publishing => cases hover
  · obtain ⟨-, -, hresting, -, hun⟩ := serve_crossing
    exact (hcrossing.1 hresting).1 hun

/-- Nobody has begun a batch since the trigger, none is in progress, and the loop waits. -/
theorem trigger_lost_crossing :
    let os := (single.serve crossing).1
    let w := (single.serve crossing).2
    Service os w ∧ os.any (Occurrence.fires .shutdown) = false ∧
      w.activity? 0 = some (.refreshLoop (.waiting 3600000)) ∧ w.isResting = true ∧
      (∀ t, w.inProgress t = false) ∧ unanswered os = true := by
  intro os w
  obtain ⟨hshutdown, hloop, hresting, htasks, hun⟩ := serve_crossing
  refine ⟨Service.serve (e := single) rfl rfl rfl crossing, hshutdown, hloop, hresting, ?_, hun⟩
  intro t
  rw [World.inProgress, World.run?_eq_none htasks t]
  rfl

end Service

end MetricBoard
