import MetricBoard.Proofs.Refresh.Admission
import MetricBoard.Proofs.Refresh.Service

/-!
# A batch that is cancelled

Each metric of a batch has one start check, with the step that ends its wait for permits
(`Move.checks?`). If the token of the batch has been fired by then, the metric is given up: it has
called nobody, and never will (`Move.Aloof`), and is reported as cancelled. If not, it does not
matter to the metric any more whether the token is fired (`World.step_withFired`): it is refreshed,
and its outcome is that of the result it has recorded (`Metric.Refreshed`). There is nothing
between the two (`Metric.Settled`), wherever the metric stands when the token is fired, and all
permits are back when the batch has ended (`Service.cancellation_cuts_cleanly`).
-/

namespace MetricBoard

namespace Metric

/-- Whether a metric has not had its start check. -/
def isWaiting : Metric → Bool
  | start | queuedTarget | queuedOverall | admitted => true
  | _ => false

/-- What a metric is about to end with. -/
def outcome? : Metric → Option (Option Outcome)
  | leavingTarget o | leavingOverall o | ending o => some o
  | _ => none

end Metric

namespace Move

/-- The metric, by its batch and its place, that has its start check with a step: it waits no longer
for its permits. -/
def checks? (x : Move) : Option (Nat × Nat) :=
  match x.before.activity? x.task, x.after.activity? x.task with
  | some (.metric b i m), some (.metric _ _ m') =>
    if m.isWaiting && !m'.isWaiting then some (b, i) else none
  | _, _ => none

theorem place?_of_checks? {x : Move} {p : Nat × Nat} (h : x.checks? = some p) :
    x.before.place? x.task = some p := by
  unfold checks? at h
  split at h
  · rename_i ha _
    split at h <;> cases h
    rw [World.place?, ha]
    rfl
  · cases h

/-- The token of the batch that begins with a step. -/
def token? (x : Move) : Option Token :=
  match (x.before.activity? x.task).bind Activity.batch? with
  | some (.start _ token) => some token
  | _ => none

/-- The step is no part of a call on the router, on a server or on the storage. -/
structure Aloof (x : Move) : Prop where
  refreshing : ∀ b i m, x.before.activity? x.task = some (.metric b i m) → m.isRefreshing = false
  request : x.before.request? x.task = none
  record : x.record? = none
  router : x.after.engine.router = x.before.engine.router
  storage : x.after.engine.storage = x.before.engine.storage
  tasks : x.after.tasks.length = x.before.tasks.length

end Move

/-- The world with other tokens fired. -/
def World.withFired (w : World) (tokens : List Token) : World :=
  { w with engine := { w.engine with fired := tokens } }

/-! ## Steps before and after the start check -/

namespace Metric

variable {out : Outside} {t : TaskId} {b i : Nat} {k : Batch} {d : Definition} {e : Engine}
  {m : Metric} {s : EngineStep Metric Unit}

theorem isRefreshing_begin (options : RefreshOptions) (d : Definition) (ms : Nat) :
    (begin options d ms).isRefreshing = true := by
  unfold begin
  split <;> rfl

/-- A metric that waits goes on waiting, or has its start check: what comes of it is up to the
token. -/
theorem step_of_isWaiting (h : m.step out t b i k d e = some s) (hm : m.isWaiting = true) :
    ∃ m', s.next = .stage m' ∧
      if e.isFired k.token = true then m'.outcome? = some (some (.cancelled d))
      else m'.isWaiting = true ∨ m'.isRefreshing = true := by
  cases does_of_step h with
  | cancel hfired | withdrawTarget hfired | withdrawOverall hfired | turnBack hfired =>
    exact ⟨_, rfl, by rw [if_pos hfired]; rfl⟩
  | ask hfired | enterTarget hfired | enterOverall hfired =>
    exact ⟨_, rfl, by rw [hfired]; exact Or.inl rfl⟩
  | begin hfired => exact ⟨_, rfl, by rw [hfired]; exact Or.inr (isRefreshing_begin ..)⟩
  | compute | record | leaveTarget | leaveOverall | finish => cases hm

/-- A metric that is not being refreshed can go on once the token has been fired. -/
theorem isSome_step_of_isFired (hm : m.isRefreshing = false) (hfired : e.isFired k.token = true) :
    (m.step out t b i k d e).isSome = true := by
  cases m with
  | start | queuedTarget | queuedOverall | admitted =>
    simp only [step, hfired]
    rfl
  | computing | recording => cases hm
  | leavingTarget | leavingOverall | ending => rfl

/-- A metric that is being refreshed goes on with it, or breaks down, or records its result. -/
theorem step_of_isRefreshing (h : m.step out t b i k d e = some s) (hm : m.isRefreshing = true) :
    m.record? out b d e = none ∧ (∃ m', s.next = .stage m' ∧ m'.isRefreshing = true) ∨
      m.record? out b d e = none ∧ s.next = .stage (.leavingTarget none) ∨
      ∃ startedMs result accepted, m = recording startedMs result ∧
        m.record? out b d e = some ⟨b, d.id, write result out.now, accepted⟩ ∧
        s.next = .stage (.leavingTarget
          (some (outcome d result (out.ms - startedMs) accepted))) := by
  cases does_of_step h with
  | @compute _ _ s' =>
    simp only [Engine.afterRouter]
    cases s'.next with
    | stage c' => exact .inl ⟨rfl, _, rfl, rfl⟩
    | done y =>
      cases y with
      | value | failure => exact .inl ⟨rfl, _, rfl, rfl⟩
      | brokeDown => exact .inr (.inl ⟨rfl, rfl⟩)
  | record => exact .inr (.inr ⟨_, _, _, rfl, rfl, rfl⟩)
  | _ => cases hm

/-- A metric that has an outcome keeps it. -/
theorem step_of_outcome? {o : Option Outcome} (h : m.step out t b i k d e = some s)
    (ho : m.outcome? = some o) {m' : Metric} (hn : s.next = .stage m') : m'.outcome? = some o := by
  cases does_of_step h with
  | leaveTarget | leaveOverall =>
    cases hn
    exact ho
  | finish => cases hn
  | _ => cases ho

/-- A metric that is not being refreshed changes nothing but its batch. -/
theorem step_of_not_isRefreshing (h : m.step out t b i k d e = some s)
    (hm : m.isRefreshing = false) :
    s.engine.router = e.router ∧ s.engine.storage = e.storage ∧ s.spawns = [] := by
  cases does_of_step h with
  | compute | record => cases hm
  | _ => exact ⟨rfl, rfl, rfl⟩

/-- Which tokens have been fired does not matter to a metric that has had its start check. -/
theorem step_withFired (hm : m.isWaiting = false) (tokens : List Token) :
    m.step out t b i k d { e with fired := tokens } =
      (m.step out t b i k d e).map fun s =>
        { s with engine := { s.engine with fired := tokens } } := by
  cases m with
  | start | queuedTarget | queuedOverall | admitted => cases hm
  | computing startedMs c =>
    simp only [step, Option.map_map]
    rfl
  | recording | leavingTarget | leavingOverall | ending => rfl

end Metric

/-- Which tokens have been fired does not matter to the steps of a metric that has had its start
check. -/
theorem World.step_withFired {w : World} {out : Outside} {t : TaskId} {b i : Nat} {m : Metric}
    (ha : w.activity? t = some (.metric b i m)) (hm : m.isWaiting = false) (tokens : List Token) :
    (w.withFired tokens).step out t =
      (w.step out t).map fun p => (p.1.withFired tokens, p.2) := by
  have hstep : Activity.step ((w.withFired tokens).outside out) t (w.withFired tokens).engine
      (.metric b i m) = (Activity.step (w.outside out) t w.engine (.metric b i m)).map fun s =>
        { s with engine := { s.engine with fired := tokens } } := by
    simp only [Activity.step, withFired]
    split
    · split
      · rename_i k _ _ d _
        have hm' : m.step (w.outside out) t b i k d { w.engine with fired := tokens } =
            (m.step (w.outside out) t b i k d w.engine).map fun s =>
              { s with engine := { s.engine with fired := tokens } } := m.step_withFired hm tokens
        change (m.step (w.outside out) t b i k d { w.engine with fired := tokens }).map _ = _
        rw [hm', Option.map_map, Option.map_map]
        rfl
      · rfl
    · rfl
  have ha' : (w.withFired tokens).activity? t = some (.metric b i m) := ha
  simp only [step, ha, ha', Option.bind_eq_bind, Option.bind_some, hstep]
  cases Activity.step (w.outside out) t w.engine (.metric b i m) with
  | none => rfl
  | some s => cases hn : s.next <;> simp [hn] <;> rfl

/-! ## What comes of a metric -/

namespace Metric

/-- Some steps of a metric have its start check among them, and the token of its batch had been
fired at that moment, or not. -/
structure Checked (b i : Nat) (token : Token) (fired : Bool) (xs : List Move) : Prop where
  exists_check : ∃ x ∈ xs, x.checks? = some (b, i)
  isFired : ∀ x ∈ xs, x.checks? = some (b, i) → x.before.engine.isFired token = fired

/-- The steps of a metric end with one call that records its result, and its outcome is that of the
result. -/
def Refreshed (b i : Nat) (d : Definition) (xs : List Move) (o : Outcome) : Prop :=
  ∃ x ∈ xs, ∃ startedMs result accepted,
    x.before.activity? x.task = some (.metric b i (.recording startedMs result)) ∧
      xs.filterMap Move.record? = [⟨b, d.id, write result x.outside.now, accepted⟩] ∧
      o = outcome d result (x.outside.ms - startedMs) accepted

/-- What comes of a metric: it is given up and has called nobody, or it is refreshed, or it breaks
down while it is. -/
inductive Settled (b i : Nat) (d : Definition) (token : Token) (xs : List Move) :
    Option Outcome → Prop
  | givenUp : Checked b i token true xs → (∀ x ∈ xs, x.Aloof) →
    Settled b i d token xs (some (.cancelled d))
  | refreshed {o : Outcome} : Checked b i token false xs → Refreshed b i d xs o →
    Settled b i d token xs (some o)
  | brokenDown : Checked b i token false xs → xs.filterMap Move.record? = [] →
    (∃ x ∈ xs, x.breaksDown = true) → Settled b i d token xs none

/-- What is known of a metric at a stage, given the steps it has taken. -/
structure Tells (b i : Nat) (d : Definition) (token : Token) (xs : List Move) (m : Metric) :
    Prop where
  waiting : m.isWaiting = true → ∀ x ∈ xs, x.checks? = none ∧ x.Aloof
  refreshing : m.isRefreshing = true →
    Checked b i token false xs ∧ xs.filterMap Move.record? = []
  settled : ∀ o, m.outcome? = some o → Settled b i d token xs o

variable {b i : Nat} {d : Definition} {token : Token} {x : Move} {m m' : Metric}
  {s : EngineStep Metric Unit} {xs : List Move} {o : Option Outcome} {fired : Bool}

theorem isRefreshing_of_isWaiting (h : m.isWaiting = true) : m.isRefreshing = false := by
  cases m with
  | start | queuedTarget | queuedOverall | admitted => rfl
  | computing | recording | leavingTarget | leavingOverall | ending => cases h

theorem isWaiting_of_isRefreshing (h : m.isRefreshing = true) : m.isWaiting = false := by
  cases m with
  | computing | recording => rfl
  | start | queuedTarget | queuedOverall | admitted | leavingTarget | leavingOverall | ending =>
    cases h

theorem isWaiting_of_outcome? (h : m.outcome? = some o) : m.isWaiting = false := by
  cases m with
  | leavingTarget | leavingOverall | ending => rfl
  | start | queuedTarget | queuedOverall | admitted | computing | recording => cases h

theorem isRefreshing_of_outcome? (h : m.outcome? = some o) : m.isRefreshing = false := by
  cases m with
  | leavingTarget | leavingOverall | ending => rfl
  | start | queuedTarget | queuedOverall | admitted | computing | recording => cases h

/-! ### The steps that are taken -/

theorem Takes.checks? (h : Takes b i d token x m s) (hn : s.next = .stage m') :
    x.checks? = if m.isWaiting && !m'.isWaiting then some (b, i) else none := by
  rw [Move.checks?, h.activity, h.activity?_after, hn]
  rfl

theorem Takes.aloof (h : Takes b i d token x m s) (hm : m.isRefreshing = false) : x.Aloof := by
  obtain ⟨k, hk, hd, -, hstep⟩ := h.batch
  obtain ⟨hrouter, hstorage, hspawns⟩ := step_of_not_isRefreshing hstep hm
  have hrequest : m.request? = none := by
    cases m with
    | computing => cases hm
    | _ => rfl
  have hrecord : m.record? (x.before.outside x.outside) b d x.before.engine = none := by
    cases m with
    | recording => cases hm
    | _ => rfl
  refine ⟨fun b' i' m' ha => ?_, ?_, h.record?.trans hrecord, ?_, ?_, ?_⟩
  · rw [h.activity] at ha
    cases ha
    exact hm
  · rw [World.request?, h.activity]
    exact hrequest
  · rw [h.after, World.engine_after, hrouter]
  · rw [h.after, World.engine_after, hstorage]
  · rw [h.after, World.length_after, hspawns]
    rfl

theorem Takes.breaksDown (h : Takes b i d token x m s)
    (hn : s.next = .stage (.leavingTarget none)) : x.breaksDown = true := by
  rw [Move.breaksDown, h.activity?_after, hn]
  rfl

/-- A step after the start check is no start check. -/
theorem Takes.checks?_eq_none (h : Takes b i d token x m s) (hm : m.isWaiting = false) :
    x.checks? = none := by
  cases hn : s.next with
  | stage m' => rw [h.checks? hn, hm, Bool.false_and, if_neg Bool.false_ne_true]
  | done =>
    rw [Move.checks?, h.activity, h.activity?_after, hn]
    rfl

/-! ### What is known of them all -/

theorem Checked.concat (h : Checked b i token fired xs) (hx : x.checks? = none) :
    Checked b i token fired (xs ++ [x]) where
  exists_check := by
    obtain ⟨y, hy, hcheck⟩ := h.exists_check
    exact ⟨y, List.mem_append_left _ hy, hcheck⟩
  isFired y hy hcheck := by
    rcases List.mem_append.1 hy with hy | hy
    · exact h.isFired y hy hcheck
    · rw [List.mem_singleton.1 hy, hx] at hcheck
      cases hcheck

theorem Checked.of_concat (hxs : ∀ y ∈ xs, y.checks? = none ∧ y.Aloof)
    (hx : x.checks? = some (b, i)) (hfired : x.before.engine.isFired token = fired) :
    Checked b i token fired (xs ++ [x]) where
  exists_check := ⟨x, List.mem_append_right _ (List.mem_singleton_self x), hx⟩
  isFired y hy hcheck := by
    rcases List.mem_append.1 hy with hy | hy
    · rw [(hxs y hy).1] at hcheck
      cases hcheck
    · rwa [List.mem_singleton.1 hy]

theorem filterMap_record?_concat (h : x.record? = none) :
    (xs ++ [x]).filterMap Move.record? = xs.filterMap Move.record? := by
  rw [List.filterMap_append, List.filterMap_cons_none h, List.filterMap_nil, List.append_nil]

/-- What has come of a metric stays while it gives its permits back. -/
theorem Settled.concat (h : Settled b i d token xs o) (hx : x.Aloof) (hcheck : x.checks? = none) :
    Settled b i d token (xs ++ [x]) o := by
  have hrecord : (xs ++ [x]).filterMap Move.record? = xs.filterMap Move.record? :=
    filterMap_record?_concat hx.record
  cases h with
  | givenUp hchecked haloof =>
    exact .givenUp (hchecked.concat hcheck)
      (List.forall_mem_append.2 ⟨haloof, List.forall_mem_singleton.2 hx⟩)
  | refreshed hchecked hrefreshed =>
    obtain ⟨y, hy, startedMs, result, accepted, ha, hcalls, ho⟩ := hrefreshed
    exact .refreshed (hchecked.concat hcheck) ⟨y, List.mem_append_left _ hy, startedMs, result,
      accepted, ha, hrecord.trans hcalls, ho⟩
  | brokenDown hchecked hcalls hdown =>
    obtain ⟨y, hy, hdown⟩ := hdown
    exact .brokenDown (hchecked.concat hcheck) (hrecord.trans hcalls)
      ⟨y, List.mem_append_left _ hy, hdown⟩

theorem Tells.of_isWaiting (h : m.isWaiting = true)
    (hxs : ∀ x ∈ xs, x.checks? = none ∧ x.Aloof) : Tells b i d token xs m where
  waiting _ := hxs
  refreshing hm := by
    rw [isRefreshing_of_isWaiting h] at hm
    cases hm
  settled o ho := by
    rw [isWaiting_of_outcome? ho] at h
    cases h

theorem Tells.of_isRefreshing (h : m.isRefreshing = true) (hchecked : Checked b i token false xs)
    (hcalls : xs.filterMap Move.record? = []) : Tells b i d token xs m where
  waiting hm := by
    rw [isRefreshing_of_isWaiting hm] at h
    cases h
  refreshing _ := ⟨hchecked, hcalls⟩
  settled o ho := by
    rw [isRefreshing_of_outcome? ho] at h
    cases h

theorem Tells.of_outcome? (h : m.outcome? = some o) (hsettled : Settled b i d token xs o) :
    Tells b i d token xs m where
  waiting hm := by
    rw [isWaiting_of_outcome? h] at hm
    cases hm
  refreshing hm := by
    rw [isRefreshing_of_outcome? h] at hm
    cases hm
  settled o' ho' := by
    obtain rfl : o = o' := Option.some.inj (h.symm.trans ho')
    exact hsettled

theorem filterMap_record?_of_aloof (h : ∀ x ∈ xs, x.Aloof) : xs.filterMap Move.record? = [] :=
  List.filterMap_eq_nil_iff.2 fun x hx => (h x hx).record

/-- A step of a metric that waits. -/
theorem Tells.step_waiting (h : Tells b i d token xs m) (hm : m.isWaiting = true)
    (htakes : Takes b i d token x m s) (hn : s.next = .stage m') :
    Tells b i d token (xs ++ [x]) m' := by
  obtain ⟨k, -, -, rfl, hstep⟩ := htakes.batch
  have hxs := h.waiting hm
  have haloof := htakes.aloof (isRefreshing_of_isWaiting hm)
  have hall : ∀ y ∈ xs ++ [x], y.Aloof :=
    List.forall_mem_append.2 ⟨fun y hy => (hxs y hy).2, List.forall_mem_singleton.2 haloof⟩
  have hcheck := htakes.checks? hn
  rw [hm, Bool.true_and] at hcheck
  obtain ⟨m'', hn', hnext⟩ := step_of_isWaiting hstep hm
  obtain rfl : m' = m'' := Next.stage.inj (hn.symm.trans hn')
  split at hnext
  · rename_i hfired
    rw [isWaiting_of_outcome? hnext] at hcheck
    exact .of_outcome? hnext (.givenUp (.of_concat hxs hcheck hfired) hall)
  · rename_i hfired
    rcases hnext with hwaiting | hrefreshing
    · rw [hwaiting] at hcheck
      refine .of_isWaiting hwaiting (List.forall_mem_append.2 ⟨hxs, ?_⟩)
      exact List.forall_mem_singleton.2 ⟨hcheck, haloof⟩
    · rw [isWaiting_of_isRefreshing hrefreshing] at hcheck
      exact .of_isRefreshing hrefreshing
        (.of_concat hxs hcheck (Bool.eq_false_of_not_eq_true hfired))
        (filterMap_record?_of_aloof hall)

/-- A step of a metric that is being refreshed. -/
theorem Tells.step_refreshing (h : Tells b i d token xs m) (hm : m.isRefreshing = true)
    (htakes : Takes b i d token x m s) (hn : s.next = .stage m') :
    Tells b i d token (xs ++ [x]) m' := by
  obtain ⟨k, -, -, -, hstep⟩ := htakes.batch
  obtain ⟨hchecked, hcalls⟩ := h.refreshing hm
  have hchecked' := hchecked.concat (htakes.checks?_eq_none (isWaiting_of_isRefreshing hm))
  have hlast : x ∈ xs ++ [x] := List.mem_append_right _ (List.mem_singleton_self x)
  rcases step_of_isRefreshing hstep hm with ⟨hrecord, m'', hn', hrefreshing⟩ | ⟨hrecord, hn'⟩ |
    ⟨startedMs, result, accepted, rfl, hrecord, hn'⟩
  · obtain rfl : m' = m'' := Next.stage.inj (hn.symm.trans hn')
    exact .of_isRefreshing hrefreshing hchecked'
      ((filterMap_record?_concat (htakes.record?.trans hrecord)).trans hcalls)
  · obtain rfl : m' = .leavingTarget none := Next.stage.inj (hn.symm.trans hn')
    exact .of_outcome? rfl (.brokenDown hchecked'
      ((filterMap_record?_concat (htakes.record?.trans hrecord)).trans hcalls)
      ⟨x, hlast, htakes.breaksDown hn'⟩)
  · obtain rfl : m' = .leavingTarget _ := Next.stage.inj (hn.symm.trans hn')
    refine .of_outcome? rfl (.refreshed hchecked'
      ⟨x, hlast, startedMs, result, accepted, htakes.activity, ?_, rfl⟩)
    rw [List.filterMap_append, hcalls, List.filterMap_cons_some (htakes.record?.trans hrecord)]
    rfl

/-- A step of a metric that gives its permits back. -/
theorem Settled.step (h : Settled b i d token xs o) (ho : m.outcome? = some o)
    (htakes : Takes b i d token x m s) : Settled b i d token (xs ++ [x]) o :=
  h.concat (htakes.aloof (isRefreshing_of_outcome? ho))
    (htakes.checks?_eq_none (isWaiting_of_outcome? ho))

theorem cases_stage (m : Metric) :
    m.isWaiting = true ∨ m.isRefreshing = true ∨ ∃ o, m.outcome? = some o := by
  cases m with
  | start | queuedTarget | queuedOverall | admitted => exact .inl rfl
  | computing | recording => exact .inr (.inl rfl)
  | leavingTarget o | leavingOverall o | ending o => exact .inr (.inr ⟨o, rfl⟩)

/-- The steps of a metric tell at each stage what is to come of it. -/
theorem Path.tells (h : Path b i d token xs m) : Tells b i d token xs m := by
  induction h with
  | start => exact .of_isWaiting rfl (by simp)
  | @step xs x m m' s _ htakes hn ih =>
    rcases cases_stage m with hm | hm | ⟨o, ho⟩
    · exact ih.step_waiting hm htakes hn
    · exact ih.step_refreshing hm htakes hn
    · obtain ⟨k, -, -, -, hstep⟩ := htakes.batch
      exact .of_outcome? (step_of_outcome? hstep ho hn) ((ih.settled o ho).step ho htakes)

theorem Ended.settled (h : Ended b i d token xs o) : Settled b i d token xs o := by
  obtain ⟨ys, x, s, rfl, hpath, htakes⟩ := h
  exact (hpath.tells.settled o rfl).step rfl htakes

theorem Settled.exists_check (h : Settled b i d token xs o) :
    ∃ x ∈ xs, x.checks? = some (b, i) := by
  cases h with
  | givenUp hchecked => exact hchecked.exists_check
  | refreshed hchecked => exact hchecked.exists_check
  | brokenDown hchecked => exact hchecked.exists_check

/-- A metric whose start check came after the token was fired is given up and has called nobody. -/
theorem Settled.givenUp_of_check (h : Settled b i d token xs o) (hx : x ∈ xs)
    (hcheck : x.checks? = some (b, i)) (hfired : x.before.engine.isFired token = true) :
    o = some (.cancelled d) ∧ ∀ y ∈ xs, y.Aloof := by
  have hno : ∀ {p : Prop}, Checked b i token false xs → p := fun hchecked => by
    have hunfired := hchecked.isFired x hx hcheck
    rw [hfired] at hunfired
    cases hunfired
  cases h with
  | givenUp _ haloof => exact ⟨rfl, haloof⟩
  | refreshed hchecked => exact hno hchecked
  | brokenDown hchecked => exact hno hchecked

theorem Tells.givenUp_of_check (h : Tells b i d token xs m) (hx : x ∈ xs)
    (hcheck : x.checks? = some (b, i)) (hfired : x.before.engine.isFired token = true) :
    m.isRefreshing = false ∧ ∀ y ∈ xs, y.Aloof := by
  rcases cases_stage m with hm | hm | ⟨o, ho⟩
  · exact ⟨isRefreshing_of_isWaiting hm, fun y hy => (h.waiting hm y hy).2⟩
  · have hunfired := (h.refreshing hm).1.isFired x hx hcheck
    rw [hfired] at hunfired
    cases hunfired
  · exact ⟨isRefreshing_of_outcome? ho, ((h.settled o ho).givenUp_of_check hx hcheck hfired).2⟩

/-- A metric that takes all its steps after the token was fired is given up. -/
theorem Tells.givenUp (h : Tells b i d token xs m)
    (hfired : ∀ y ∈ xs, y.before.engine.isFired token = true) :
    m.isRefreshing = false ∧ ∀ y ∈ xs, y.Aloof := by
  rcases cases_stage m with hm | hm | ⟨o, ho⟩
  · exact ⟨isRefreshing_of_isWaiting hm, fun y hy => (h.waiting hm y hy).2⟩
  · obtain ⟨y, hy, hcheck⟩ := (h.refreshing hm).1.exists_check
    exact h.givenUp_of_check hy hcheck (hfired y hy)
  · obtain ⟨y, hy, hcheck⟩ := (h.settled o ho).exists_check
    exact h.givenUp_of_check hy hcheck (hfired y hy)

theorem Settled.givenUp_of_isFired (h : Settled b i d token xs o)
    (hfired : ∀ y ∈ xs, y.before.engine.isFired token = true) :
    o = some (.cancelled d) ∧ ∀ y ∈ xs, y.Aloof := by
  obtain ⟨y, hy, hcheck⟩ := h.exists_check
  exact h.givenUp_of_check hy hcheck (hfired y hy)

end Metric

/-! ## What is reported -/

namespace Operation

variable {xs : List Move} {w : World} {x : Move} {b : Nat} {ds : List Definition} {token : Token}

/-- A batch keeps the definitions and the token that it has begun with. -/
theorem token_of_opens? (h : Operation xs w) (hx : x ∈ xs) (ho : x.opens? = some (b, ds))
    (ht : x.token? = some token) :
    ∃ k, w.engine.batches[b]? = some k ∧ k.definitions = ds ∧ k.token = token := by
  refine h.induction_from (P := fun v => ∃ k, v.engine.batches[b]? = some k ∧
    k.definitions = ds ∧ k.token = token) hx (fun _ hstep => ?_) (fun _ _ _ hv => hv)
    (fun _ _ he hv => he ▸ hv) fun _ _ _ _ _ hv hstep ⟨k, hk, hds, htoken⟩ => ?_
  · obtain ⟨token', admission, e, y, rfl, -, hbefore, -, he, -, hafter⟩ :=
      Move.opening_of_opens? hstep ho
    rw [Move.token?, hbefore] at ht
    refine ⟨.start ds token' x.outside.now admission, ?_, rfl, Option.some.inj ht⟩
    rw [hafter, World.engine_after, he]
    exact List.getElem?_concat_length
  · obtain ⟨k', hk', hds', htoken'⟩ := (hv.batchStep hstep).exists_batch hk
    exact ⟨k', hk', hds'.trans hds, htoken'.trans htoken⟩

/-- When none of its metrics is left, the report of a batch has an outcome for each, which its own
steps have led to. -/
theorem ended_of_unfinished (h : Operation xs w) {k : Batch}
    (hk : w.engine.batches[b]? = some k) (hzero : k.unfinished = 0) (id : String) (now : Moment) :
    (k.report id now).outcomes.length = k.definitions.length ∧
      ∀ i d, k.definitions[i]? = some d →
        ∃ o, (k.report id now).outcomes[i]? = some (o.getD (.aborted d)) ∧
          Metric.Ended b i d k.token (ownMoves b i xs) o := by
  have hw := h.regular
  have hleft : w.left b = 0 := (hw.unfinished b k hk).symm.trans hzero
  refine ⟨by simp [Batch.report, hw.outcomes b k hk], fun i d hd => ?_⟩
  obtain ⟨o, ho, hended⟩ := h.charted.gone b i k d hk hd fun t ht =>
    (World.left_pos ht).ne' hleft
  exact ⟨o, by rw [Batch.report, List.getElem?_zipWith, hd, ho], hended⟩

/-- When a batch has made its report, none of its metrics is left, and the report has an outcome for
each, which its own steps have led to. -/
theorem ended_of_reports? (h : Operation xs w) (hx : x ∈ xs) {r : Report}
    (hr : x.reports? = some (b, r)) {k : Batch} (hk : w.engine.batches[b]? = some k) :
    w.left b = 0 ∧ r.outcomes.length = k.definitions.length ∧
      ∀ i d, k.definitions[i]? = some d → ∃ o, r.outcomes[i]? = some (o.getD (.aborted d)) ∧
        Metric.Ended b i d k.token (ownMoves b i xs) o := by
  obtain ⟨k', hk', hzero, hreport⟩ := h.report_of_reports? hx hr
  obtain rfl : k = k' := Option.some.inj (hk.symm.trans hk')
  rw [hreport]
  exact ⟨(h.regular.unfinished b k hk).symm.trans hzero, h.ended_of_unfinished hk hzero _ _⟩

/-- A metric whose start check came after its token was fired takes no step that is part of a
call. -/
theorem aloof (h : Operation xs w) (hx : x ∈ xs) {i : Nat} (hcheck : x.checks? = some (b, i))
    {k : Batch} (hk : w.engine.batches[b]? = some k)
    (hfired : x.before.engine.isFired k.token = true) : ∀ y ∈ ownMoves b i xs, y.Aloof := by
  have hown : x ∈ ownMoves b i xs := mem_ownMoves.2 ⟨hx, Move.place?_of_checks? hcheck⟩
  have hd := List.getElem?_eq_getElem (h.lt_of_mem_ownMoves hown hk)
  rcases h.path_or_ended hk hd with ⟨m, hpath⟩ | ⟨o, hended⟩
  · exact (hpath.tells.givenUp_of_check hown hcheck hfired).2
  · exact (hended.settled.givenUp_of_check hown hcheck hfired).2

/-- A metric that is not being refreshed can go on once its token has been fired. -/
theorem isSome_step_of_isFired (h : Operation xs w) {t : TaskId} {i : Nat} {m : Metric}
    (ha : w.activity? t = some (.metric b i m)) (hm : m.isRefreshing = false) {k : Batch}
    (hk : w.engine.batches[b]? = some k) (hfired : w.engine.isFired k.token = true)
    (out : Outside) : (w.step out t).isSome = true := by
  obtain ⟨k', hk', hi⟩ := h.regular.known t b i (by rw [World.place?, ha]; rfl)
  obtain rfl : k = k' := Option.some.inj (hk.symm.trans hk')
  refine Option.isSome_iff_ne_none.2 fun hnone => ?_
  have hstuck := World.step_eq_none ha hnone
  simp only [Activity.step, hk, List.getElem?_eq_getElem hi, Option.map_eq_none_iff] at hstuck
  have hsome : (m.step (w.outside out) t b i k k.definitions[i] w.engine).isSome = true :=
    Metric.isSome_step_of_isFired hm hfired
  rw [hstuck] at hsome
  cases hsome

end Operation

namespace Service

variable {os : List Occurrence} {w : World} {x : Move} {b : Nat} {ds : List Definition}
  {token : Token}

section Late

variable {ps qs : List Occurrence} (h : Service (ps ++ .move x :: qs) w)
  (ho : x.opens? = some (b, ds)) (hfired : ps.any (Occurrence.fires token) = true)

include h ho hfired

/-- The metrics of a batch that begins after its token was fired take all their steps after that. -/
theorem isFired_of_mem_ownMoves {i : Nat} {y : Move}
    (hy : y ∈ ownMoves b i (movesOf (ps ++ .move x :: qs))) :
    y.before.engine.isFired token = true := by
  obtain ⟨hps, hstep⟩ := h.of_append
  obtain ⟨-, -, -, -, hb, -⟩ := Move.opening_of_opens? hstep ho
  have hunborn : ownMoves b i (movesOf ps) = [] :=
    hps.operation.charted.unborn b i (Nat.le_of_eq hb.symm)
  have hlater : .move y ∈ .move x :: qs := by
    rw [movesOf_append, ownMoves, List.filter_append, List.mem_append] at hy
    rcases hy with hy | hy
    · rw [← ownMoves, hunborn] at hy
      cases hy
    · exact mem_movesOf.1 (List.mem_filter.1 hy).1
  obtain ⟨as, bs, hsplit⟩ := List.append_of_mem hlater
  rw [hsplit, ← List.append_assoc] at h
  rw [h.of_append.1.isFired_eq, List.any_append, hfired, Bool.true_or]

/-- The metrics of a batch that begins after its token was fired are all given up. -/
theorem givenUp_of_fired (ht : x.token? = some token) :
    (∀ i, ∀ y ∈ ownMoves b i (movesOf (ps ++ .move x :: qs)), y.Aloof) ∧
    (∀ t i m, w.activity? t = some (.metric b i m) → m.isRefreshing = false) ∧
    ∀ z r, .move z ∈ ps ++ .move x :: qs → z.reports? = some (b, r) →
      r.outcomes = ds.map .cancelled := by
  have hop := h.operation
  obtain ⟨k, hk, rfl, rfl⟩ := hop.token_of_opens? (mem_movesOf.2 (by simp)) ho ht
  have hall : ∀ i, ∀ y ∈ ownMoves b i (movesOf (ps ++ .move x :: qs)),
      y.before.engine.isFired k.token = true :=
    fun i y hy => h.isFired_of_mem_ownMoves ho hfired hy
  refine ⟨fun i y hy => ?_, fun t i m ha => ?_, fun z r hz hr => ?_⟩
  · have hd := List.getElem?_eq_getElem (hop.lt_of_mem_ownMoves hy hk)
    rcases hop.path_or_ended hk hd with ⟨m, hpath⟩ | ⟨o, hended⟩
    · exact (hpath.tells.givenUp (hall i)).2 y hy
    · exact (hended.settled.givenUp_of_isFired (hall i)).2 y hy
  · obtain ⟨k', hk', hi⟩ := hop.regular.known t b i (by rw [World.place?, ha]; rfl)
    obtain rfl : k = k' := Option.some.inj (hk.symm.trans hk')
    have hpath := hop.charted.going t b i m k _ ha hk (List.getElem?_eq_getElem hi)
    exact (hpath.tells.givenUp (hall i)).1
  · obtain ⟨-, hlength, hended⟩ := hop.ended_of_reports? (mem_movesOf.2 hz) hr hk
    refine List.ext_getElem? fun i => ?_
    rw [List.getElem?_map]
    cases hd : k.definitions[i]? with
    | none =>
      rw [List.getElem?_eq_none_iff] at hd
      rw [List.getElem?_eq_none (hlength ▸ hd)]
      rfl
    | some d =>
      obtain ⟨o, hreported, hpath⟩ := hended i d hd
      rw [hreported, (hpath.settled.givenUp_of_isFired (hall i)).1]
      rfl

end Late

/-- **Cancellation cuts a batch cleanly.** However a scheduler and its engine are used after a batch
has begun, and whenever the token of the batch is fired:

* a metric that has its start check after that takes no part in a call on the router, on a server or
  on the storage, neither before nor ever after;
* a metric that is not being refreshed can go on at once; to the steps of one that has had its start
  check, it does not matter which tokens are fired; and no metric takes steps for ever;
* when the batch has ended all of its permits are back, and it has reported each metric: as
  cancelled if the token had been fired when the metric had its start check, and else by the result
  of the one call that recorded it, unless the metric has broken down. -/
theorem cancellation_cuts_cleanly (h : Service os w) (hx : .move x ∈ os)
    (ho : x.opens? = some (b, ds)) (ht : x.token? = some token) :
    (∀ (ps : List Occurrence) (y : Move) (qs : List Occurrence) i,
      os = ps ++ .move y :: qs → y.checks? = some (b, i) →
      ps.any (Occurrence.fires token) = true → ∀ z ∈ ownMoves b i (movesOf os), z.Aloof) ∧
    (∀ t i m, w.activity? t = some (.metric b i m) →
      (os.any (Occurrence.fires token) = true → m.isRefreshing = false →
        ∀ out, (w.step out t).isSome = true) ∧
      (m.isWaiting = false → ∀ tokens out, (w.withFired tokens).step out t =
        (w.step out t).map fun p => (p.1.withFired tokens, p.2))) ∧
    (∀ i, (ownMoves b i (movesOf os)).length ≤ Metric.rank .start) ∧
    ∀ (z : Move) r, .move z ∈ os → z.reports? = some (b, r) →
      (∃ k, w.engine.batches[b]? = some k ∧
        Admission.ofOptions? x.before.engine.options = some k.admission) ∧
      r.outcomes.length = ds.length ∧
      ∀ i d, ds[i]? = some d → ∃ (ps : List Occurrence) (y : Move) (qs : List Occurrence),
        os = ps ++ .move y :: qs ∧ y.checks? = some (b, i) ∧
        if ps.any (Occurrence.fires token) then r.outcomes[i]? = some (.cancelled d)
        else (∃ o, r.outcomes[i]? = some o ∧
            Metric.Refreshed b i d (ownMoves b i (movesOf os)) o) ∨
          (∃ y ∈ ownMoves b i (movesOf os), y.breaksDown = true) ∧
            r.outcomes[i]? = some (.aborted d) := by
  have hop := h.operation
  have hx' := mem_movesOf.2 hx
  obtain ⟨k, hk, rfl, rfl⟩ := hop.token_of_opens? hx' ho ht
  refine ⟨fun ps y qs i hos hcheck hfired => ?_,
    fun t i m ha => ⟨fun hfired hm => ?_, fun hm => ?_⟩, fun i => hop.length_ownMoves_le hk,
    fun z r hz hr => ?_⟩
  · subst hos
    refine hop.aloof (mem_movesOf.2 (by simp)) hcheck hk ?_
    rw [h.of_append.1.isFired_eq, hfired]
  · rw [← h.isFired_eq] at hfired
    exact hop.isSome_step_of_isFired ha hm hk hfired
  · exact fun tokens out => World.step_withFired ha hm tokens
  · obtain ⟨hleft, hlength, hended⟩ := hop.ended_of_reports? (mem_movesOf.2 hz) hr hk
    have hadmits := hop.admits hx' ho
    obtain ⟨-, -, -, -, hstep⟩ := h.of_mem hx
    obtain ⟨-, admission, -, -, -, -, -, hadmission, -⟩ := Move.opening_of_opens? hstep ho
    refine ⟨⟨k, hk, hadmits.ofOptions?_eq hadmission hleft hk⟩, hlength, fun i d hd => ?_⟩
    obtain ⟨o, hreported, hpath⟩ := hended i d hd
    have hsettled := hpath.settled
    obtain ⟨y, hy, hcheck⟩ := hsettled.exists_check
    obtain ⟨ps, qs, hos, hservice, -⟩ := h.of_mem (mem_movesOf.1 (mem_ownMoves.1 hy).1)
    refine ⟨ps, y, qs, hos, hcheck, ?_⟩
    rw [← hservice.isFired_eq]
    cases hsettled with
    | givenUp hchecked =>
      rw [if_pos (hchecked.isFired y hy hcheck)]
      exact hreported
    | refreshed hchecked hrefreshed =>
      rw [if_neg (by rw [hchecked.isFired y hy hcheck]; exact Bool.false_ne_true)]
      exact .inl ⟨_, hreported, hrefreshed⟩
    | brokenDown hchecked _ hdown =>
      rw [if_neg (by rw [hchecked.isFired y hy hcheck]; exact Bool.false_ne_true)]
      exact .inr ⟨hdown, hreported⟩

/-! ### A batch that is cut between two permits -/

/-- An engine that refreshes one metric at a time and lets another wait for that behind its
server. -/
def single : Engine where
  router := .relationalOnly
  options := { maxInFlight := 1, relationalConcurrency := 2 }
  storage := Operation.picky.storage

/-- Three metrics that are counted. -/
def threeCounts : List Definition :=
  ["known", "second", "third"].map fun id => Operation.counting id "COUNT(*) FROM t"

/-- A task takes some steps without an answer. -/
def Cue.steps (t : TaskId) (n : Nat) : List Cue := List.replicate n (.move t (.answering none))

/-- The batch is cancelled while the first metric is at the server, the second has one of its two
permits, and the third none. -/
def cutBetween : List Cue :=
  List.flatten
    [[.begin (.batch (.start threeCounts (.named "stop")))], Cue.steps 0 1, Cue.steps 1 7,
      [.move 1 (.answering (some .connected))], Cue.steps 2 2, Cue.steps 3 1,
      [.fire (.named "stop")], Cue.steps 2 1, Cue.steps 3 1, Cue.steps 1 4,
      [.move 1 (.answering (some (.rows [.ofPairs [("value", .int 7)]])))], Cue.steps 1 5,
      Cue.steps 2 1, Cue.steps 3 1, Cue.steps 0 2]

/-- The first metric is counted, the other two are given up, and all permits are back. -/
theorem cancellation_cuts_cleanly_cutBetween :
    let os := (single.serve cutBetween).1
    ∃ r, (∃ z, .move z ∈ os ∧ z.reports? = some (0, r)) ∧
      r.outcomes.map (fun o => (o.success, o.errorKind, o.persisted)) =
        [(true, none, true), (false, some .cancelled, false), (false, some .cancelled, false)] ∧
      (ownMoves 0 1 (movesOf os)).length = 4 ∧
      (∀ z ∈ ownMoves 0 1 (movesOf os), z.Aloof) ∧
      (∃ k, (single.serve cutBetween).2.engine.batches[0]? = some k ∧
        Admission.ofOptions? single.options = some k.admission) ∧
      r.outcomes.length = threeCounts.length ∧
      ∀ i d, threeCounts[i]? = some d →
        ∃ (ps : List Occurrence) (y : Move) (qs : List Occurrence),
          os = ps ++ .move y :: qs ∧ y.checks? = some (0, i) ∧
          if ps.any (Occurrence.fires (.named "stop")) then r.outcomes[i]? = some (.cancelled d)
          else (∃ o, r.outcomes[i]? = some o ∧
              Metric.Refreshed 0 i d (ownMoves 0 i (movesOf os)) o) ∨
            (∃ y ∈ ownMoves 0 i (movesOf os), y.breaksDown = true) ∧
              r.outcomes[i]? = some (.aborted d) := by
  intro os
  have hos : Service os (single.serve cutBetween).2 :=
    Service.serve (e := single) rfl rfl rfl cutBetween
  obtain ⟨x, hx, ho, ht, hoptions⟩ : ∃ x ∈ movesOf os, x.opens? = some (0, threeCounts) ∧
      x.token? = some (.named "stop") ∧ x.before.engine.options = single.options := by
    decide +kernel
  have hreports : ((movesOf os).filterMap Move.reports?).map
      (fun p => (p.1, p.2.outcomes.map fun o => (o.success, o.errorKind, o.persisted))) =
      [(0, [(true, none, true), (false, some .cancelled, false),
        (false, some .cancelled, false)])] := by
    decide +kernel
  obtain ⟨⟨b, r⟩, hr, heq⟩ : ∃ p ∈ (movesOf os).filterMap Move.reports?,
      (p.1, p.2.outcomes.map fun o => (o.success, o.errorKind, o.persisted)) = _ :=
    List.mem_map.1 (hreports ▸ List.mem_singleton_self _)
  obtain ⟨rfl, houtcomes⟩ := Prod.mk.inj heq
  obtain ⟨z, hz, hr⟩ := List.mem_filterMap.1 hr
  -- the start check of the second metric, after the token was fired
  obtain ⟨y, hy, hcheck⟩ : ∃ y, (os[13]?).bind Occurrence.move? = some y ∧
      y.checks? = some (0, 1) := by
    have hget : ((os[13]?).bind Occurrence.move?).bind Move.checks? = some (0, 1) := by
      decide +kernel
    exact Option.bind_eq_some_iff.1 hget
  obtain ⟨haloof, -, -, hreported⟩ :=
    cancellation_cuts_cleanly hos (mem_movesOf.1 hx) ho ht
  obtain ⟨hpermits, hlength, hmetrics⟩ := hreported z r (mem_movesOf.1 hz) hr
  refine ⟨r, ⟨z, mem_movesOf.1 hz, hr⟩, houtcomes, by decide +kernel, ?_, hoptions ▸ hpermits,
    hlength, hmetrics⟩
  exact haloof _ y _ 1 (eq_take_append_move hy) hcheck (by decide +kernel)

end Service

end MetricBoard
