import MetricBoard.Proofs.Refresh.Paths
import MetricBoard.Proofs.Router.Errands
import MetricBoard.Proofs.Store.Calls

/-!
# What a batch reports is what it wrote

A metric of a batch is recorded by at most one call on the storage (`Move.record?`). However the
engine is operated, and whenever a batch is cancelled, its report tells of each metric either that
it was cancelled, and then nothing has been recorded of it, or what the one call has written, and
whether the storage took it (`Operation.report_accounts`).

No server may report a statement as cancelled, as a metric that failed that way would look like one
that was never begun; nor may a metric break down, as it then has no outcome of its own.
-/

namespace MetricBoard

/-! ## Failures that are not cancellations -/

/-- Whether a server reports a statement as cancelled. -/
def Answer.isCancelled : Answer → Bool
  | failed e => e.kind == .cancelled
  | _ => false

/-- The statement was not cancelled. -/
def StatementResult.Uncancelled : StatementResult → Prop
  | answered (.error e) => e.kind ≠ .cancelled
  | _ => True

/-- The execution was not cancelled. -/
def ExecuteResult.Uncancelled : ExecuteResult → Prop
  | failure f => f.kind ≠ .cancelled
  | _ => True

/-- The statement is not about to have been cancelled. -/
def Statement.Uncancelled : Statement → Prop
  | leaving _ x => x.Uncancelled
  | _ => True

/-- The execution is not about to have been cancelled. -/
def Execute.Uncancelled : Execute → Prop
  | first _ _ _ q | second _ _ q => q.Uncancelled
  | reconnecting _ _ _ => True
  | discarding f _ | invalidating f _ => f.kind ≠ .cancelled

/-- The computation is not about to have been cancelled. -/
def Compute.Uncancelled : Compute → Prop
  | acquiring _ _ => True
  | executing x => x.Uncancelled

theorem AcquireError.kind_ne_cancelled (e : AcquireError) : e.kind ≠ .cancelled := by
  cases e <;> exact ErrorKind.noConfusion

section Uncancelled

variable {t : TaskId} {ans : Option Answer} {r : Router} {limitMs : Nat}

theorem Statement.step_uncancelled {q : Statement} {s : RouterStep Statement StatementResult}
    (h : q.step t ans r = some s) (hans : ans.any Answer.isCancelled = false)
    (hq : q.Uncancelled) : s.next.All Uncancelled StatementResult.Uncancelled := by
  cases does_of_step h with
  | ask | run | rows | elapse | breakDown | retire => trivial
  | discard => exact ErrorKind.noConfusion
  | fail hfailed =>
    subst hfailed
    exact ne_of_beq_false hans
  | leave => exact hq

theorem Execute.conclude_uncancelled (target : Target) (c : ConnectionId) {x : StatementResult}
    (hx : x.Uncancelled) :
    (conclude limitMs target c x).All Uncancelled ExecuteResult.Uncancelled := by
  unfold conclude
  split
  · trivial
  · rename_i e
    have hkind : (Failure.mk e.kind e.text).kind ≠ .cancelled := hx
    split
    · exact hkind
    · split <;> exact hkind
  · exact ErrorKind.noConfusion
  · trivial

theorem Execute.step_uncancelled {x : Execute} {s : RouterStep Execute ExecuteResult}
    (h : x.step t ans r = some s) (hans : ans.any Answer.isCancelled = false)
    (hx : x.Uncancelled) : s.next.All Uncancelled ExecuteResult.Uncancelled := by
  cases x with
  | first sql limitMs c q =>
    obtain ⟨s', hs', rfl⟩ := Option.map_eq_some_iff.1 h
    refine (Statement.step_uncancelled hs' hans hx).within (fun _ hq => hq) fun y hy => ?_
    unfold afterFirst
    split
    · split
      · trivial
      · exact conclude_uncancelled _ c hy
    · trivial
  | reconnecting sql limitMs a =>
    obtain ⟨s', hs', rfl⟩ := Option.map_eq_some_iff.1 h
    refine s'.next.all_true.within (fun _ _ => trivial) fun y _ => ?_
    cases y with
    | ok c => trivial
    | error e => exact e.kind_ne_cancelled
  | second limitMs c q =>
    obtain ⟨s', hs', rfl⟩ := Option.map_eq_some_iff.1 h
    refine (Statement.step_uncancelled hs' hans hx).within (fun _ hq => hq) fun y hy => ?_
    unfold afterSecond
    split
    · exact conclude_uncancelled _ c hy
    · trivial
  | discarding f d =>
    obtain ⟨s', hs', rfl⟩ := Option.map_eq_some_iff.1 h
    exact s'.next.all_true.within (fun _ _ => hx) fun _ _ => hx
  | invalidating f i =>
    obtain ⟨s', hs', rfl⟩ := Option.map_eq_some_iff.1 h
    exact s'.next.all_true.within (fun _ _ => hx) fun _ _ => hx

theorem Compute.step_uncancelled {c : Compute} {s : RouterStep Compute ExecuteResult}
    (h : c.step t ans limitMs r = some s) (hans : ans.any Answer.isCancelled = false)
    (hc : c.Uncancelled) : s.next.All Uncancelled ExecuteResult.Uncancelled := by
  cases c with
  | acquiring sql a =>
    obtain ⟨s', hs', rfl⟩ := Option.map_eq_some_iff.1 h
    refine s'.next.all_true.within (fun _ _ => trivial) fun y _ => ?_
    cases y with
    | ok c => trivial
    | error e => exact e.kind_ne_cancelled
  | executing x =>
    obtain ⟨s', hs', rfl⟩ := Option.map_eq_some_iff.1 h
    exact (Execute.step_uncancelled hs' hans hc).within (fun _ hx => hx) fun _ hy => hy

end Uncancelled

/-! ## Calls that record a refresh -/

/-- A call that records a refresh of a metric of a batch. -/
structure RecordCall where
  batch : Nat
  id : String
  write : Write
  /-- Whether the storage took the write. -/
  accepted : Bool
  deriving DecidableEq, Repr

/-- The call that the step of a metric makes. -/
def Metric.record? (out : Outside) (b : Nat) (d : Definition) (e : Engine) :
    Metric → Option RecordCall
  | recording _ x =>
    let w := write x out.now
    some ⟨b, d.id, w, isOk (e.storage.record out.refusals d.id w).1⟩
  | _ => none

/-- The call that a step makes to record a refresh. -/
def Move.record? (x : Move) : Option RecordCall :=
  match x.before.activity? x.task with
  | some (.metric b i m) =>
    (x.before.engine.batches[b]?.bind fun k => k.definitions[i]?).bind fun d =>
      m.record? x.outside b d x.before.engine
  | _ => none

/-- The calls that a batch has made to record refreshes of a metric. -/
def recordsOf (b : Nat) (id : String) (xs : List Move) : List RecordCall :=
  (xs.filterMap Move.record?).filter fun c => c.batch = b ∧ c.id = id

/-- An outcome agrees with a call that records the refresh. -/
structure Outcome.Agrees (o : Outcome) (c : RecordCall) : Prop where
  persisted : o.persisted = c.accepted
  result :
    o.success = true ∧ o.errorKind = none ∧
        c.write.error = none ∧ c.write.value = o.value ∧ o.value.isFinite = true ∨
      o.success = false ∧ o.value = .zero ∧ c.write.value = .zero ∧
        ∃ kind message, o.errorKind = some kind ∧ kind ≠ .cancelled ∧
          o.message = some message ∧ c.write.error = some (kind.name ++ ": " ++ message)

/-- An outcome accounts for the calls that were made for a metric: it was cancelled and there are
none, or there is one that the outcome agrees with. -/
def Outcome.Accounts (o : Outcome) (d : Definition) (cs : List RecordCall) : Prop :=
  o = .cancelled d ∧ cs = [] ∨
    o.id = d.id ∧ o.target = d.target ∧ ∃ c, cs = [c] ∧ o.Agrees c

/-- What is known of a metric at a stage, given the calls that were made for it. -/
def Metric.Accounts (d : Definition) (cs : List RecordCall) : Metric → Prop
  | start | queuedTarget | queuedOverall | admitted => cs = []
  | computing _ c => cs = [] ∧ c.Uncancelled
  | recording _ x => cs = [] ∧ ∀ f, x = .error f → f.kind ≠ .cancelled
  | leavingTarget o | leavingOverall o | ending o => ∃ o', o = some o' ∧ o'.Accounts d cs

namespace Metric

variable {out : Outside} {t : TaskId} {b i : Nat} {k : Batch} {d : Definition} {e : Engine}
  {m : Metric} {s : EngineStep Metric Unit} {cs : List RecordCall}

theorem batch_of_record? {c : RecordCall} (h : m.record? out b d e = some c) : c.batch = b := by
  cases m with
  | recording => cases h; rfl
  | _ => cases h

theorem id_of_record? {c : RecordCall} (h : m.record? out b d e = some c) : c.id = d.id := by
  cases m with
  | recording => cases h; rfl
  | _ => cases h

/-- A metric does nothing to the storage but to record its refresh. -/
theorem step_storage (h : m.step out t b i k d e = some s) :
    s.engine.storage = (m.record? out b d e).elim e.storage fun c =>
      (e.storage.record out.refusals c.id c.write).2 := by
  cases m with
  | recording =>
    cases h
    rfl
  | _ =>
    rcases step_engine h with ⟨f, hs⟩ | ⟨r, hs⟩ | ⟨_, _, hm, -⟩
    · rw [hs]
      rfl
    · rw [hs]
      rfl
    · cases hm

/-- The outcome of a result agrees with the call that records it. -/
theorem outcome_agrees (x : Except Failure Binary64) (hx : ∀ f, x = .error f → f.kind ≠ .cancelled)
    (now : Moment) (elapsedMs : Nat) (accepted : Bool) :
    (outcome d x elapsedMs accepted).Agrees ⟨b, d.id, write x now, accepted⟩ := by
  cases x with
  | ok v => exact ⟨rfl, .inl ⟨rfl, rfl, rfl, rfl, v.finiteOrZero_isFinite⟩⟩
  | error f => exact ⟨rfl, .inr ⟨rfl, rfl, rfl, f.kind, f.message, rfl, hx f rfl, rfl, rfl⟩⟩

theorem outcome_id (x : Except Failure Binary64) (elapsedMs : Nat) (accepted : Bool) :
    (outcome d x elapsedMs accepted).id = d.id := by
  cases x <;> rfl

theorem outcome_target (x : Except Failure Binary64) (elapsedMs : Nat) (accepted : Bool) :
    (outcome d x elapsedMs accepted).target = d.target := by
  cases x <;> rfl

theorem begin_accounts (options : RefreshOptions) (ms : Nat) :
    (begin options d ms).Accounts d [] := by
  unfold begin
  split
  · exact ⟨rfl, trivial⟩
  · refine ⟨rfl, fun f hf => ?_⟩
    cases hf
    exact ErrorKind.noConfusion

/-- A step of a metric that does not break down keeps account of the calls. -/
theorem step_accounts (h : m.step out t b i k d e = some s)
    (hans : out.answer.any Answer.isCancelled = false)
    (hwhole : s.next ≠ .stage (.leavingTarget none)) (hm : m.Accounts d cs) :
    s.next.All (Accounts d (cs ++ (m.record? out b d e).toList)) fun _ => True := by
  have hcancelled : (ending (some (.cancelled d))).Accounts d [] := ⟨_, rfl, Or.inl ⟨rfl, rfl⟩⟩
  cases does_of_step h with
  | cancel | withdrawTarget | withdrawOverall | turnBack =>
    obtain rfl := hm
    exact hcancelled
  | ask | enterTarget | enterOverall =>
    obtain rfl := hm
    exact rfl
  | begin =>
    obtain rfl := hm
    exact begin_accounts ..
  | @compute _ _ s' hs' =>
    obtain ⟨rfl, hc⟩ := hm
    have hnext := Compute.step_uncancelled hs' hans hc
    simp only [Engine.afterRouter] at hwhole ⊢
    cases hn : s'.next with
    | stage c' =>
      rw [hn] at hnext
      exact ⟨rfl, hnext⟩
    | done y =>
      rw [hn] at hnext hwhole
      cases y with
      | value v => exact ⟨rfl, fun f hf => by cases hf⟩
      | failure f =>
        refine ⟨rfl, fun f' hf => ?_⟩
        cases hf
        exact hnext
      | brokeDown => exact absurd rfl hwhole
  | @record _ x =>
    obtain ⟨rfl, hx⟩ := hm
    exact ⟨_, rfl, Or.inr ⟨outcome_id .., outcome_target .., _, rfl, outcome_agrees x hx ..⟩⟩
  | @leaveTarget o | @leaveOverall o =>
    change ∃ o', o = some o' ∧ o'.Accounts d (cs ++ [])
    rw [List.append_nil]
    exact hm
  | finish => trivial

end Metric

/-! ## Accounts of a world -/

namespace Batch

theorem fault?_eq_none_iff {seen : List String} {ds : List Definition} :
    fault? seen ds = none ↔
      (∀ d ∈ ds, Text.isBlankText d.id = false) ∧ Store.repeated? seen ds = none := by
  induction ds generalizing seen with
  | nil => simp [fault?, Store.repeated?]
  | cons d ds ih =>
    rw [fault?, Store.repeated?, List.forall_mem_cons]
    cases Text.isBlankText d.id with
    | true => simp
    | false =>
      rw [if_neg Bool.false_ne_true]
      split
      · simp
      · rw [ih]
        simp

/-- What can be a batch: some definitions, each with an id of its own that is not blank. -/
theorem validate_eq_ok_iff {ds : List Definition} :
    validate ds = .ok () ↔ ds ≠ [] ∧ (∀ d ∈ ds, Text.isBlankText d.id = false) ∧
      (ds.map Definition.id).Nodup := by
  have hfault : fault? [] ds = none ↔ (∀ d ∈ ds, Text.isBlankText d.id = false) ∧
      (ds.map Definition.id).Nodup := by
    rw [fault?_eq_none_iff, Store.repeated?_eq_none_iff]
    simp
  cases ds with
  | nil => simp [validate]
  | cons d ds =>
    rw [← hfault, validate]
    cases fault? [] (d :: ds) <;> simp

/-- No two definitions of a batch have the same id. -/
theorem nodup_of_validate {ds : List Definition} (h : validate ds = .ok ()) :
    (ds.map Definition.id).Nodup :=
  (validate_eq_ok_iff.1 h).2.2

theorem index_eq_of_id_eq {ds : List Definition} (h : validate ds = .ok ()) {i j : Nat}
    {d d' : Definition} (hi : ds[i]? = some d) (hj : ds[j]? = some d') (hid : d.id = d'.id) :
    i = j := by
  have hlt : i < (ds.map Definition.id).length := by
    simpa using (List.getElem?_eq_some_iff.1 hi).1
  refine (List.getElem?_inj hlt (nodup_of_validate h)).1 ?_
  rw [List.getElem?_map, List.getElem?_map, hi, hj, Option.map_some, Option.map_some, hid]

end Batch

section Calls

variable {xs : List Move} {x : Move} {b : Nat} {id : String}

theorem Move.record?_eq_none (h : x.before.place? x.task = none) : x.record? = none := by
  unfold record?
  split
  · rename_i b i m ha
    rw [World.place?, ha] at h
    cases h
  · rfl

theorem Move.record?_of_metric {i : Nat} {m : Metric} {k : Batch} {d : Definition}
    (ha : x.before.activity? x.task = some (.metric b i m))
    (hk : x.before.engine.batches[b]? = some k) (hd : k.definitions[i]? = some d) :
    x.record? = m.record? x.outside b d x.before.engine := by
  rw [record?, ha]
  simp only [hk, hd, Option.bind_some]

/-- A call is made by the step of a metric that has the id. -/
theorem Move.exists_of_record? {c : RecordCall} (h : x.record? = some c) :
    ∃ j m k d, x.before.activity? x.task = some (.metric c.batch j m) ∧
      x.before.engine.batches[c.batch]? = some k ∧ k.definitions[j]? = some d ∧ c.id = d.id := by
  unfold record? at h
  split at h
  · rename_i b j m ha
    obtain ⟨d, hd, hc⟩ := Option.bind_eq_some_iff.1 h
    obtain ⟨k, hk, hkd⟩ := Option.bind_eq_some_iff.1 hd
    obtain rfl := Metric.batch_of_record? hc
    exact ⟨j, m, k, d, ha, hk, hkd, Metric.id_of_record? hc⟩
  · cases h

end Calls

namespace Move

variable {x : Move}

/-- The storage after a step is what the call has made of it that the step makes, if it makes
one. -/
def OnlyRecords (x : Move) : Prop :=
  x.after.engine.storage = x.record?.elim x.before.engine.storage fun c =>
    (x.before.engine.storage.record x.outside.refusals c.id c.write).2

/-- A metric does nothing to the storage but to record its refresh. -/
theorem onlyRecords_of_place? (h : x.before.step x.outside x.task = some (x.after, x.result))
    {p : Nat × Nat} (hp : x.before.place? x.task = some p) : x.OnlyRecords := by
  obtain ⟨a, s, ha, hs, hafter, -⟩ := World.step_eq_some h
  rw [World.place?, ha, Option.bind_some] at hp
  cases a with
  | metric b i m =>
    rw [OnlyRecords, record?, ha, hafter, World.engine_after]
    simp only [Activity.step] at hs
    split at hs
    · rename_i k hk
      split at hs
      · rename_i d hd
        obtain ⟨s', hs', rfl⟩ := Option.map_eq_some_iff.1 hs
        simp only [hk, hd, Option.bind_some]
        exact Metric.step_storage hs'
      · rename_i hd
        cases hs
        simp [hk, hd]
    · rename_i hk
      cases hs
      simp [hk]
  | _ => cases hp

end Move

/-! ## Accounts of a metric -/

/-- Whether a metric breaks down with a step. -/
def Move.breaksDown (x : Move) : Bool :=
  match x.after.activity? x.task with
  | some (.metric _ _ (.leavingTarget none)) => true
  | _ => false

namespace Metric

variable {b i : Nat} {d : Definition} {token : Token} {x : Move} {m : Metric}
  {s : EngineStep Metric Unit} {xs : List Move} {o : Option Outcome}

theorem Takes.record? (h : Takes b i d token x m s) :
    x.record? = m.record? (x.before.outside x.outside) b d x.before.engine := by
  obtain ⟨k, hk, hd, -⟩ := h.batch
  rw [Move.record?_of_metric h.activity hk hd]
  cases m <;> rfl

theorem Takes.whole (h : Takes b i d token x m s) (hwhole : x.breaksDown = false) :
    s.next ≠ .stage (.leavingTarget none) := by
  intro hn
  rw [Move.breaksDown, h.activity?_after, hn] at hwhole
  cases hwhole

/-- A metric accounts for the calls on its way. -/
theorem Path.accounts (h : Path b i d token xs m) (hwhole : ∀ x ∈ xs, x.breaksDown = false)
    (hans : ∀ x ∈ xs, x.outside.answer.any Answer.isCancelled = false) :
    m.Accounts d (xs.filterMap Move.record?) := by
  induction h with
  | start => rfl
  | @step xs x m m' s _ htakes hn ih =>
    rw [List.forall_mem_append, List.forall_mem_singleton] at hwhole hans
    obtain ⟨k, -, -, -, hm⟩ := htakes.batch
    have hnext := step_accounts hm hans.2 (htakes.whole hwhole.2) (ih hwhole.1 hans.1)
    rw [hn, ← htakes.record?] at hnext
    change m'.Accounts d _ at hnext
    rw [List.filterMap_append]
    cases hx : x.record? <;> simpa [hx] using hnext

/-- A metric that has ended accounts for all its calls. -/
theorem Ended.accounts (h : Ended b i d token xs o) (hwhole : ∀ x ∈ xs, x.breaksDown = false)
    (hans : ∀ x ∈ xs, x.outside.answer.any Answer.isCancelled = false) :
    ∃ o', o = some o' ∧ o'.Accounts d (xs.filterMap Move.record?) := by
  obtain ⟨ys, x, s, rfl, hpath, htakes⟩ := h
  rw [List.forall_mem_append] at hwhole hans
  rw [List.filterMap_append, List.filterMap_cons_none htakes.record?, List.filterMap_nil,
    List.append_nil]
  exact hpath.accounts hwhole.1 hans.1

end Metric

/-- The metrics that have ended account for the calls that were made for them. -/
structure Accounted (xs : List Move) (w : World) : Prop where
  gone : ∀ b i k d, w.engine.batches[b]? = some k → k.definitions[i]? = some d →
    (∀ t, w.place? t ≠ some (b, i)) →
      ∃ o, k.outcomes[i]? = some (some o) ∧ o.Accounts d (recordsOf b d.id xs)

/-! ## Reports -/

namespace Operation

variable {xs : List Move} {w : World} {x : Move}

/-- The definitions of a batch are the same as before any step that was taken. -/
theorem definitions_before (h : Operation xs w) (hx : x ∈ xs) {b : Nat} {k : Batch}
    (hk : x.before.engine.batches[b]? = some k) :
    ∃ k', w.engine.batches[b]? = some k' ∧ k'.definitions = k.definitions := by
  refine h.induction_from (P := fun v => ∃ k', v.engine.batches[b]? = some k' ∧
    k'.definitions = k.definitions) hx (fun hw hstep => ?_) (fun _ _ _ hv => hv)
    (fun _ _ he hv => he ▸ hv) fun _ _ _ _ _ hv hstep ⟨k', hk', hds⟩ => ?_
  · obtain ⟨k', hk', hds, -⟩ := (hw.batchStep hstep).exists_batch hk
    exact ⟨k', hk', hds⟩
  · obtain ⟨k'', hk'', hds', -⟩ := (hv.batchStep hstep).exists_batch hk'
    exact ⟨k'', hk'', hds'.trans hds⟩

/-- The calls that record a metric are those of its own steps, as no other has its id. -/
theorem recordsOf_eq (h : Operation xs w) {b i : Nat} {k : Batch} {d : Definition}
    (hk : w.engine.batches[b]? = some k) (hd : k.definitions[i]? = some d) :
    recordsOf b d.id xs = (ownMoves b i xs).filterMap Move.record? := by
  rw [recordsOf, ownMoves, List.filter_filterMap, List.filterMap_filter]
  refine List.filterMap_congr fun x hx => ?_
  cases hc : x.record? with
  | none => simp
  | some c =>
    obtain ⟨j, m, k', d', ha, hk', hd', hid⟩ := Move.exists_of_record? hc
    have hplace : x.before.place? x.task = some (c.batch, j) := by
      rw [World.place?, ha]
      rfl
    obtain ⟨k₀, hk₀, hds⟩ := h.definitions_before hx hk'
    rw [← hds] at hd'
    by_cases hown : (c.batch, j) = (b, i)
    · obtain ⟨hb, rfl⟩ := Prod.mk.inj hown
      obtain rfl : k = k₀ := Option.some.inj (hk.symm.trans (hb ▸ hk₀))
      obtain rfl : d = d' := Option.some.inj (hd.symm.trans hd')
      simp [hplace, hb, hid]
    · have hother : c.batch = b → c.id ≠ d.id := fun hb hcd => hown <| by
        obtain rfl : k = k₀ := Option.some.inj (hk.symm.trans (hb ▸ hk₀))
        have hvalid := h.regular.valid b k hk
        rw [hb, Batch.index_eq_of_id_eq hvalid hd' hd (hid.symm.trans hcd)]
      rw [hplace, decide_eq_false fun heq => hown (Option.some.inj heq)]
      simpa using hother

/-- **The calls are accounted for all through the operation.** -/
theorem accounted (h : Operation xs w) (hwhole : ∀ x ∈ xs, x.breaksDown = false)
    (hans : ∀ x ∈ xs, x.outside.answer.any Answer.isCancelled = false) : Accounted xs w where
  gone b i k d hk hd hnone := by
    obtain ⟨o, ho, hended⟩ := h.charted.gone b i k d hk hd hnone
    have hown : ∀ x ∈ ownMoves b i xs, x ∈ xs := fun x hx => (mem_ownMoves.1 hx).1
    obtain ⟨o', rfl, haccounts⟩ :=
      hended.accounts (fun x hx => hwhole x (hown x hx)) fun x hx => hans x (hown x hx)
    exact ⟨o', ho, by rwa [h.recordsOf_eq hk hd]⟩

/-- **What a batch reports is what it wrote.** Its metrics do nothing to the storage but to record
their refreshes, and its report has an outcome for each metric, which accounts for the calls that
the batch has ever made to record that metric. -/
theorem report_accounts (h : Operation xs w) (hwhole : ∀ x ∈ xs, x.breaksDown = false)
    (hans : ∀ x ∈ xs, x.outside.answer.any Answer.isCancelled = false) {b : Nat}
    {ds : List Definition} {r : Report} (hopens : ∃ x ∈ xs, x.opens? = some (b, ds))
    (hreports : ∃ x ∈ xs, x.reports? = some (b, r)) :
    (∀ x ∈ xs, ∀ i, x.before.place? x.task = some (b, i) → x.OnlyRecords) ∧
      r.outcomes.length = ds.length ∧
      ∀ (i : Nat) (d : Definition) (o : Outcome), ds[i]? = some d → r.outcomes[i]? = some o →
        o.Accounts d (recordsOf b d.id xs) := by
  obtain ⟨x, hx, hopens⟩ := hopens
  obtain ⟨y, hy, hreports⟩ := hreports
  obtain ⟨k, hk, rfl⟩ := h.definitions_of_opens? hx hopens
  obtain ⟨k', hk', hzero, hreport⟩ := h.report_of_reports? hy hreports
  obtain rfl : k = k' := Option.some.inj (hk.symm.trans hk')
  have hw := h.regular
  rw [congrArg Report.outcomes hreport]
  refine ⟨fun x hx i => ?_, by simp [Batch.report, hw.outcomes b k hk], fun i d o hd ho => ?_⟩
  · exact h.keeps (P := fun x _ => x.before.place? x.task = some (b, i) → x.OnlyRecords) hx
      (fun x hx hp => x.onlyRecords_of_place? hx hp) fun _ _ _ _ _ _ _ hP => hP
  have hnone : ∀ t, w.place? t ≠ some (b, i) := fun t ht => by
    have hpos := World.left_pos ht
    rw [← hw.unfinished b k hk, hzero] at hpos
    exact Nat.lt_irrefl 0 hpos
  obtain ⟨o', ho', haccounts⟩ := (h.accounted hwhole hans).gone b i k d hk hd hnone
  rw [Batch.report, List.getElem?_zipWith, hd, ho'] at ho
  obtain rfl : o' = o := Option.some.inj ho
  exact haccounts

/-! ### A batch that is cut short -/

/-- A count of the relational server. -/
def counting (id expression : String) : Definition :=
  ⟨id, "", "", .relational, none, expression, .zero, none, none⟩

/-- An engine whose store knows one metric and refuses another. -/
def picky : Engine where
  router := .relationalOnly
  storage :=
    { tables := ((Store.save (counting "known" "COUNT(*) FROM t")).run .fresh).2
      refusedMetrics := ["refused"] }

/-- A metric that cannot be transpiled, one that is counted, and one that never begins. -/
def threeMetrics : List Definition :=
  [counting "refused" "nothing", counting "known" "COUNT(*) FROM t",
    counting "late" "COUNT(*) FROM t"]

/-- A task takes some steps without an answer. -/
def steps (t : TaskId) (n : Nat) : List Engine.Cue := List.replicate n (.move t none)

/-- The batch is cancelled while the second metric is at the server, before the third begins. -/
def cutShort : List Engine.Cue :=
  List.flatten
    [[.begin (.batch (.start threeMetrics (.named "stop"))), .move 0 none], steps 1 8, steps 2 7,
      [.move 2 (some .connected)], steps 2 4,
      [.fire (.named "stop"), .move 2 (some (.rows [.ofPairs [("value", .int 7)]]))], steps 2 5,
      steps 3 2, steps 0 2]

/-- The failure is recorded but not kept, the count is, and of the last metric there is no call. -/
theorem report_accounts_cutShort :
    ∃ r, (∃ x ∈ (picky.enact cutShort).1, x.reports? = some (0, r)) ∧
      r.outcomes.map (fun o => (o.success, o.errorKind, o.persisted)) =
        [(false, some .unsupportedExpression, false), (true, none, true),
          (false, some .cancelled, false)] ∧
      (recordsOf 0 "refused" (picky.enact cutShort).1).map RecordCall.accepted = [false] ∧
      (recordsOf 0 "known" (picky.enact cutShort).1).map (fun c => c.write.value) = [.ofInt 7] ∧
      recordsOf 0 "late" (picky.enact cutShort).1 = [] ∧
      (∀ x ∈ (picky.enact cutShort).1, ∀ i, x.before.place? x.task = some (0, i) →
        x.OnlyRecords) ∧
      r.outcomes.length = threeMetrics.length ∧
      ∀ (i : Nat) (d : Definition) (o : Outcome), threeMetrics[i]? = some d →
        r.outcomes[i]? = some o → o.Accounts d (recordsOf 0 d.id (picky.enact cutShort).1) := by
  have hopens : ∃ x ∈ (picky.enact cutShort).1, x.opens? = some (0, threeMetrics) := by
    decide +kernel
  have hreports : ((picky.enact cutShort).1.filterMap Move.reports?).map
      (fun p => (p.1, p.2.outcomes.map fun o => (o.success, o.errorKind, o.persisted))) =
      [(0, [(false, some .unsupportedExpression, false), (true, none, true),
        (false, some .cancelled, false)])] := by
    decide +kernel
  obtain ⟨⟨b, r⟩, hr, heq⟩ : ∃ p ∈ (picky.enact cutShort).1.filterMap Move.reports?,
      (p.1, p.2.outcomes.map fun o => (o.success, o.errorKind, o.persisted)) = _ :=
    List.mem_map.1 (hreports ▸ List.mem_singleton_self _)
  obtain ⟨rfl, houtcomes⟩ := Prod.mk.inj heq
  have hreported := List.mem_filterMap.1 hr
  refine ⟨r, hreported, houtcomes, by decide +kernel, by decide +kernel, by decide +kernel, ?_⟩
  exact report_accounts (.enact rfl cutShort) (by decide +kernel) (by decide +kernel) hopens
    hreported

end Operation

end MetricBoard
