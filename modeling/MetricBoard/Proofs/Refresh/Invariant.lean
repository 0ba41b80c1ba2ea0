import MetricBoard.Proofs.Refresh.Outcomes

/-!
# What holds all through a batch

In every world of a job (`Job.Inv`) the locks are in the hands of the tasks that are inside, each
metric keeps to its definition, and so does the outcome of each that has ended. Every connection
that was retired since the beginning was retired by a metric of its server that is never answered,
and no metric has retired two (`Job.Blames`). The first world is like that (`Job.inv_begun`), and
each step leads to another one (`Job.Inv.next`).
-/

namespace MetricBoard.Job

variable {j : Job} {backend : Backend} {w w' : World} {out : Outside} {t : TaskId}
  {res : Option Result}

/-- How a task that is doing something stands before a lock. -/
def standingOf (j : Job) (l : Lock) : Activity → Standing
  | .metric _ i m => (j.definitions[i]?).elim .away fun d => m.standing d.target l
  | _ => .away

/-- How a task stands before a lock. -/
def standing (j : Job) (w : World) (l : Lock) (t : TaskId) : Standing :=
  (w.activity? t).elim .away (j.standingOf l)

/-- The number of permits of a lock. -/
def limit (j : Job) : Lock → Nat
  | .permit target => (j.admission.perTarget.get target).limit
  | .overall => j.admission.overall.limit
  | .slot _ | .turn _ => 1

/-- The metric at a place retires no further connection. -/
def Spent (j : Job) (w : World) (i : Nat) : Prop :=
  ∀ m, w.activity? (i + 1) = some (.metric j.index i m) → m.isSpent = true

variable (j backend) in
/-- For each connection that was lost there is a metric to blame, which is never answered, and for
no two the same. -/
def Blames (w : World) (f : ConnectionId → Nat) : Prop :=
  (∀ target c, j.engine.router.Loses w.engine.router target c →
    j.Hung backend target (f c) ∧ j.Spent w (f c)) ∧
  ∀ u v c c', j.engine.router.Loses w.engine.router u c →
    j.engine.router.Loses w.engine.router v c' → f c = f c' → c = c'

variable (j backend) in
/-- An outcome that the metric at a place may have. -/
def Reports (i : Nat) (d : Definition) (o : Outcome) : Prop :=
  ∃ x, j.Allows backend i d x ∧ o.Tells d x

variable (j backend) in
/-- A report with an outcome for each metric. -/
def Right (r : Report) : Prop :=
  r.outcomes.length = j.definitions.length ∧
    ∀ i d o, j.definitions[i]? = some d → r.outcomes[i]? = some o → j.Reports backend i d o

variable (j backend) in
/-- What holds of every world of a job once the batch has begun. -/
structure Inv (w : World) : Prop extends j.Shape w where
  coherent : w.engine.router.Coherent
  router : j.engine.router.Extends w.engine.router
  locks : ∀ l, LockOk (j.limit l) (j.standing w l) (w.engine.semaphore? j.index l)
  follows : ∀ i d m, j.definitions[i]? = some d →
    w.activity? (i + 1) = some (.metric j.index i m) →
      j.Follows backend i d w.engine.router m
  blames : ∃ f, j.Blames backend w f
  outcomes : ∀ i d, j.definitions[i]? = some d → w.activity? (i + 1) = none →
    ∃ k o, w.engine.batches[j.index]? = some k ∧ k.outcomes[i]? = some (some o) ∧
      j.Reports backend i d o
  report : ∀ r, w.activity? 0 = some (.batch (.reporting r)) → j.Right backend r

/-! ## The beginning -/

theorem admission_eq : ∃ n m, 0 < n ∧ 0 < m ∧
    j.admission = ⟨{ limit := n }, ⟨{ limit := m }, .lock⟩⟩ := by
  have h := j.admitted
  rw [Admission.ofOptions?] at h
  split at h
  · exact ⟨_, _, Nat.lt_of_lt_of_le Nat.one_pos (Nat.le_max_left ..),
      Nat.lt_of_lt_of_le Nat.one_pos (Nat.le_max_left ..), (Option.some.inj h).symm⟩
  · cases h

theorem limit_pos (l : Lock) : 0 < j.limit l := by
  obtain ⟨n, m, hn, hm, hadm⟩ := j.admission_eq
  cases l with
  | permit target => cases target <;> simp [limit, hadm, PerTarget.get, hm, Semaphore.lock]
  | overall => simp [limit, hadm, hn]
  | slot | turn => exact Nat.one_pos

theorem standing_begun (now : Moment) (l : Lock) (t : TaskId) :
    j.standing (j.begun now) l t = .away := by
  rw [standing, activity?_begun]
  split
  · rfl
  · split
    · simp only [Option.elim_some, standingOf]
      cases j.definitions[t - 1]? with
      | none => rfl
      | some d =>
        cases l with
        | permit u => exact ite_self _
        | overall | slot | turn => rfl
    · rfl

/-- A lock that nobody uses at the beginning. -/
theorem semaphore?_begun (now : Moment) {l : Lock} {s : Semaphore}
    (h : (j.begun now).engine.semaphore? j.index l = some s) : s = { limit := j.limit l } := by
  obtain ⟨n, m, -, -, hadm⟩ := j.admission_eq
  have hk : (j.begun now).engine.batches[j.index]? =
      some (.start j.definitions j.token now j.admission) := by simp [begun, index]
  cases l with
  | permit target =>
    simp only [Engine.semaphore?, hk, Option.map_some, Option.some.injEq] at h
    subst h
    cases target <;> simp [limit, Batch.start, hadm, PerTarget.get, Semaphore.lock]
  | overall =>
    simp only [Engine.semaphore?, hk, Option.map_some, Option.some.injEq] at h
    subst h
    simp [limit, Batch.start, hadm]
  | slot target => exact j.atRest.eq_lock (l := .slot target) h
  | turn c => exact j.atRest.eq_lock (l := .turn c) h

theorem inv_begun (now : Moment) : j.Inv backend (j.begun now) where
  toShape := shape_begun now
  coherent := j.atRest.coherent
  router := .refl _
  locks l := .of_away (standing_begun now l) fun _ => semaphore?_begun now
  follows i d m hd ha := by
    rw [activity?_begun, if_neg (Nat.succ_ne_zero i)] at ha
    split at ha <;> cases ha
    trivial
  blames := by
    have hnone : ∀ u c, ¬ j.engine.router.Loses (j.begun now).engine.router u c := by
      intro u c h
      have := h.clean u h.target
      exact absurd (h.retired.symm.trans this) (by simp)
    exact ⟨fun _ => 0, fun u c h => (hnone u c h).elim, fun u v c c' h => (hnone u c h).elim⟩
  outcomes i d hd ha := by
    have hi : i + 1 ≤ j.definitions.length := (List.getElem?_eq_some_iff.1 hd).1
    rw [activity?_begun, if_neg (Nat.succ_ne_zero i), if_pos hi] at ha
    cases ha
  report r ha := by
    rw [activity?_begun] at ha
    cases ha

/-! ## A step of a metric -/

section MetricStep

variable {i : Nat} {m : Metric} {d : Definition} {k : Batch} {s : EngineStep Metric Unit}

theorem standing_of_activity? {l : Lock} {a : Activity} (h : w.activity? t = some a) :
    j.standing w l t = j.standingOf l a := by
  rw [standing, h, Option.elim_some]

theorem Inv.isFired_eq_false (hs : j.Inv backend w) (hk : w.engine.batches[j.index]? = some k) :
    w.engine.isFired k.token = false := by
  obtain ⟨k₀, hk₀, -, htoken, -⟩ := hs.batch
  obtain rfl : k₀ = k := Option.some.inj (hk₀.symm.trans hk)
  rw [htoken, Engine.isFired, hs.fired]
  exact j.unfired

/-- A metric that does not stand away from a turn uses a connection that there is. -/
theorem Inv.target_of_standing (hs : j.Inv backend w) {c : ConnectionId}
    (h : j.standing w (.turn c) t ≠ .away) : ∃ target, w.engine.router.target? c = some target := by
  rw [standing] at h
  cases ha : w.activity? t with
  | none => simp [ha] at h
  | some a =>
    rw [ha, Option.elim_some] at h
    cases a with
    | metric b i m =>
      obtain ⟨rfl, rfl, hi⟩ := hs.place t _ ha
      have hd : j.definitions[i]? = some j.definitions[i] := List.getElem?_eq_getElem hi
      rw [standingOf, hd, Option.elim_some] at h
      exact ⟨_, (hs.follows i _ m hd ha).target_of_standing h⟩
    | _ => exact absurd rfl h

/-- Two metrics of a server that compute at the same time. -/
theorem Inv.shared (hs : j.Inv backend w) {i₁ i₂ : Nat} {d₁ d₂ : Definition} {t₁ t₂ : Nat}
    {c₁ c₂ : Compute} (hne : i₁ ≠ i₂) (hd₁ : j.definitions[i₁]? = some d₁)
    (hd₂ : j.definitions[i₂]? = some d₂) (ht : d₁.target = d₂.target)
    (h₁ : w.activity? (i₁ + 1) = some (.metric j.index i₁ (.computing t₁ c₁)))
    (h₂ : w.activity? (i₂ + 1) = some (.metric j.index i₂ (.computing t₂ c₂))) :
    j.Shared d₂.target := by
  obtain ⟨k, hk, -⟩ := hs.batch
  have hlock : ∀ l s, w.engine.semaphore? j.index l = some s →
      (Metric.computing t₁ c₁).standing d₁.target l = .inside →
      (Metric.computing t₂ c₂).standing d₂.target l = .inside → 2 ≤ j.limit l := by
    intro l s hsem hin₁ hin₂
    obtain ⟨htracks, hinside, hlimit⟩ := hs.locks l s hsem
    have hheld₁ := hinside (i₁ + 1) (by rw [standing_of_activity? h₁, standingOf, hd₁]; exact hin₁)
    have hheld₂ := hinside (i₂ + 1) (by rw [standing_of_activity? h₂, standingOf, hd₂]; exact hin₂)
    exact hlimit ▸ htracks.two_le_limit hheld₁ hheld₂ (mt Nat.succ.inj hne)
  refine ⟨hlock (.permit d₂.target) _ (by rw [Engine.semaphore?, hk]; rfl) ?_ ?_,
    hlock .overall _ (by rw [Engine.semaphore?, hk]; rfl) rfl rfl⟩
  · exact if_pos ht.symm
  · exact if_pos rfl

/-- A metric that is not spent has lost two connections only if it is crowded. -/
theorem Inv.crowded (hs : j.Inv backend w) {target : Target} {m : Metric}
    (ha : w.activity? (i + 1) = some (.metric j.index i m)) (hm : m.isSpent = false)
    (hshared : j.Shared target) (c₁ c₂ : ConnectionId) (hne : c₁ ≠ c₂)
    (h₁ : j.engine.router.Loses w.engine.router target c₁)
    (h₂ : j.engine.router.Loses w.engine.router target c₂) : j.Crowded backend target i := by
  obtain ⟨f, hblame, hinj⟩ := hs.blames
  have hother : ∀ c, j.engine.router.Loses w.engine.router target c → f c ≠ i := by
    intro c hc he
    have := (hblame target c hc).2 m (he ▸ ha)
    simp [hm] at this
  exact ⟨hshared, f c₁, f c₂, fun he => hne (hinj _ _ _ _ h₁ h₂ he), hother c₁ h₁, hother c₂ h₂,
    (hblame _ _ h₁).1, (hblame _ _ h₂).1⟩

/-- The world after a step of a metric. -/
def afterMetric (j : Job) (w : World) (i : Nat) (s : EngineStep Metric Unit) : World :=
  w.after (i + 1) s.engine (s.next.stage?.map (.metric j.index i)) (s.spawns.map Spawn.activity)

/-- What other tasks do at the moment of a step. -/
theorem activity?_afterMetric_of_ne (hm : m.step out t j.index i k d w.engine = some s) {u : TaskId}
    (hi : i + 1 < w.tasks.length) (hu : u ≠ i + 1) :
    (j.afterMetric w i s).activity? u = w.activity? u ∨
      ∃ c, (j.afterMetric w i s).activity? u = some (.call (.closing c)) ∧
        w.activity? u = none := by
  rw [afterMetric, World.activity?_after _ _ _ hi, if_neg hu]
  split
  · exact .inl rfl
  · rename_i hlt
    have hnone : w.activity? u = none := World.activity?_of_le (Nat.le_of_not_lt hlt)
    rw [hnone]
    cases hspawn : (s.spawns.map Spawn.activity)[u - w.tasks.length]? with
    | none => exact .inl rfl
    | some a =>
      obtain ⟨p, hp, rfl⟩ := List.mem_map.1 (List.mem_of_getElem? hspawn)
      obtain ⟨c, rfl⟩ := Metric.step_spawns hm p hp
      exact .inr ⟨c, rfl, rfl⟩

theorem activity?_afterMetric_self (hi : i + 1 < w.tasks.length) :
    (j.afterMetric w i s).activity? (i + 1) = s.next.stage?.map (.metric j.index i) :=
  World.activity?_after_self _ _ _ hi

/-- A metric other than the one that takes a step is where it was. -/
theorem metric_afterMetric_iff (hm : m.step out t j.index i k d w.engine = some s) {i' : Nat}
    {m' : Metric} (hi : i + 1 < w.tasks.length) (hne : i' ≠ i) :
    (j.afterMetric w i s).activity? (i' + 1) = some (.metric j.index i' m') ↔
      w.activity? (i' + 1) = some (.metric j.index i' m') := by
  rcases activity?_afterMetric_of_ne hm hi (mt Nat.succ.inj hne) with h | ⟨c, h, hnone⟩
  · rw [h]
  · simp [h, hnone]

theorem standing_afterMetric_of_ne (hm : m.step out t j.index i k d w.engine = some s) {u : TaskId}
    (hi : i + 1 < w.tasks.length) (hu : u ≠ i + 1) (l : Lock) :
    j.standing (j.afterMetric w i s) l u = j.standing w l u := by
  rcases activity?_afterMetric_of_ne hm hi hu with h | ⟨c, h, hnone⟩
  · rw [standing, standing, h]
  · rw [standing, standing, h, hnone]
    rfl

theorem standing_afterMetric_self (hd : j.definitions[i]? = some d) (hi : i + 1 < w.tasks.length)
    (l : Lock) :
    j.standing (j.afterMetric w i s) l (i + 1) = s.next.standing (Metric.standing d.target) l := by
  rw [standing, activity?_afterMetric_self hi]
  cases s.next with
  | done => rfl
  | stage m' =>
    simp only [Next.stage?, Option.map_some, Option.elim_some, standingOf, hd]
    rfl

/-- A metric that is spent stays spent. -/
theorem Spent.afterMetric {i' : Nat} (h : j.Spent w i')
    (ha : w.activity? (i + 1) = some (.metric j.index i m))
    (hm : m.step out (i + 1) j.index i k d w.engine = some s) :
    j.Spent (j.afterMetric w i s) i' := by
  have hi := World.lt_of_activity? ha
  intro m' hm'
  by_cases hne : i' = i
  · subst hne
    rw [activity?_afterMetric_self hi] at hm'
    have hspent := Metric.step_isSpent hm (.inl (h m ha))
    cases hnext : s.next with
    | done => simp [hnext, Next.stage?] at hm'
    | stage m₁ =>
      rw [hnext] at hm' hspent
      obtain rfl : m₁ = m' := by simpa [Next.stage?] using hm'
      exact hspent
  · exact h m' ((metric_afterMetric_iff hm hi hne).1 hm')

section

variable (hs : j.Inv backend w) (ha : w.activity? (i + 1) = some (.metric j.index i m))
  (hd : j.definitions[i]? = some d) (hk : w.engine.batches[j.index]? = some k)
  (hm : m.step out (i + 1) j.index i k d w.engine = some s)

include hs ha hd hk hm

theorem Inv.locks_afterMetric (l : Lock) :
    LockOk (j.limit l) (j.standing (j.afterMetric w i s) l) (s.engine.semaphore? j.index l) := by
  have hi := World.lt_of_activity? ha
  have hstep := Metric.step_locks hk hm l
  rw [← standing_afterMetric_self (j := j) (w := w) hd hi l] at hstep
  have hself : j.standing w l (i + 1) = m.standing d.target l := by
    rw [standing_of_activity? ha, standingOf, hd, Option.elim_some]
  rw [← hself] at hstep
  refine hstep.lockOk (fun u hu => standing_afterMetric_of_ne hm hi hu l) (fun hl => ?_)
    (hs.locks l)
  subst hl
  refine ⟨rfl, fun u => ?_⟩
  by_contra hne
  obtain ⟨target, ht⟩ := hs.target_of_standing hne
  exact absurd (Router.target?_lt ht) (Nat.lt_irrefl _)

omit hk in
/-- What another metric uses stays as it is. -/
theorem Inv.keeps {i' : Nat} {d' : Definition} {startedMs : Nat} {c : Compute} (hne : i' ≠ i)
    (hd' : j.definitions[i']? = some d')
    (ha' : w.activity? (i' + 1) = some (.metric j.index i' (.computing startedMs c)))
    (sql : String) :
    (j.errand backend i' d' sql).Keeps w.engine.router s.engine.router := by
  have hmoves := (Metric.step_moves hm).router
  refine ⟨hmoves.extends, fun c hc => ⟨hc.toUses.mono hmoves.extends, fun hret => ?_⟩⟩
  rcases hmoves.gone c hret with hold | hgone
  · exact hc.shared hold
  · obtain ⟨⟨t, q, rfl⟩, huses, -⟩ := (hs.follows i d m hd ha).of_retires hd hgone
    have ht : d.target = d'.target := Option.some.inj (huses.target.symm.trans hc.target)
    exact hs.shared (Ne.symm hne) hd hd' ht ha ha'

theorem Inv.next_follows (ho : out.answer = m.request?.map (backend.answer w.engine.router)) :
    s.next.All (j.Follows backend i d s.engine.router) fun _ =>
      ∃ o x, m = .ending (some o) ∧ j.Allows backend i d x ∧ o.Tells d x :=
  Metric.step_follows hm ho (hs.isFired_eq_false hk) hs.options (hs.follows i d m hd ha) hs.coherent
    hs.parameters? (hs.router.trans (Metric.step_moves hm).router.extends) fun hspent hshared =>
      hs.crowded ha hspent hshared

omit hk in
theorem Inv.blames_afterMetric : ∃ f, j.Blames backend (j.afterMetric w i s) f := by
  have hi := World.lt_of_activity? ha
  have hmoves := (Metric.step_moves hm).router
  obtain ⟨f, hblame, hinj⟩ := hs.blames
  -- the connection that the step costs the server, if any, is blamed on the metric
  let f' c := if m.retires? = some c ∧ w.engine.router.isRetired c = false then i else f c
  have hcases : ∀ u c, j.engine.router.Loses s.engine.router u c →
      j.engine.router.Loses w.engine.router u c ∧ f' c = f c ∨
        m.retires? = some c ∧ f' c = i ∧ m.isSpent = false ∧ j.Hung backend u i := by
    intro u c hc
    have ht : w.engine.router.target? c = some u :=
      (hmoves.opened c u hc.target).resolve_right (by simp [hc.retired])
    cases hret : w.engine.router.isRetired c with
    | true => exact .inl ⟨⟨⟨ht, hc.clean⟩, hret⟩, if_neg (by simp [hret])⟩
    | false =>
      have hgone : m.retires? = some c := (hmoves.gone c hc.retired).resolve_left (by simp [hret])
      obtain ⟨-, huses, hhung⟩ := (hs.follows i d m hd ha).of_retires hd hgone
      obtain ⟨hspent, hhung⟩ := hhung.resolve_left (by simp [hret])
      have hdu : d.target = u := Option.some.inj (huses.target.symm.trans ht)
      exact .inr ⟨hgone, if_pos ⟨hgone, hret⟩, hspent, hdu ▸ hhung⟩
  have hnew : ∀ u c, j.engine.router.Loses w.engine.router u c → m.isSpent = false → f c ≠ i := by
    intro u c hc hspent he
    have := (hblame u c hc).2 m (he ▸ ha)
    simp [hspent] at this
  refine ⟨f', fun u c hc => ?_, fun u v c c' hc hc' he => ?_⟩
  · rcases hcases u c hc with ⟨hold, hf⟩ | ⟨hgone, hf, -, hhung⟩
    · rw [hf]
      exact ⟨(hblame u c hold).1, (hblame u c hold).2.afterMetric ha hm⟩
    · rw [hf]
      refine ⟨hhung, fun m' hm' => ?_⟩
      rw [activity?_afterMetric_self hi] at hm'
      have hspent := Metric.step_isSpent hm (.inr (by simp [hgone]))
      cases hnext : s.next with
      | done => simp [hnext, Next.stage?] at hm'
      | stage m₁ =>
        rw [hnext] at hm' hspent
        obtain rfl : m₁ = m' := by simpa [Next.stage?] using hm'
        exact hspent
  · rcases hcases u c hc with ⟨hold, hf⟩ | ⟨hgone, hf, hspent, -⟩ <;>
      rcases hcases v c' hc' with ⟨hold', hf'⟩ | ⟨hgone', hf', hspent', -⟩ <;> rw [hf, hf'] at he
    · exact hinj u v c c' hold hold' he
    · exact absurd he (hnew u c hold hspent')
    · exact absurd he.symm (hnew v c' hold' hspent)
    · exact Option.some.inj (hgone.symm.trans hgone')

theorem Inv.outcomes_afterMetric
    (ho : out.answer = m.request?.map (backend.answer w.engine.router)) {i' : Nat} {d' : Definition}
    (hd' : j.definitions[i']? = some d')
    (ha' : (j.afterMetric w i s).activity? (i' + 1) = none) :
    ∃ k o, s.engine.batches[j.index]? = some k ∧ k.outcomes[i']? = some (some o) ∧
      j.Reports backend i' d' o := by
  have hi := World.lt_of_activity? ha
  obtain ⟨k₀, hk₀, -, -, hlen, -⟩ := hs.batch
  obtain rfl : k₀ = k := Option.some.inj (hk₀.symm.trans hk)
  by_cases hne : i' = i
  · subst hne
    obtain rfl : d = d' := Option.some.inj (hd.symm.trans hd')
    rw [activity?_afterMetric_self hi] at ha'
    have hfollows := hs.next_follows ha hd hk hm ho
    rcases Metric.step_batch hk hm with ⟨o, rfl, hnext, hk'⟩ | ⟨⟨m', hnext⟩, -⟩
    · rw [hnext] at hfollows
      obtain ⟨o', x, ho', hall, htells⟩ := hfollows
      cases ho'
      refine ⟨_, o', hk', ?_, x, hall, htells⟩
      have hlt : i' < k₀.outcomes.length := hlen ▸ (List.getElem?_eq_some_iff.1 hd).1
      simp [Batch.finish, hlt]
    · simp [hnext, Next.stage?] at ha'
  · have hold : w.activity? (i' + 1) = none := by
      rcases activity?_afterMetric_of_ne hm hi (mt Nat.succ.inj hne) with h | ⟨c, h, hnone⟩
      · exact h ▸ ha'
      · exact hnone
    obtain ⟨k', o, hk', ho', hrep⟩ := hs.outcomes i' d' hd' hold
    obtain rfl : k₀ = k' := Option.some.inj (hk₀.symm.trans hk')
    rcases Metric.step_batch hk hm with ⟨o₁, -, -, hk₁⟩ | ⟨-, a, hk₁⟩
    · refine ⟨_, o, hk₁, ?_, hrep⟩
      rw [Batch.finish, List.getElem?_set_ne (Ne.symm hne)]
      exact ho'
    · exact ⟨_, o, hk₁, ho', hrep⟩

/-- A step of a metric. -/
theorem Inv.afterMetric (ho : out.answer = m.request?.map (backend.answer w.engine.router)) :
    j.Inv backend (j.afterMetric w i s) where
  toShape := hs.toShape.next (.metric ha hd hk ho hm)
  coherent := (Metric.step_moves hm).router.coherent hs.coherent
  router := hs.router.trans (Metric.step_moves hm).router.extends
  locks := hs.locks_afterMetric ha hd hk hm
  follows i' d' m' hd' ha' := by
    have hi := World.lt_of_activity? ha
    by_cases hne : i' = i
    · subst hne
      obtain rfl : d = d' := Option.some.inj (hd.symm.trans hd')
      rw [activity?_afterMetric_self hi] at ha'
      have hfollows := hs.next_follows ha hd hk hm ho
      cases hnext : s.next with
      | done => simp [hnext, Next.stage?] at ha'
      | stage m₁ =>
        rw [hnext] at ha' hfollows
        obtain rfl : m₁ = m' := by simpa [Next.stage?] using ha'
        exact hfollows
    · have hold := (metric_afterMetric_iff hm hi hne).1 ha'
      refine (hs.follows i' d' m' hd' hold).mono fun sql t c hc => ?_
      subst hc
      exact hs.keeps ha hd hm hne hd' hold sql
  blames := hs.blames_afterMetric ha hd hm
  outcomes i' d' hd' ha' := hs.outcomes_afterMetric ha hd hk hm ho hd' ha'
  report r ha' := by
    have hi := World.lt_of_activity? ha
    rcases activity?_afterMetric_of_ne hm hi (Nat.succ_ne_zero i).symm with h | ⟨c, h, -⟩
    · exact hs.report r (h ▸ ha')
    · simp [h] at ha'

end

end MetricStep

/-! ## Any step -/

/-- A task that is no metric stands before no lock. -/
theorem standingOf_of_place {a : Activity} (ha : j.Place t a)
    (ht : t = 0 ∨ j.definitions.length < t) (l : Lock) : j.standingOf l a = .away := by
  cases a with
  | metric b i m =>
    obtain ⟨-, rfl, hi⟩ := ha
    exact (ht.elim (Nat.succ_ne_zero i) (Nat.not_lt.2 hi)).elim
  | _ => rfl

/-- A step of a task that is no metric, which leaves the engine alone but for the storage. -/
theorem Inv.after (hs : j.Inv backend w) {a : Activity} (ha : w.activity? t = some a)
    {x : Option Activity} (ht : t = 0 ∨ j.definitions.length < t)
    (hx : ∀ a, x = some a → j.Place t a) (storage : Storage)
    (hr : ∀ r, x = some (.batch (.reporting r)) → j.Right backend r) :
    j.Inv backend (w.after t { w.engine with storage := storage } x []) := by
  have hact := World.activity?_after_nil { w.engine with storage := storage } x
    (World.lt_of_activity? ha)
  have hmetric : ∀ i, i < j.definitions.length →
      (w.after t { w.engine with storage := storage } x []).activity? (i + 1) =
        w.activity? (i + 1) := by
    intro i hi
    rw [hact, if_neg]
    rintro rfl
    exact ht.elim (Nat.succ_ne_zero i) (Nat.not_lt.2 hi)
  have hstanding : ∀ l, j.standing (w.after t { w.engine with storage := storage } x []) l =
      j.standing w l := by
    intro l
    funext u
    rw [standing, hact]
    split
    · rename_i hu
      subst hu
      rw [standing_of_activity? ha, standingOf_of_place (hs.place u a ha) ht]
      cases x with
      | none => rfl
      | some b => exact standingOf_of_place (hx b rfl) ht l
    · rfl
  have hlt : ∀ {i : Nat} {d : Definition}, j.definitions[i]? = some d → i < j.definitions.length :=
    fun hd => (List.getElem?_eq_some_iff.1 hd).1
  refine ⟨hs.toShape.after ha ht hx storage, hs.coherent, hs.router, fun l => ?_,
    fun i d m hd hm => ?_, ?_, fun i d hd hnone => ?_, fun r hrep => ?_⟩
  · rw [hstanding]
    exact hs.locks l
  · rw [hmetric i (hlt hd)] at hm
    exact hs.follows i d m hd hm
  · obtain ⟨f, hblame, hinj⟩ := hs.blames
    refine ⟨f, fun u c hc => ⟨(hblame u c hc).1, fun m hm => ?_⟩, hinj⟩
    obtain ⟨-, -, hi⟩ := (hs.toShape.after ha ht hx storage).place _ _ hm
    rw [hmetric _ hi] at hm
    exact (hblame u c hc).2 m hm
  · rw [hmetric i (hlt hd)] at hnone
    exact hs.outcomes i d hd hnone
  · rw [hact] at hrep
    split at hrep
    · exact hr r hrep
    · exact hs.report r hrep

/-- The report of a batch all of whose metrics have ended. -/
theorem Inv.right_report (hs : j.Inv backend w) {k : Batch} (id : String) (now : Moment)
    (hk : w.engine.batches[j.index]? = some k) (hu : k.unfinished = 0) :
    j.Right backend (k.report id now) := by
  obtain ⟨k₀, hk₀, hds, -, hlen, hcard⟩ := hs.batch
  obtain rfl : k₀ = k := Option.some.inj (hk₀.symm.trans hk)
  have hnone : ∀ i, i < j.definitions.length → w.activity? (i + 1) = none := by
    intro i hi
    have hempty : j.alive w = ∅ := Finset.card_eq_zero.1 (hcard.symm.trans hu)
    by_contra hne
    have hmem : i ∈ j.alive w := mem_alive.2 ⟨hi, Option.isSome_iff_ne_none.2 hne⟩
    simp [hempty] at hmem
  refine ⟨by simp [Batch.report, hds, hlen], fun i d o hd ho => ?_⟩
  obtain ⟨k', o', hk', ho', hrep⟩ :=
    hs.outcomes i d hd (hnone i (List.getElem?_eq_some_iff.1 hd).1)
  obtain rfl : k₀ = k' := Option.some.inj (hk₀.symm.trans hk')
  simp only [Batch.report, hds, List.getElem?_zipWith, hd, ho', Option.getD_some,
    Option.some.injEq] at ho
  exact ho ▸ hrep

theorem Inv.next (hs : j.Inv backend w) (h : backend.step out t w = some (w', res)) :
    j.Inv backend w' := by
  cases hs.toShape.step h with
  | metric ha hd hk ho hm => exact hs.afterMetric ha hd hk hm ho
  | closing ha => exact hs.after ha (.inr (hs.place _ _ ha)) (by simp) w.engine.storage (by simp)
  | joining ha hk hu =>
    refine hs.after ha (.inl rfl) (fun a hx => ?_) w.engine.storage fun r hr => ?_
    · cases hx
      rfl
    · cases hr
      exact hs.right_report _ _ hk hu
  | reporting ha => exact hs.after ha (.inl rfl) (by simp) _ (by simp)

/-- The first task ends with a report, and with a right one. -/
theorem Inv.right_of_step (hs : j.Inv backend w) {x : Result}
    (h : backend.step out 0 w = some (w', some x)) :
    ∃ r, x = .reported (.value (some r)) ∧ j.Right backend r := by
  generalize ht : (0 : TaskId) = t at h
  generalize hx : some x = res at h
  cases hs.toShape.step h with
  | metric => cases ht
  | closing ha =>
    have := hs.place _ _ ha
    rw [← ht] at this
    exact absurd this (Nat.not_lt_zero _)
  | joining => cases hx
  | @reporting r _ ha =>
    cases hx
    exact ⟨r, rfl, hs.report r ha⟩

end MetricBoard.Job
