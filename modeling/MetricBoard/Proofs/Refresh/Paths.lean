import MetricBoard.Proofs.Refresh.Operation

/-!
# The way of a metric

The steps that a metric of a batch has taken lead from its start to the stage that it is at
(`Metric.Path`); once it has ended they are all that it ever takes, and its outcome is what they
have led to (`Metric.Ended`). Whatever else goes on in the engine has no part in that
(`Operation.charted`). So what is to be known of a metric, on its way and in the end, is had by
induction on its own steps.
-/

namespace MetricBoard

/-- The steps of a metric of a batch. -/
def ownMoves (b i : Nat) (xs : List Move) : List Move :=
  xs.filter fun x => x.before.place? x.task = some (b, i)

namespace Metric

/-- A step of a metric from a stage on, while its batch has a token. -/
structure Takes (b i : Nat) (d : Definition) (token : Token) (x : Move) (m : Metric)
    (s : EngineStep Metric Unit) : Prop where
  activity : x.before.activity? x.task = some (.metric b i m)
  batch : ∃ k, x.before.engine.batches[b]? = some k ∧ k.definitions[i]? = some d ∧
    k.token = token ∧ m.step (x.before.outside x.outside) x.task b i k d x.before.engine = some s
  after : x.after = x.before.after x.task s.engine (s.next.stage?.map (.metric b i))
    (s.spawns.map Spawn.activity)

/-- Some steps of a metric lead from its start to a stage. -/
inductive Path (b i : Nat) (d : Definition) (token : Token) : List Move → Metric → Prop
  | start : Path b i d token [] .start
  | step {xs : List Move} {x : Move} {m m' : Metric} {s : EngineStep Metric Unit} :
    Path b i d token xs m → Takes b i d token x m s → s.next = .stage m' →
    Path b i d token (xs ++ [x]) m'

/-- Some steps of a metric lead from its start to its end. -/
def Ended (b i : Nat) (d : Definition) (token : Token) (xs : List Move) (o : Option Outcome) :
    Prop :=
  ∃ ys x s, xs = ys ++ [x] ∧ Path b i d token ys (.ending o) ∧ Takes b i d token x (.ending o) s

variable {b i : Nat} {d : Definition} {token : Token} {x : Move} {m : Metric}
  {s : EngineStep Metric Unit}

theorem Takes.place? (h : Takes b i d token x m s) : x.before.place? x.task = some (b, i) := by
  rw [World.place?, h.activity]
  rfl

theorem Takes.activity?_after (h : Takes b i d token x m s) :
    x.after.activity? x.task = s.next.stage?.map (.metric b i) := by
  rw [h.after, World.activity?_after_self _ _ _ (World.lt_of_activity? h.activity)]

/-- A metric comes nearer to its end with each step that it takes. -/
theorem Path.length_add_rank_le {xs : List Move} (h : Path b i d token xs m) :
    xs.length + m.rank ≤ rank .start := by
  induction h with
  | start => exact Nat.le_of_eq (Nat.zero_add _)
  | step _ htakes hn ih =>
    obtain ⟨k, -, -, -, hstep⟩ := htakes.batch
    have hlt := step_rank hstep
    rw [hn, Next.rank] at hlt
    rw [List.length_append, List.length_singleton]
    omega

theorem Ended.length_le {xs : List Move} {o : Option Outcome} (h : Ended b i d token xs o) :
    xs.length ≤ rank .start := by
  obtain ⟨ys, x, s, rfl, hpath, -⟩ := h
  have hle := hpath.length_add_rank_le
  have hpos : 0 < rank (.ending o) := Nat.one_pos
  rw [List.length_append, List.length_singleton]
  omega

end Metric

theorem ownMoves_concat (b i : Nat) (xs : List Move) (x : Move) :
    ownMoves b i (xs ++ [x]) =
      if x.before.place? x.task = some (b, i) then ownMoves b i xs ++ [x] else ownMoves b i xs := by
  rw [ownMoves, List.filter_append, ownMoves]
  split <;> simp [*]

theorem mem_ownMoves {b i : Nat} {xs : List Move} {x : Move} :
    x ∈ ownMoves b i xs ↔ x ∈ xs ∧ x.before.place? x.task = some (b, i) := by
  simp [ownMoves]

/-- The metrics are where their own steps have led them. -/
structure Charted (xs : List Move) (w : World) : Prop where
  going : ∀ t b i m k d, w.activity? t = some (.metric b i m) →
    w.engine.batches[b]? = some k → k.definitions[i]? = some d →
      Metric.Path b i d k.token (ownMoves b i xs) m
  gone : ∀ b i k d, w.engine.batches[b]? = some k → k.definitions[i]? = some d →
    (∀ t, w.place? t ≠ some (b, i)) →
      ∃ o, k.outcomes[i]? = some o ∧ Metric.Ended b i d k.token (ownMoves b i xs) o
  unborn : ∀ b i, w.engine.batches.length ≤ b → ownMoves b i xs = []

namespace Charted

variable {xs : List Move} {w : World} {t : TaskId} {out : Outside} {res : Option Result}

theorem idle {e : Engine} (he : e.batches = []) : Charted [] ⟨e, []⟩ where
  going _ _ _ _ _ _ h := by cases h
  gone b i k d hk := by simp [he] at hk
  unborn _ _ _ := rfl

theorem begin (h : Charted xs w) {a : Activity} (ha : a.place? = none) :
    Charted xs (w.spawn [a]) where
  going u b i m k d hu := by
    rw [World.activity?_spawn] at hu
    split at hu
    · cases hu
      cases ha
    · exact h.going u b i m k d hu
  gone b i k d hk hd hnone := h.gone b i k d hk hd fun u => by
    rw [← World.place?_begin ha]
    exact hnone u
  unborn := h.unborn

theorem change (h : Charted xs w) {e : Engine} (he : e.batches = w.engine.batches) :
    Charted xs { w with engine := e } where
  going u b i m k d hu hk := h.going u b i m k d hu (he ▸ hk)
  gone b i k d hk := h.gone b i k d (he ▸ hk)
  unborn b i hb := h.unborn b i (he ▸ hb)

section Steps

variable {e : Engine} {a : Option Activity} {as : List Activity}

/-- A step that is no metric's. -/
theorem concat (h : Charted xs w) {x : Move} (hx : x.before.place? x.task = none) :
    Charted (xs ++ [x]) w := by
  have hown : ∀ b i, ownMoves b i (xs ++ [x]) = ownMoves b i xs := fun b i => by
    rw [ownMoves_concat, if_neg (by simp [hx])]
  refine ⟨fun u b i m k d => ?_, fun b i k d => ?_, fun b i => ?_⟩ <;> rw [hown]
  · exact h.going u b i m k d
  · exact h.gone b i k d
  · exact h.unborn b i

/-- What has no part in the batches leads no metric anywhere. -/
theorem apart (h : Charted xs w) (ht : t < w.tasks.length) (hplace : w.place? t = none)
    (he : e.batches = w.engine.batches) (ha : a.bind Activity.place? = none)
    (has : ∀ a ∈ as, a.place? = none) : Charted xs (w.after t e a as) where
  going u b i m k d hu hk := by
    rw [World.engine_after, he] at hk
    rcases World.activity?_of_after ht hu with ⟨-, rfl⟩ | ⟨-, hu⟩ | hu
    · cases ha
    · exact h.going u b i m k d hu hk
    · cases has _ hu
  gone b i k d hk hd hnone := by
    rw [World.engine_after, he] at hk
    refine h.gone b i k d hk hd fun u => ?_
    rw [← World.place?_after_of_eq (e := e) ht (ha.trans hplace.symm) has]
    exact hnone u
  unborn b i hb := h.unborn b i (he ▸ hb)

/-- The metrics of a batch that begins have taken no step yet. -/
theorem opening (h : Charted xs w) (hw : w.Regular) (ht : t < w.tasks.length)
    (hplace : w.place? t = none) {k₀ : Batch} (he : e.batches = w.engine.batches ++ [k₀])
    (ha : a.bind Activity.place? = none) {n : Nat} (hn : n = k₀.definitions.length) :
    Charted xs (w.after t e a
      ((List.range n).map fun i => .metric w.engine.batches.length i .start)) where
  going u b i m k d hu hk hd := by
    rw [World.engine_after, he] at hk
    rcases World.activity?_of_after ht hu with ⟨-, rfl⟩ | ⟨-, hu⟩ | hu
    · cases ha
    · obtain ⟨k', hk', -⟩ := hw.known u b i (by rw [World.place?, hu]; rfl)
      rw [List.getElem?_append_left (List.getElem?_eq_some_iff.1 hk').1] at hk
      exact h.going u b i m k d hu hk hd
    · obtain ⟨j, -, hj⟩ := List.mem_map.1 hu
      cases hj
      rw [h.unborn _ _ (Nat.le_refl _)]
      exact .start
  gone b i k d hk hd hnone := by
    rw [World.engine_after, he] at hk
    rcases Nat.lt_or_ge b w.engine.batches.length with hb | hb
    · rw [List.getElem?_append_left hb] at hk
      refine h.gone b i k d hk hd fun u hu => hnone u ?_
      have hut : u ≠ t := fun hut => by
        rw [hut, hplace] at hu
        cases hu
      rw [World.place?_after ht, if_neg hut, if_pos (World.lt_of_place? hu), hu]
    · exfalso
      obtain ⟨hlt, hi⟩ := List.getElem?_eq_some_iff.1 hk
      obtain rfl : b = w.engine.batches.length := by
        rw [List.length_append, List.length_singleton] at hlt
        exact Nat.le_antisymm (Nat.le_of_lt_succ hlt) hb
      obtain rfl : k₀ = k := by simpa using hi
      have hin : i < n := hn ▸ (List.getElem?_eq_some_iff.1 hd).1
      have hle : w.tasks.length ≤ w.tasks.length + i := Nat.le_add_right _ _
      refine hnone (w.tasks.length + i) ?_
      rw [World.place?_after ht, if_neg (Nat.ne_of_gt (Nat.lt_of_lt_of_le ht hle)),
        if_neg (Nat.not_lt.2 hle), Nat.add_sub_cancel_left]
      simp [hin, Activity.place?]
  unborn b i hb := by
    rw [World.engine_after, he, List.length_append] at hb
    exact h.unborn b i (Nat.le_trans (Nat.le_add_right _ _) hb)

end Steps

section Metric

variable {b i : Nat} {m : Metric} {k : Batch} {d : Definition} {s : EngineStep Metric Unit}
  (h : Charted xs w) (hw : w.Regular) (ha : w.activity? t = some (.metric b i m))
  (hk : w.engine.batches[b]? = some k) (hd : k.definitions[i]? = some d)
  (hm : m.step (w.outside out) t b i k d w.engine = some s)

/-- The step of a metric, as it is kept. -/
def taken (w : World) (t : TaskId) (out : Outside) (res : Option Result) (b i : Nat)
    (s : EngineStep Metric Unit) : Move :=
  ⟨w, t, out, w.after t s.engine (s.next.stage?.map (.metric b i)) (s.spawns.map Spawn.activity),
    res⟩

include ha hk hd hm in
theorem takes : Metric.Takes b i d k.token (taken w t out res b i s) m s :=
  ⟨ha, ⟨k, hk, hd, rfl, hm⟩, rfl⟩

include ha in
theorem ownMoves_self :
    ownMoves b i (xs ++ [taken w t out res b i s]) =
      ownMoves b i xs ++ [taken w t out res b i s] := by
  rw [ownMoves_concat, if_pos]
  change w.place? t = some (b, i)
  rw [World.place?, ha]
  rfl

include ha in
theorem ownMoves_other {b' j : Nat} (hne : (b', j) ≠ (b, i)) :
    ownMoves b' j (xs ++ [taken w t out res b i s]) = ownMoves b' j xs := by
  rw [ownMoves_concat, if_neg]
  change w.place? t ≠ some (b', j)
  rw [World.place?, ha]
  exact fun heq => hne (Option.some.inj heq).symm

include h hw ha hk hd hm

theorem going_metric {u : TaskId} {b' j : Nat} {m' : Metric} {k' : Batch} {d' : Definition}
    (hu : (taken w t out res b i s).after.activity? u = some (.metric b' j m'))
    (hk' : s.engine.batches[b']? = some k') (hd' : k'.definitions[j]? = some d') :
    Metric.Path b' j d' k'.token (ownMoves b' j (xs ++ [taken w t out res b i s])) m' := by
  obtain ⟨k₀, hk₀, hds, htoken, -⟩ := Metric.batch_of_step hk hm hk'
  rw [hds] at hd'
  rw [htoken]
  rcases World.activity?_of_after (World.lt_of_activity? ha) hu with ⟨-, hx⟩ | ⟨hut, hu⟩ | hu
  · obtain ⟨m₁, hn, heq⟩ := Option.map_eq_some_iff.1 hx
    cases heq
    obtain rfl : k = k₀ := Option.some.inj (hk.symm.trans hk₀)
    obtain rfl : d = d' := Option.some.inj (hd.symm.trans hd')
    rw [ownMoves_self ha]
    refine (h.going t b i m k d ha hk hd).step (takes ha hk hd hm) ?_
    cases hs : s.next with
    | stage m₂ =>
      rw [hs] at hn
      exact congrArg Next.stage (Option.some.inj hn)
    | done =>
      rw [hs] at hn
      cases hn
  · rw [ownMoves_other ha fun heq => hut ?_]
    · exact h.going u b' j m' k₀ d' hu hk₀ hd'
    · refine hw.unique u t (b', j) ?_ ?_
      · rw [World.place?, hu]
        rfl
      · rw [heq, World.place?, ha]
        rfl
  · cases Metric.place?_of_spawns hm _ hu

theorem gone_metric {b' j : Nat} {k' : Batch} {d' : Definition}
    (hk' : s.engine.batches[b']? = some k') (hd' : k'.definitions[j]? = some d')
    (hnone : ∀ u, (taken w t out res b i s).after.place? u ≠ some (b', j)) :
    ∃ o, k'.outcomes[j]? = some o ∧
      Metric.Ended b' j d' k'.token (ownMoves b' j (xs ++ [taken w t out res b i s])) o := by
  have ht := World.lt_of_activity? ha
  obtain ⟨k₀, hk₀, hds, htoken, houtcomes⟩ := Metric.batch_of_step hk hm hk'
  rw [hds] at hd'
  rw [htoken]
  by_cases heq : (b', j) = (b, i)
  · obtain ⟨rfl, rfl⟩ := Prod.mk.inj heq
    obtain rfl : k = k₀ := Option.some.inj (hk.symm.trans hk₀)
    obtain rfl : d = d' := Option.some.inj (hd.symm.trans hd')
    rcases Metric.step_batch hk hm with ⟨o, rfl, -, hafter⟩ | ⟨⟨m₁, hn⟩, -⟩
    · obtain rfl : k.finish j o = k' := Option.some.inj (hafter.symm.trans hk')
      have hlt : j < k.outcomes.length :=
        (hw.outcomes b' k hk).symm ▸ (List.getElem?_eq_some_iff.1 hd).1
      exact ⟨o, List.getElem?_set_self hlt, _, _, s, ownMoves_self ha,
        h.going t b' j _ k d ha hk hd, takes ha hk hd hm⟩
    · refine absurd ?_ (hnone t)
      rw [taken, World.place?_after ht, if_pos rfl, hn]
      rfl
  · rw [ownMoves_other ha heq, houtcomes j heq]
    refine h.gone b' j k₀ d' hk₀ hd' fun u hu => hnone u ?_
    have hut : u ≠ t := fun hut => heq <| by
      rw [hut, World.place?, ha] at hu
      exact (Option.some.inj hu).symm
    rw [taken, World.place?_after ht, if_neg hut, if_pos (World.lt_of_place? hu), hu]

/-- The step of a metric takes it to its next stage, or to its end, and no other metric anywhere. -/
theorem metric : Charted (xs ++ [taken w t out res b i s]) (taken w t out res b i s).after where
  going _ _ _ _ _ _ := h.going_metric hw ha hk hd hm
  gone _ _ _ _ := h.gone_metric hw ha hk hd hm
  unborn b' j hb := by
    obtain ⟨f, hf⟩ := Metric.step_batches hm
    rw [taken, World.engine_after, hf, List.length_modify] at hb
    rw [ownMoves_other ha fun heq => ?_, h.unborn b' j hb]
    obtain ⟨rfl, -⟩ := Prod.mk.inj heq
    exact absurd (List.getElem?_eq_some_iff.1 hk).1 (Nat.not_lt.2 hb)

end Metric

end Charted

/-- **The metrics are where their own steps have led them, all through the operation.** -/
theorem Operation.charted {xs : List Move} {w : World} (h : Operation xs w) : Charted xs w := by
  induction h with
  | idle he => exact .idle he
  | begin _ ha ih => exact ih.begin (Activity.place?_of_isEntry ha)
  | change _ he ih => exact ih.change he
  | @move xs w w' t out res h hstep ih =>
    cases h.regular.batchStep hstep with
    | metric ha hk hd hm => exact ih.metric h.regular ha hk hd hm
    | opening ht hplace hvalid hbatches hx =>
      exact (ih.opening h.regular ht hplace hbatches hx rfl).concat hplace
    | apart ht hplace hbatches hx has => exact (ih.apart ht hplace hbatches hx has).concat hplace

namespace Operation

variable {xs : List Move} {w : World} {x : Move} {b i : Nat} {k : Batch}

/-- The steps of a metric have led it to where it stands, or it has ended. -/
theorem path_or_ended (h : Operation xs w) (hk : w.engine.batches[b]? = some k) {d : Definition}
    (hd : k.definitions[i]? = some d) :
    (∃ m, Metric.Path b i d k.token (ownMoves b i xs) m) ∨
      ∃ o, Metric.Ended b i d k.token (ownMoves b i xs) o := by
  by_cases hgoing : ∃ t, w.place? t = some (b, i)
  · obtain ⟨t, ht⟩ := hgoing
    obtain ⟨a, ha, hp⟩ := Option.bind_eq_some_iff.1 ht
    cases a with
    | metric b' i' m =>
      cases hp
      exact .inl ⟨m, h.charted.going t b i m k d ha hk hd⟩
    | _ => cases hp
  · push Not at hgoing
    obtain ⟨o, -, hended⟩ := h.charted.gone b i k d hk hd hgoing
    exact .inr ⟨o, hended⟩

/-- A metric that has taken a step is one of its batch. -/
theorem lt_of_mem_ownMoves (h : Operation xs w) (hx : x ∈ ownMoves b i xs)
    (hk : w.engine.batches[b]? = some k) : i < k.definitions.length := by
  obtain ⟨hx, hplace⟩ := mem_ownMoves.1 hx
  have hknown : ∃ k, w.engine.batches[b]? = some k ∧ i < k.definitions.length := by
    refine h.induction_from (P := fun v => ∃ k, v.engine.batches[b]? = some k ∧
      i < k.definitions.length) hx (fun hw hstep => ?_) (fun _ _ _ hv => hv)
      (fun _ _ he hv => he ▸ hv) fun _ _ _ _ _ hv hstep ⟨k, hk, hi⟩ => ?_
    · obtain ⟨k, hk, hi⟩ := hw.known _ b i hplace
      obtain ⟨k', hk', hds, -⟩ := (hw.batchStep hstep).exists_batch hk
      exact ⟨k', hk', hds ▸ hi⟩
    · obtain ⟨k', hk', hds, -⟩ := (hv.batchStep hstep).exists_batch hk
      exact ⟨k', hk', hds ▸ hi⟩
  obtain ⟨k', hk', hi⟩ := hknown
  obtain rfl : k = k' := Option.some.inj (hk.symm.trans hk')
  exact hi

/-- No metric goes on for ever. -/
theorem length_ownMoves_le (h : Operation xs w) (hk : w.engine.batches[b]? = some k) :
    (ownMoves b i xs).length ≤ Metric.rank .start := by
  cases hown : ownMoves b i xs with
  | nil => exact Nat.zero_le _
  | cons x ys =>
    have hx : x ∈ ownMoves b i xs := hown ▸ List.mem_cons_self
    have hd := List.getElem?_eq_getElem (h.lt_of_mem_ownMoves hx hk)
    rw [← hown]
    rcases h.path_or_ended hk hd with ⟨m, hpath⟩ | ⟨o, hended⟩
    · exact Nat.le_trans (Nat.le_add_right _ _) hpath.length_add_rank_le
    · exact hended.length_le

end Operation

end MetricBoard
