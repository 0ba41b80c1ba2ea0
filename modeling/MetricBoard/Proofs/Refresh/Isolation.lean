import MetricBoard.Proofs.Refresh.Completion

/-!
# Metrics are isolated from each other

However the tasks of a batch take their steps, the batch ends with a report that has an outcome for
each metric, and the outcome tells what the metric's own statement came to, whatever became of the
others (`Job.ends_isolated`). The exception is a metric that is crowded: while it waits for its
turn, two others that are never answered may cost it first one connection and then the next, and it
is tried again only once. Two statements that hang in front of a healthy one are enough
(`Job.not_ends_isolated`).
-/

namespace MetricBoard.Job

theorem Reports.tells {j : Job} {backend : Backend} {i : Nat} {d : Definition} {o : Outcome}
    (h : j.Reports backend i d o) :
    o.Tells d (j.own backend d) ∨
      j.Crowded backend d.target i ∧ o.Tells d (.error .discarded) := by
  obtain ⟨x, rfl | ⟨rfl, hcrowded⟩, htells⟩ := h
  · exact .inl htells
  · exact .inr ⟨hcrowded, htells⟩

/-- **Isolation.** Every batch ends with a report, in which each metric has the outcome of its own
statement alone, unless it is crowded and its connection was discarded twice. -/
theorem ends_isolated (j : Job) (backend : Backend) :
    backend.Ends (fun x => ∃ r, x = .reported (.value (some r)) ∧
      r.outcomes.length = j.definitions.length ∧
      ∀ i d o, j.definitions[i]? = some d → r.outcomes[i]? = some o →
        o.Tells d (j.own backend d) ∨
          j.Crowded backend d.target i ∧ o.Tells d (.error .discarded)) j.world := by
  have hout : Outside := ⟨none, ⟨0, 0, 0⟩, 0, "", 0, [], []⟩
  refine .intro ⟨hout, 0, by rw [step_world]; rfl⟩ (fun out w' x h => ?_) fun out t w' res h _ => ?_
  · rw [step_world] at h
    cases h
  · rw [eq_begun_of_step h]
    have h0 : (j.begun out.now).activity? 0 ≠ none := by
      rw [activity?_begun]
      simp
    refine ((inv_begun out.now).ends h0 hout).mono fun x hx => ?_
    obtain ⟨r, rfl, hlen, hright⟩ := hx
    exact ⟨r, rfl, hlen, fun i d o hd ho => (hright i d o hd ho).tells⟩

/-! ## Two statements that hang -/

/-- Two metrics of the relational server that are never answered, and one that is. -/
def hungTwice : Job where
  engine := { router := { servers :=
    ⟨some ⟨true, .relational ⟨"db", 1433, "metrics", "reader", none, true⟩⟩, none⟩ } }
  definitions :=
    [⟨"a", "", "", .relational, none, "COUNT(*) FROM slow", .zero, none, none⟩,
      ⟨"b", "", "", .relational, none, "COUNT(*) FROM slow", .zero, none, none⟩,
      ⟨"c", "", "", .relational, none, "COUNT(*) FROM fine", .zero, none, none⟩]
  token := .never
  admission := ⟨{ limit := 6 }, ⟨{ limit := 4 }, .lock⟩⟩
  atRest := {
    coherent := fun target c h => by cases target <;> cases h
    slots := fun target => by cases target <;> rfl
    turns := fun k h => by cases h }
  accepted := by decide +kernel
  unfired := rfl
  admitted := by decide +kernel

/-- A server that answers one statement, with no rows. -/
def answersFine : Backend where
  reply _ sql :=
    if sql = "SELECT COUNT(*) AS value FROM [dbo].[fine] WITH (NOLOCK)" then some (.ok []) else none
  poisons_eq_false _ sql e h := by
    split at h <;> cases h

/-- The metrics queue on one connection. When the first one has cost it, the other two queue on the
next, in the same order. -/
def hungTwiceOrder : List TaskId :=
  [0] ++ List.replicate 12 1 ++ List.replicate 8 2 ++ List.replicate 8 3 ++ List.replicate 12 1 ++
    List.replicate 10 2 ++ List.replicate 6 3 ++ List.replicate 12 2 ++ List.replicate 9 3 ++ [0, 0]

/-- Behind two statements that hang, a healthy one fails. -/
theorem not_ends_isolated :
    hungTwice.own answersFine
        ⟨"c", "", "", .relational, none, "COUNT(*) FROM fine", .zero, none, none⟩ = .ok .zero ∧
      ¬ answersFine.Ends (fun x => ∃ r : Report, x = .reported (.value (some r)) ∧
        r.outcomes.length = hungTwice.definitions.length ∧
        ∀ (i : Nat) (d : Definition) (o : Outcome), hungTwice.definitions[i]? = some d →
          r.outcomes[i]? = some o → o.Tells d (hungTwice.own answersFine d)) hungTwice.world := by
  have hown : hungTwice.own answersFine
      ⟨"c", "", "", .relational, none, "COUNT(*) FROM fine", .zero, none, none⟩ = .ok .zero := by
    decide +kernel
  refine ⟨hown, fun h => ?_⟩
  let now : Moment := ⟨0, 0, 0⟩
  have hrun : answersFine.run ⟨none, now, 0, "r", 0, [], []⟩ hungTwiceOrder hungTwice.world =
      some (.reported (.value (some ⟨"r", now, now,
        [⟨"a", .relational, false, .zero, some .timeout,
            some "query did not finish within 30000 ms", 0, false⟩,
          ⟨"b", .relational, false, .zero, some .timeout,
            some "query did not finish within 30000 ms", 0, false⟩,
          ⟨"c", .relational, false, .zero, some .connectionError,
            some "connection was discarded while the statement waited", 0, false⟩]⟩))) := by
    decide +kernel
  obtain ⟨r, hr, -, htells⟩ := h.of_run hrun
  cases hr
  have hc := (htells 2 _ _ rfl rfl).result
  rw [hown] at hc
  cases hc.1

end MetricBoard.Job
