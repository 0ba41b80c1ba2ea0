import Mathlib.Data.List.Induction
import MetricBoard.Proofs.Store.Rows

/-!
# The history and the definitions

A snapshot of the history belongs to a definition, and a definition whose refresh fields were last
written by a recorded refresh agrees with the last snapshot of its id, unless that one was pruned.
Both tables are changed by several calls: saving and replacing the catalog must not drop the
history of an id that stays, replacing must drop that of one that goes, and recording must write
the same to both. What each call does to the history is `HistoryStep`; that the two tables agree
after any number of calls is `histories_consistent`.
-/

namespace MetricBoard.Store

namespace Tables

/-- The rows of the definitions. -/
def rows (t : Tables) : List DefinitionRow := (t.definitions.map DefinitionTable.rows).getD []

/-- The history. -/
def history (t : Tables) : List SnapshotRow := t.snapshots.getD []

/-- The history of a metric. -/
def historyOf (t : Tables) (id : String) : List SnapshotRow := t.history.filter (·.metricId = id)

/-- The tables that some calls, one after the other, leave of a fresh store. -/
def after (xs : List Change) : Tables := xs.foldl (fun t x => (x.work.run t).2) fresh

theorem after_append_singleton (xs : List Change) (x : Change) :
    after (xs ++ [x]) = (x.work.run (after xs)).2 :=
  List.foldl_append ..

end Tables

/-- The snapshot of a refresh. -/
def snapshotOf (id : String) (w : Write) : SnapshotRow :=
  ⟨id, storedValue w.value, w.error, w.at_.microText⟩

/-- A row is that of the snapshot's metric and has its value, error and time. -/
def SnapshotRow.Agrees (s : SnapshotRow) (r : DefinitionRow) : Prop :=
  r.id = s.metricId ∧ r.lastValue = s.value ∧ r.lastError = s.error ∧
    r.lastUpdated = some s.recordedAt

/-- What a call with its answer does to the history: a refresh that is recorded adds its snapshot,
which agrees with the definition; a new catalog keeps the history of its ids and of no others; and
nothing but pruning takes away anything else. -/
def HistoryStep (t t' : Tables) : Change → Except AppError Answer → Prop
  | .edit (.save _), _ => t'.history = t.history
  | .edit (.replaceCatalog ds), .ok _ =>
    ∀ id, t'.historyOf id = if id ∈ ds.map Definition.id then t.historyOf id else []
  | .edit (.recordRefresh id w), .ok _ =>
    t'.history = t.history ++ [snapshotOf id w] ∧ ∃ r ∈ t'.rows, (snapshotOf id w).Agrees r
  | .edit (.replaceCatalog _), .error _ | .edit (.recordRefresh _ _), .error _ => t' = t
  | .prune cutoff, _ => t'.history = t.history.filter (¬ ·.recordedAt < cutoff)
  | .saveReport _, _ => t'.history = t.history

/-- The call writes or drops the refresh fields of an id. -/
def Change.SetsRefresh (id : String) : Change → Prop
  | .edit (.save d) => d.id = id
  | .edit (.replaceCatalog ds) => (ds.map Definition.id).Nodup ∧ id ∉ ds.map Definition.id
  | .edit (.recordRefresh x _) => x = id
  | .prune _ | .saveReport _ => False

/-! ## Rows after a call -/

section

variable {c : Content} {id : String}

theorem save_rows_perm (h : (idsOf c.rows).Nodup) (d : Definition) :
    ∃ r, r.id = d.id ∧ (c.save d).rows.Perm (r :: c.rows.filter (·.id ≠ d.id)) := by
  refine ⟨_, ?_, upsert_perm h⟩
  exact upserted_id fun _ _ => rfl

theorem subset_idsOf_save (h : (idsOf c.rows).Nodup) (d : Definition) (hid : id ∈ idsOf c.rows) :
    id ∈ idsOf (c.save d).rows := by
  obtain ⟨r, hr, hperm⟩ := save_rows_perm h d
  obtain ⟨s, hs, rfl⟩ := List.mem_map.1 hid
  rw [(hperm.map DefinitionRow.id).mem_iff, List.map_cons, hr]
  by_cases hd : s.id = d.id
  · exact hd ▸ List.mem_cons_self
  · exact List.mem_cons_of_mem _ (List.mem_map_of_mem (List.mem_filter.2 ⟨hs, by simpa using hd⟩))

theorem mem_idsOf_replace {ds : List Definition} (h : (idsOf c.rows).Nodup)
    (hds : (ds.map Definition.id).Nodup) :
    id ∈ idsOf (c.replace ds).rows ↔ id ∈ ds.map Definition.id := by
  rw [((Content.replace_rows_perm h hds).map _).mem_iff, ← idsOf, heirRows_ids]

theorem idsOf_record (w : Write) : idsOf (c.record id w).rows = idsOf c.rows :=
  idsOf_update (f := fun r => r.recorded w) (fun _ => rfl) c.rows id

theorem exists_heirRow_mem (rows : List DefinitionRow) {d : Definition} {ds : List Definition}
    (h : d ∈ ds) (n : Nat) : ∃ m : Int, heirRow rows m d ∈ heirRows rows n ds := by
  induction ds generalizing n with
  | nil => cases h
  | cons d' ds ih =>
    rcases List.mem_cons.1 h with rfl | h
    · exact ⟨n, List.mem_cons_self⟩
    · obtain ⟨m, hm⟩ := ih h (n + 1)
      exact ⟨m, List.mem_cons_of_mem _ hm⟩

/-! ## Agreement -/

theorem agrees_replace {s : SnapshotRow} {ds : List Definition} (hnodup : (idsOf c.rows).Nodup)
    (hds : (ds.map Definition.id).Nodup) (hid : s.metricId ∈ ds.map Definition.id)
    (h : ∃ r ∈ c.rows, s.Agrees r) : ∃ r ∈ (c.replace ds).rows, s.Agrees r := by
  obtain ⟨r, hr, hrid, hvalue, herror, htime⟩ := h
  obtain ⟨d, hd, hdid⟩ := List.mem_map.1 hid
  obtain ⟨n, hn⟩ := exists_heirRow_mem c.rows hd 0
  have hrow : rowOf? c.rows d.id = some r :=
    (rowOf?_eq_some_iff hnodup).2 ⟨hr, hrid.trans hdid.symm⟩
  refine ⟨_, (Content.replace_rows_perm hnodup hds).mem_iff.2 hn, (heirRow_id ..).trans hdid, ?_⟩
  rw [heirRow, hrow]
  exact ⟨hvalue, herror, htime⟩

/-- The refresh fields of an id stay when a call does not set them. -/
theorem agrees_on {s : SnapshotRow} (hnodup : (idsOf c.rows).Nodup)
    (h : ∃ r ∈ c.rows, s.Agrees r) {x : Change} (hx : ¬ x.SetsRefresh s.metricId) :
    ∃ r ∈ (x.on c).2.rows, s.Agrees r := by
  obtain ⟨r, hr, hagrees⟩ := h
  cases x with
  | edit e =>
    cases e with
    | save d =>
      have hne : r.id ≠ d.id := fun hid => hx (hid.symm.trans hagrees.1)
      obtain ⟨r', -, hperm⟩ := save_rows_perm hnodup d
      have hmem : r ∈ c.rows.filter (·.id ≠ d.id) := List.mem_filter.2 ⟨hr, by simpa using hne⟩
      exact ⟨r, hperm.mem_iff.2 (List.mem_cons_of_mem _ hmem), hagrees⟩
    | replaceCatalog ds =>
      simp only [Change.on, Edit.on]
      cases hrepeated : repeated? [] ds with
      | some id => exact ⟨r, hr, hagrees⟩
      | none =>
        have hds := (repeated?_eq_none_iff.1 hrepeated).1
        have hid : s.metricId ∈ ds.map Definition.id := by
          by_contra hid
          exact hx ⟨hds, hid⟩
        exact agrees_replace hnodup hds hid ⟨r, hr, hagrees⟩
    | recordRefresh id w =>
      simp only [Change.on, Edit.on]
      split
      · have hne : r.id ≠ id := fun hid => hx (hid.symm.trans hagrees.1)
        refine ⟨r, List.mem_map.2 ⟨r, hr, if_neg ?_⟩, hagrees⟩
        simpa using hne
      · exact ⟨r, hr, hagrees⟩
  | prune cutoff => exact ⟨r, hr, hagrees⟩
  | saveReport report =>
    rw [Change.on]
    split <;> exact ⟨r, hr, hagrees⟩

theorem agrees_record (w : Write) (h : id ∈ idsOf c.rows) :
    ∃ r ∈ (c.record id w).rows, (snapshotOf id w).Agrees r := by
  obtain ⟨r, hr, rfl⟩ := List.mem_map.1 h
  refine ⟨r.recorded w, List.mem_map.2 ⟨r, hr, if_pos (beq_self_eq_true r.id)⟩, ?_⟩
  exact ⟨rfl, rfl, rfl, rfl⟩

/-! ## The history after a call -/

/-- Snapshots belong to definitions, of which there is one for an id. -/
structure Linked (c : Content) : Prop where
  nodup : (idsOf c.rows).Nodup
  belongs : ∀ s ∈ c.history, s.metricId ∈ idsOf c.rows

theorem Linked.empty : Linked .empty := ⟨List.nodup_nil, fun _ h => absurd h List.not_mem_nil⟩

theorem filter_filter_comm {α : Type} (p q : α → Bool) (l : List α) :
    (l.filter p).filter q = (l.filter q).filter p := by
  rw [List.filter_filter, List.filter_filter]
  exact List.filter_congr fun _ _ => Bool.and_comm _ _

/-- A new catalog keeps the history of its ids and of no others. -/
theorem Linked.historyOf_replace (h : Linked c) (ds : List Definition) (id : String) :
    (c.replace ds).tables.historyOf id =
      if id ∈ ds.map Definition.id then c.tables.historyOf id else [] := by
  have hhistory : (c.replace ds).tables.historyOf id =
      (c.history.filter (·.metricId = id)).filter (·.metricId ∉ gone ds c.rows) := by
    exact filter_filter_comm _ _ c.history
  rw [hhistory]
  split <;> rename_i hid
  · refine List.filter_eq_self.2 fun s hs => decide_eq_true fun hgone => (mem_gone.1 hgone).2 ?_
    exact of_decide_eq_true (List.mem_filter.1 hs).2 ▸ hid
  · refine List.filter_eq_nil_iff.2 fun s hs hkept => of_decide_eq_true hkept (mem_gone.2 ?_)
    obtain ⟨hs, hsid⟩ := List.mem_filter.1 hs
    exact ⟨h.belongs s hs, of_decide_eq_true hsid ▸ hid⟩

theorem Linked.on (h : Linked c) (x : Change) : Linked (x.on c).2 := by
  cases x with
  | edit e =>
    refine ⟨e.on_nodup h.nodup, ?_⟩
    cases e with
    | save d => exact fun s hs => subset_idsOf_save h.nodup d (h.belongs s hs)
    | replaceCatalog ds =>
      simp only [Change.on, Edit.on]
      cases hrepeated : repeated? [] ds with
      | some id => exact h.belongs
      | none =>
        intro s hs
        obtain ⟨hs, hkept⟩ := List.mem_filter.1 hs
        rw [mem_idsOf_replace h.nodup (repeated?_eq_none_iff.1 hrepeated).1]
        by_contra hid
        exact of_decide_eq_true hkept (mem_gone.2 ⟨h.belongs s hs, hid⟩)
    | recordRefresh id w =>
      simp only [Change.on, Edit.on]
      split <;> rename_i hhas
      · intro s hs
        rw [idsOf_record]
        rcases List.mem_append.1 hs with hs | hs
        · exact h.belongs s hs
        · exact List.mem_singleton.1 hs ▸ any_id_eq_true.1 hhas
      · exact h.belongs
  | prune cutoff => exact ⟨h.nodup, fun s hs => h.belongs s (List.mem_filter.1 hs).1⟩
  | saveReport r =>
    rw [Change.on]
    split <;> exact ⟨h.nodup, h.belongs⟩

theorem Linked.historyStep (h : Linked c) (x : Change) :
    HistoryStep c.tables (x.on c).2.tables x (x.on c).1 := by
  cases x with
  | edit e =>
    cases e with
    | save d => exact rfl
    | replaceCatalog ds =>
      simp only [Change.on, Edit.on]
      cases repeated? [] ds with
      | some id => exact rfl
      | none => exact h.historyOf_replace ds
    | recordRefresh id w =>
      simp only [Change.on, Edit.on]
      split <;> rename_i hhas
      · exact ⟨rfl, agrees_record w (any_id_eq_true.1 hhas)⟩
      · exact rfl
  | prune cutoff => exact List.filter_congr fun _ _ => decide_not.symm
  | saveReport r =>
    rw [Change.on]
    split <;> exact rfl

theorem Linked.historyOf_eq_nil (h : Linked c) (hid : id ∉ idsOf c.rows) :
    c.tables.historyOf id = [] :=
  List.filter_eq_nil_iff.2 fun s hs hsid => hid (of_decide_eq_true hsid ▸ h.belongs s hs)

/-- An id that comes into the definitions has no history. -/
theorem Linked.historyOf_newcomer (h : Linked c) (x : Change) (hid : id ∉ idsOf c.rows)
    (hid' : id ∈ idsOf (x.on c).2.rows) : (x.on c).2.tables.historyOf id = [] := by
  have hnone := h.historyOf_eq_nil hid
  cases x with
  | edit e =>
    cases e with
    | save d => exact hnone
    | replaceCatalog ds =>
      simp only [Change.on, Edit.on] at hid' ⊢
      cases hrepeated : repeated? [] ds with
      | some id => exact hnone
      | none =>
        simp only
        rw [h.historyOf_replace, hnone, ite_self]
    | recordRefresh id' w =>
      simp only [Change.on, Edit.on] at hid' ⊢
      split at hid'
      · exact absurd (idsOf_record (c := c) w ▸ hid') hid
      · exact absurd hid' hid
  | prune cutoff => exact absurd hid' hid
  | saveReport r =>
    rw [Change.on] at hid'
    split at hid' <;> exact absurd hid' hid

/-- The last snapshot of an id stays the last one when a call neither sets the refresh fields nor
prunes it. -/
theorem Linked.getLast?_on (h : Linked c) {s : SnapshotRow}
    (hlast : (c.tables.historyOf s.metricId).getLast? = some s) {x : Change}
    (hx : ¬ x.SetsRefresh s.metricId)
    (hkept : ∀ cutoff, x = .prune cutoff → ¬ s.recordedAt < cutoff) :
    ((x.on c).2.tables.historyOf s.metricId).getLast? = some s := by
  cases x with
  | edit e =>
    cases e with
    | save d => exact hlast
    | replaceCatalog ds =>
      simp only [Change.on, Edit.on]
      cases hrepeated : repeated? [] ds with
      | some id => exact hlast
      | none =>
        have hid : s.metricId ∈ ds.map Definition.id := by
          by_contra hid
          exact hx ⟨(repeated?_eq_none_iff.1 hrepeated).1, hid⟩
        simp only
        rw [h.historyOf_replace, if_pos hid]
        exact hlast
    | recordRefresh id w =>
      simp only [Change.on, Edit.on]
      split
      · have hother : [snapshotOf id w].filter (·.metricId = s.metricId) = [] :=
          List.filter_eq_nil_iff.2 fun r hr hid => by
            rw [List.mem_singleton.1 hr, decide_eq_true_eq] at hid
            exact hx hid
        change ((c.history ++ [snapshotOf id w]).filter (·.metricId = s.metricId)).getLast? = some s
        rw [List.filter_append, hother, List.append_nil]
        exact hlast
      · exact hlast
  | prune cutoff =>
    obtain ⟨rest, hrest⟩ := List.getLast?_eq_some_iff.1 hlast
    have hlate : [s].filter (fun r => !(r.recordedAt < cutoff)) = [s] :=
      List.filter_eq_self.2 fun r hr => by
        rw [List.mem_singleton.1 hr, decide_eq_false (hkept cutoff rfl), Bool.not_false]
    change ((c.history.filter fun r => !(r.recordedAt < cutoff)).filter
      (·.metricId = s.metricId)).getLast? = some s
    rw [filter_filter_comm]
    change ((c.tables.historyOf s.metricId).filter _).getLast? = _
    rw [hrest, List.filter_append, hlate, List.getLast?_concat]
  | saveReport r =>
    rw [Change.on]
    split <;> exact hlast

end

/-! ## Any number of calls -/

theorem exists_content_after (xs : List Change) :
    ∃ c : Content, Tables.after xs = c.tables ∧ Linked c := by
  induction xs using List.reverseRecOn with
  | nil => exact ⟨.empty, Content.tables_empty.symm, .empty⟩
  | append_singleton xs x ih =>
    obtain ⟨c, hc, hlinked⟩ := ih
    refine ⟨(x.on c).2, ?_, hlinked.on x⟩
    rw [Tables.after_append_singleton, hc, x.work_run_tables]

/-- A recorded refresh agrees with its definition, and is the last of its id. -/
theorem recorded_after {xs : List Change} {id : String} {w : Write} {a : Answer}
    (h : ((Change.edit (.recordRefresh id w)).work.run (Tables.after xs)).1 = .ok a) :
    let t := Tables.after (xs ++ [.edit (.recordRefresh id w)])
    (∃ r ∈ t.rows, (snapshotOf id w).Agrees r) ∧
      (t.historyOf id).getLast? = some (snapshotOf id w) := by
  intro t
  obtain ⟨c, hc, hlinked⟩ := exists_content_after xs
  have ht : t = ((Change.edit (.recordRefresh id w)).on c).2.tables := by
    change Tables.after (xs ++ _) = _
    rw [Tables.after_append_singleton, hc, Change.work_run_tables]
  rw [hc, Change.work_run_tables] at h
  have hstep := hlinked.historyStep (.edit (.recordRefresh id w))
  rw [← ht, show ((Change.edit (.recordRefresh id w)).on c).1 = .ok a from h] at hstep
  obtain ⟨hhistory, hagrees⟩ := hstep
  refine ⟨hagrees, ?_⟩
  have hown : [snapshotOf id w].filter (·.metricId = id) = [snapshotOf id w] :=
    List.filter_eq_self.2 fun r hr => by
      rw [List.mem_singleton.1 hr]
      exact decide_eq_true rfl
  rw [Tables.historyOf, hhistory, List.filter_append, hown, List.getLast?_concat]

theorem exists_agrees_after {s : SnapshotRow} {xs : List Change}
    (h : ∃ r ∈ (Tables.after xs).rows, s.Agrees r) {zs : List Change}
    (hzs : ∀ z ∈ zs, ¬ z.SetsRefresh s.metricId) :
    ∃ r ∈ (Tables.after (xs ++ zs)).rows, s.Agrees r := by
  induction zs using List.reverseRecOn with
  | nil => rwa [List.append_nil]
  | append_singleton zs z ih =>
    obtain ⟨c, hc, hlinked⟩ := exists_content_after (xs ++ zs)
    have hagrees := ih fun z' hz' => hzs z' (List.mem_append_left _ hz')
    rw [hc] at hagrees
    rw [← List.append_assoc, Tables.after_append_singleton, hc, z.work_run_tables]
    exact agrees_on hlinked.nodup hagrees (hzs z (by simp))

theorem getLast?_historyOf_after {s : SnapshotRow} {xs : List Change}
    (h : ((Tables.after xs).historyOf s.metricId).getLast? = some s) {zs : List Change}
    (hzs : ∀ z ∈ zs, ¬ z.SetsRefresh s.metricId)
    (hkept : ∀ cutoff, .prune cutoff ∈ zs → ¬ s.recordedAt < cutoff) :
    ((Tables.after (xs ++ zs)).historyOf s.metricId).getLast? = some s := by
  induction zs using List.reverseRecOn with
  | nil => rwa [List.append_nil]
  | append_singleton zs z ih =>
    obtain ⟨c, hc, hlinked⟩ := exists_content_after (xs ++ zs)
    have hlast := ih (fun z' hz' => hzs z' (List.mem_append_left _ hz'))
      fun cutoff hz' => hkept cutoff (List.mem_append_left _ hz')
    rw [hc] at hlast
    rw [← List.append_assoc, Tables.after_append_singleton, hc, z.work_run_tables]
    exact hlinked.getLast?_on hlast (hzs z (by simp)) fun cutoff hz => hkept cutoff (by simp [hz])

/-- **The history and the definitions agree.** After any calls on a fresh store,
* every snapshot belongs to a definition,
* the next call does to the history what it should, and what it adds agrees with the definition,
* an id that the next call brings in, or back, has no history, and
* where a refresh of an id was recorded and no later call set its refresh fields, the definition
  agrees with that refresh's snapshot, and this is the last of its id, unless it was pruned. -/
theorem histories_consistent (xs : List Change) :
    let t := Tables.after xs
    (∀ s ∈ t.history, s.metricId ∈ idsOf t.rows) ∧
      (∀ x : Change, HistoryStep t (x.work.run t).2 x (x.work.run t).1) ∧
      (∀ (x : Change) (id : String), id ∉ idsOf t.rows → id ∈ idsOf (x.work.run t).2.rows →
        (x.work.run t).2.historyOf id = []) ∧
      ∀ ys id w a zs, xs = ys ++ .edit (.recordRefresh id w) :: zs →
        ((Change.edit (.recordRefresh id w)).work.run (Tables.after ys)).1 = .ok a →
        (∀ z ∈ zs, ¬ z.SetsRefresh id) →
        (∃ r ∈ t.rows, (snapshotOf id w).Agrees r) ∧
          ((∀ cutoff, .prune cutoff ∈ zs → ¬ (snapshotOf id w).recordedAt < cutoff) →
            (t.historyOf id).getLast? = some (snapshotOf id w)) := by
  intro t
  obtain ⟨c, hc, hlinked⟩ := exists_content_after xs
  have ht : t = c.tables := hc
  refine ⟨?_, fun x => ?_, fun x id => ?_, ?_⟩
  · rw [ht]
    exact hlinked.belongs
  · rw [ht, x.work_run_tables]
    exact hlinked.historyStep x
  · rw [ht, x.work_run_tables]
    exact hlinked.historyOf_newcomer x
  · rintro ys id w a zs rfl hrecorded hzs
    obtain ⟨hagrees, hlast⟩ := recorded_after hrecorded
    have hsplit : ys ++ .edit (.recordRefresh id w) :: zs =
        ys ++ [.edit (.recordRefresh id w)] ++ zs := by simp
    rw [ht, ← hc, hsplit]
    exact ⟨exists_agrees_after hagrees hzs, getLast?_historyOf_after hlast hzs⟩

/-- A metric is saved and refreshed, a new catalog puts another one before it, and a cutoff does
not reach its refresh. -/
theorem histories_consistent_kept :
    let w : Write := ⟨.one, none, .epoch⟩
    let swap := Change.edit (.replaceCatalog [{ orders with id := "sales" }, orders])
    let prune := Change.prune "1960-01-01T00:00:00.000000Z"
    let t := Tables.after ([.edit (.save orders)] ++
      .edit (.recordRefresh "orders" w) :: [swap, prune])
    (∃ r ∈ t.rows, (snapshotOf "orders" w).Agrees r) ∧
      (t.historyOf "orders").getLast? = some (snapshotOf "orders" w) := by
  intro w swap prune t
  have hsets : ∀ z ∈ [swap, prune], ¬ z.SetsRefresh "orders" := by
    rw [List.forall_mem_cons, List.forall_mem_singleton]
    exact ⟨fun hset => hset.2 (by decide), id⟩
  have hkept : ∀ cutoff, .prune cutoff ∈ [swap, prune] →
      ¬ (snapshotOf "orders" w).recordedAt < cutoff := by
    intro cutoff hcutoff
    obtain rfl : cutoff = "1960-01-01T00:00:00.000000Z" := by
      simpa [swap, prune] using hcutoff
    decide
  obtain ⟨hagrees, hlast⟩ := (histories_consistent _).2.2.2 [.edit (.save orders)] "orders" w
    (.recorded ⟨"orders", .one, none, .epoch⟩) _ rfl rfl hsets
  exact ⟨hagrees, hlast hkept⟩

end MetricBoard.Store
