import MetricBoard.Proofs.Moment.Order
import MetricBoard.Proofs.Store.Readability

/-!
# The store follows time

The store compares times as texts. For moments in years of four digits this is the order of time,
to the microsecond, so that the snapshots read are the latest ones, the report read is one that
finished last, and pruning removes what is older than the cut-off and nothing else
(`reads_follow_time_iff`). Only the report need not come: one with a value that is not finite is
saved like any other, and as long as it is the last one there is no reading it
(`saved_report_is_lost`).
-/

namespace MetricBoard.Store

/-! ## What is kept -/

/-- The row that keeps a snapshot. -/
def SnapshotRow.ofSnapshot (s : Snapshot) : SnapshotRow :=
  ⟨s.metricId, storedValue s.value, s.error, s.recordedAt.microText⟩

/-- The row that keeps a report. -/
def ReportRow.ofReport (r : Report) : ReportRow := ⟨r.id, r.finishedAt.microText, r.toText⟩

/-- A store keeps some snapshots and reports, and no others. -/
structure Content.Keeps (c : Content) (ss : List Snapshot) (rs : List Report) : Prop where
  history : c.history = ss.map SnapshotRow.ofSnapshot
  reports : c.reports = rs.map ReportRow.ofReport

/-- The snapshot of a recorded refresh, with the time and the value that it was recorded with. -/
def snapshotWith (id : String) (w : Write) : Snapshot := ⟨id, w.value, w.error, w.at_⟩

section

variable {c : Content} {ss : List Snapshot} {rs : List Report}

theorem filter_map_ofSnapshot {p : SnapshotRow → Bool} :
    (ss.map SnapshotRow.ofSnapshot).filter p =
      (ss.filter fun s => p (.ofSnapshot s)).map SnapshotRow.ofSnapshot := List.filter_map

theorem filter_map_ofReport {p : ReportRow → Bool} :
    (rs.map ReportRow.ofReport).filter p =
      (rs.filter fun r => p (.ofReport r)).map ReportRow.ofReport := List.filter_map

theorem Content.Keeps.without (h : c.Keeps ss rs) (ids : List String) :
    (c.without ids).Keeps (ss.filter (·.metricId ∉ ids)) rs where
  history := by
    rw [Content.without, h.history]
    exact filter_map_ofSnapshot
  reports := h.reports

theorem Content.Keeps.pruned (h : c.Keeps ss rs) (cutoff : String) :
    (c.prune cutoff).Keeps (ss.filter fun s => !(s.recordedAt.microText < cutoff))
      (rs.filter fun r => !(r.finishedAt.microText < cutoff)) where
  history := by
    rw [Content.prune, h.history]
    exact filter_map_ofSnapshot
  reports := by
    rw [Content.prune, h.reports]
    exact filter_map_ofReport

/-- A call keeps nothing that was not kept, but for the refresh that it records or the report that
it saves. -/
theorem Content.Keeps.on (h : c.Keeps ss rs) (x : Change) : ∃ ss' rs', (x.on c).2.Keeps ss' rs' ∧
    (∀ s ∈ ss', s ∈ ss ∨ ∃ id w, x = .edit (.recordRefresh id w) ∧ s = snapshotWith id w) ∧
    ∀ r ∈ rs', r ∈ rs ∨ x = .saveReport r := by
  cases x with
  | edit e =>
    cases e with
    | save d => exact ⟨ss, rs, ⟨h.history, h.reports⟩, fun _ => .inl, fun _ => .inl⟩
    | replaceCatalog ds =>
      simp only [Change.on, Edit.on]
      cases repeated? [] ds with
      | some id => exact ⟨ss, rs, h, fun _ => .inl, fun _ => .inl⟩
      | none =>
        have hplaced : Content.Keeps { c with rows := placedRows 0 ds c.rows } ss rs :=
          ⟨h.history, h.reports⟩
        exact ⟨_, rs, hplaced.without _, fun s hs => .inl (List.mem_filter.1 hs).1, fun _ => .inl⟩
    | recordRefresh id w =>
      simp only [Change.on, Edit.on]
      split
      · refine ⟨ss ++ [snapshotWith id w], rs, ⟨?_, h.reports⟩, fun s hs => ?_, fun _ => .inl⟩
        · rw [Content.record, h.history, List.map_append]
          rfl
        · rcases List.mem_append.1 hs with hs | hs
          · exact .inl hs
          · exact .inr ⟨id, w, rfl, List.mem_singleton.1 hs⟩
      · exact ⟨ss, rs, h, fun _ => .inl, fun _ => .inl⟩
  | prune cutoff =>
    exact ⟨_, _, h.pruned cutoff, fun s hs => .inl (List.mem_filter.1 hs).1,
      fun r hr => .inl (List.mem_filter.1 hr).1⟩
  | saveReport r =>
    rw [Change.on]
    split
    · exact ⟨ss, rs, h, fun _ => .inl, fun _ => .inl⟩
    · refine ⟨ss, rs ++ [r], ⟨h.history, ?_⟩, fun _ => .inl, fun r' hr' => ?_⟩
      · rw [Content.saveReport, h.reports, List.map_append]
        rfl
      · rcases List.mem_append.1 hr' with hr' | hr'
        · exact .inl hr'
        · exact .inr (congrArg _ (List.mem_singleton.1 hr').symm)

/-- What any calls leave are refreshes that they recorded and reports that they saved. -/
theorem exists_keeps_after (xs : List Change) : ∃ c ss rs,
    Tables.after xs = Content.tables c ∧ c.Keeps ss rs ∧
      (∀ s ∈ ss, ∃ id w, .edit (.recordRefresh id w) ∈ xs ∧ s = snapshotWith id w) ∧
      ∀ r ∈ rs, .saveReport r ∈ xs := by
  induction xs using List.reverseRecOn with
  | nil =>
    exact ⟨.empty, [], [], Content.tables_empty.symm, ⟨rfl, rfl⟩,
      fun _ h => absurd h List.not_mem_nil, fun _ h => absurd h List.not_mem_nil⟩
  | append_singleton xs x ih =>
    obtain ⟨c, ss, rs, hc, hkeeps, hss, hrs⟩ := ih
    obtain ⟨ss', rs', hkeeps', hss', hrs'⟩ := hkeeps.on x
    refine ⟨(x.on c).2, ss', rs', ?_, hkeeps', fun s hs => ?_, fun r hr => ?_⟩
    · rw [Tables.after_append_singleton, hc, x.work_run_tables]
    · rcases hss' s hs with hs | ⟨id, w, rfl, rfl⟩
      · obtain ⟨id, w, hx, rfl⟩ := hss s hs
        exact ⟨id, w, List.mem_append_left _ hx, rfl⟩
      · exact ⟨id, w, by simp, rfl⟩
    · rcases hrs' r hr with hr | rfl
      · exact List.mem_append_left _ (hrs r hr)
      · simp

end

/-! ## Snapshots -/

/-- The snapshots of a metric, from the latest to the earliest. -/
def latestFirst (ss : List Snapshot) (id : String) : List Snapshot :=
  (ss.filter (·.metricId == id)).mergeSort fun s s' =>
    s'.recordedAt.microsecond ≤ s.recordedAt.microsecond

/-- The snapshot that is read back: its value is finite, and its time is cut to microseconds. -/
def kept (s : Snapshot) : Snapshot :=
  ⟨s.metricId, storedValue s.value, s.error, s.recordedAt.toMicros⟩

section

variable {c : Content} {ss : List Snapshot} {rs : List Report}

theorem latestRows_map (h : ∀ s ∈ ss, s.recordedAt.IsCommon) (id : String) (limit : Nat) :
    latestRows (ss.map .ofSnapshot) id limit =
      ((latestFirst ss id).take limit).map SnapshotRow.ofSnapshot := by
  rw [latestRows, latestFirst, filter_map_ofSnapshot, List.map_take]
  refine congrArg (List.take limit) (List.map_mergeSort fun s hs s' hs' => ?_).symm
  rw [decide_eq_decide]
  exact (Moment.microText_le_iff (h s' (List.mem_filter.1 hs').1)
    (h s (List.mem_filter.1 hs).1)).symm

theorem snapshot_ofSnapshot {s : Snapshot} (h : s.recordedAt.IsCommon) :
    (SnapshotRow.ofSnapshot s).snapshot = .ok (kept s) := by
  rw [SnapshotRow.snapshot, SnapshotRow.ofSnapshot, momentOf,
    Moment.ofStrict?_microText h.plainYear, Moment.stored_eq_toMicros h.leap]
  rfl

theorem mapM_snapshot_ofSnapshot (h : ∀ s ∈ ss, s.recordedAt.IsCommon) :
    (ss.map SnapshotRow.ofSnapshot).mapM SnapshotRow.snapshot = .ok (ss.map kept) := by
  induction ss with
  | nil => rfl
  | cons s ss ih =>
    rw [List.forall_mem_cons] at h
    rw [List.map_cons, List.mapM_cons, snapshot_ofSnapshot h.1, ih h.2]
    rfl

theorem Work.run_tables {α : Type} (work : Work α) (c : Content) :
    work.run c.tables = ((work c.session).1, (work c.session).2.tables) := rfl

theorem snapshots_run (c : Content) (id : String) (limit : Nat) :
    (snapshots id limit).run c.tables =
      ((latestRows c.history id limit).mapM SnapshotRow.snapshot, c.tables) := by
  have hpresent : present c.tables.snapshots = .ok c.history := rfl
  have hkept : (snapshots id limit c.session).2 = c.session := by
    rw [snapshots, statement_session, hpresent]
    simp only [bind, Except.bind]
    cases List.mapM SnapshotRow.snapshot (List.take limit (List.mergeSort
      (List.filter (fun s => s.metricId == id) c.history)
        fun r s => decide (s.recordedAt ≤ r.recordedAt))) <;> rfl
  rw [Work.run_tables, snapshots_session, hkept]
  rfl

theorem latestFirst_perm (ss : List Snapshot) (id : String) :
    (latestFirst ss id).Perm (ss.filter (·.metricId == id)) := List.mergeSort_perm _ _

theorem latestFirst_sorted (ss : List Snapshot) (id : String) : (latestFirst ss id).Pairwise
    fun s s' => s'.recordedAt.microsecond ≤ s.recordedAt.microsecond := by
  have hsorted : (latestFirst ss id).Pairwise fun s s' =>
      decide (s'.recordedAt.microsecond ≤ s.recordedAt.microsecond) = true := by
    refine List.pairwise_mergeSort (fun r s t hrs hst => ?_) (fun s s' => ?_) _
    · simp only [decide_eq_true_eq] at *
      omega
    · simp only [Bool.or_eq_true, decide_eq_true_eq]
      omega
  exact hsorted.imp of_decide_eq_true

/-- The snapshots that are read are the latest ones of the metric. -/
theorem Content.Keeps.snapshots_run (h : c.Keeps ss rs) (hss : ∀ s ∈ ss, s.recordedAt.IsCommon)
    (id : String) (limit : Nat) : (snapshots id limit).run c.tables =
      (.ok (((latestFirst ss id).take limit).map kept), c.tables) := by
  have hlatest : ∀ s ∈ (latestFirst ss id).take limit, s.recordedAt.IsCommon := fun s hs =>
    hss s (List.mem_filter.1 ((latestFirst_perm ss id).mem_iff.1 (List.mem_of_mem_take hs))).1
  rw [Store.snapshots_run, h.history, latestRows_map hss, mapM_snapshot_ofSnapshot hlatest]

/-! ## Reports -/

/-- A report that there is, finished in a year of four digits. Its values may be any doubles. -/
structure IsReport (r : Report) : Prop where
  startedAt : r.startedAt.IsValid
  finishedAt : r.finishedAt.IsCommon
  elapsed : ∀ o ∈ r.outcomes, o.elapsedMs < twoTo 64

theorem IsReport.isValid {r : Report} (h : IsReport r)
    (hfinite : ∀ o ∈ r.outcomes, o.value.isFinite = true) : r.IsValid :=
  ⟨h.startedAt, h.finishedAt.isValid, fun o ho => ⟨hfinite o ho, h.elapsed o ho⟩⟩

/-- A report is read back, but for its numerals, exactly if its values are finite. -/
theorem IsReport.ofText?_toText {r : Report} (h : IsReport r) :
    if ∀ o ∈ r.outcomes, o.value.isFinite = true then
      ∃ r', Report.ofText? r.toText = some r' ∧ r.reread? = some r'
    else Report.ofText? r.toText = none := by
  split
  case isTrue hfinite =>
    obtain ⟨r', hr'⟩ := Report.exists_ofText?_toText (h.isValid hfinite)
    exact ⟨r', hr', (Report.ofText?_toText (h.isValid hfinite)).symm.trans hr'⟩
  case isFalse hfinite =>
    push Not at hfinite
    obtain ⟨o, ho, hvalue⟩ := hfinite
    exact Report.ofText?_toText_eq_none ho (Bool.eq_false_of_not_eq_true hvalue)

theorem latestRow?_eq_none_iff {rows : List ReportRow} : latestRow? rows = none ↔ rows = [] := by
  cases rows with
  | nil => simp [latestRow?]
  | cons r rows =>
    rw [latestRow?]
    split
    · split <;> simp
    · simp

/-- No row finished later than the last one. -/
theorem le_of_latestRow? {rows : List ReportRow} {row : ReportRow}
    (h : latestRow? rows = some row) : ∀ r ∈ rows, r.finishedAt ≤ row.finishedAt := by
  induction rows generalizing row with
  | nil => cases h
  | cons r rows ih =>
    rw [List.forall_mem_cons]
    rw [latestRow?] at h
    split at h
    case h_1 s hs =>
      split at h
      case isTrue hlt =>
        obtain rfl := Option.some.inj h
        exact ⟨String.not_lt.1 fun h => String.lt_irrefl _ (String.lt_trans h hlt), ih hs⟩
      case isFalse hle =>
        obtain rfl := Option.some.inj h
        exact ⟨String.le_refl _, fun r' hr' => String.le_trans (ih hs r' hr') (String.not_lt.1 hle)⟩
    case h_2 hnone =>
      obtain rfl := Option.some.inj h
      rw [latestRow?_eq_none_iff.1 hnone]
      exact ⟨String.le_refl _, fun _ hr' => absurd hr' List.not_mem_nil⟩

/-- The row that is taken is that of a report than which none finished later. -/
theorem exists_latestRow?_eq (hrs : ∀ r ∈ rs, IsReport r) (hne : rs ≠ []) :
    ∃ r ∈ rs, latestRow? (rs.map .ofReport) = some (.ofReport r) ∧
      ∀ r' ∈ rs, r'.finishedAt.microsecond ≤ r.finishedAt.microsecond := by
  have hsome : latestRow? (rs.map .ofReport) ≠ none := fun hnone =>
    hne (List.map_eq_nil_iff.1 (latestRow?_eq_none_iff.1 hnone))
  obtain ⟨row, hrow⟩ := Option.ne_none_iff_exists'.1 hsome
  obtain ⟨r, hr, rfl⟩ := List.mem_map.1 (latestRow?_mem hrow)
  refine ⟨r, hr, hrow, fun r' hr' => ?_⟩
  have hle := le_of_latestRow? hrow _ (List.mem_map_of_mem hr')
  exact (Moment.microText_le_iff (hrs r' hr').finishedAt (hrs r hr).finishedAt).1 hle

theorem latestReport_run (c : Content) : latestReport.run c.tables =
    match latestRow? c.reports with
    | none => (.ok none, c.tables)
    | some row =>
      match Report.ofText? row.json with
      | some r => (.ok (some r), c.tables)
      | none => (.error refusal, c.tables) := by
  have hpresent : present c.tables.reports = .ok c.reports := rfl
  rw [Work.run_tables, latestReport, statement_session, hpresent]
  simp only [bind, Except.bind]
  cases latestRow? c.reports with
  | none => rfl
  | some row =>
    simp only
    generalize Report.ofText? row.json = r
    cases r <;> rfl

/-- The report that is read is one that finished last, if its values are finite; otherwise there is
no reading it. -/
theorem Content.Keeps.latestReport_run (h : c.Keeps ss rs) (hrs : ∀ r ∈ rs, IsReport r)
    (hne : rs ≠ []) : ∃ r ∈ rs,
    (∀ r' ∈ rs, r'.finishedAt.microsecond ≤ r.finishedAt.microsecond) ∧
      if ∀ o ∈ r.outcomes, o.value.isFinite = true then
        ∃ r', r.reread? = some r' ∧ latestReport.run c.tables = (.ok (some r'), c.tables)
      else latestReport.run c.tables = (.error refusal, c.tables) := by
  obtain ⟨r, hr, hrow, hlatest⟩ := exists_latestRow?_eq hrs hne
  have hrun := Store.latestReport_run c
  rw [h.reports, hrow] at hrun
  have hread := (hrs r hr).ofText?_toText
  refine ⟨r, hr, hlatest, ?_⟩
  split at hread
  case isTrue hfinite =>
    obtain ⟨r', hr', hreread⟩ := hread
    rw [if_pos hfinite]
    refine ⟨r', hreread, hrun.trans ?_⟩
    simp only [ReportRow.ofReport, hr']
  case isFalse hfinite =>
    rw [if_neg hfinite, hrun]
    simp only [ReportRow.ofReport, hread]

/-! ## Pruning -/

theorem Content.Keeps.prune_run (h : c.Keeps ss rs) (hss : ∀ s ∈ ss, s.recordedAt.IsCommon)
    (hrs : ∀ r ∈ rs, IsReport r) {cutoff : Moment} (hcutoff : cutoff.IsCommon) :
    ∃ d : Content, (Store.prune cutoff.microText).run c.tables =
        (.ok ⟨ss.countP (·.recordedAt.microsecond < cutoff.microsecond),
          rs.countP (·.finishedAt.microsecond < cutoff.microsecond)⟩, d.tables) ∧
      d.Keeps (ss.filter fun s => cutoff.microsecond ≤ s.recordedAt.microsecond)
        (rs.filter fun r => cutoff.microsecond ≤ r.finishedAt.microsecond) ∧
      d.rows = c.rows := by
  have hsnapshot : ∀ s ∈ ss, s.recordedAt.microText < cutoff.microText ↔
      s.recordedAt.microsecond < cutoff.microsecond := fun s hs =>
    Moment.microText_lt_iff (hss s hs) hcutoff
  have hreport : ∀ r ∈ rs, r.finishedAt.microText < cutoff.microText ↔
      r.finishedAt.microsecond < cutoff.microsecond := fun r hr =>
    Moment.microText_lt_iff (hrs r hr).finishedAt hcutoff
  have hkept := h.pruned cutoff.microText
  have hsnapshots : (ss.filter fun s => !(s.recordedAt.microText < cutoff.microText)) =
      ss.filter fun s => cutoff.microsecond ≤ s.recordedAt.microsecond :=
    List.filter_congr fun s hs => by
      rw [← decide_not, decide_eq_decide, hsnapshot s hs, Int.not_lt]
  have hreports : (rs.filter fun r => !(r.finishedAt.microText < cutoff.microText)) =
      rs.filter fun r => cutoff.microsecond ≤ r.finishedAt.microsecond :=
    List.filter_congr fun r hr => by
      rw [← decide_not, decide_eq_decide, hreport r hr, Int.not_lt]
  rw [hsnapshots, hreports] at hkept
  have hcount : c.history.countP (·.recordedAt < cutoff.microText) =
      ss.countP (·.recordedAt.microsecond < cutoff.microsecond) := by
    rw [h.history, List.countP_map]
    refine List.countP_congr fun s hs => ?_
    rw [Function.comp_apply, decide_eq_true_eq, decide_eq_true_eq]
    exact hsnapshot s hs
  have hcount' : c.reports.countP (·.finishedAt < cutoff.microText) =
      rs.countP (·.finishedAt.microsecond < cutoff.microsecond) := by
    rw [h.reports, List.countP_map]
    refine List.countP_congr fun r hr => ?_
    rw [Function.comp_apply, decide_eq_true_eq, decide_eq_true_eq]
    exact hreport r hr
  refine ⟨c.prune cutoff.microText, ?_, hkept, rfl⟩
  rw [Work.run_tables, prune_session, hcount, hcount', Content.session]

/-- **Reads and pruning follow time, but for a report that is lost.** Let a store keep some
snapshots and reports whose times are in years of four digits; times compare by their microseconds.
* The snapshots that are read are as many of the metric's latest ones as the limit allows, from the
  latest on.
* The report that is read is one than which none finished later, with each value as its numeral is
  read, if and only if its values are finite; otherwise the reading fails.
* Pruning to a cut-off in these years removes the snapshots and the reports from before it and no
  others, counts them, and leaves the definitions. -/
theorem reads_follow_time_iff {c : Content} {ss : List Snapshot} {rs : List Report}
    (h : c.Keeps ss rs) (hss : ∀ s ∈ ss, s.recordedAt.IsCommon) (hrs : ∀ r ∈ rs, IsReport r) :
    (∀ id limit, ∃ latest rest : List Snapshot,
      (snapshots id limit).run c.tables = (.ok (latest.map kept), c.tables) ∧
      (latest ++ rest).Perm (ss.filter (·.metricId == id)) ∧
      latest.length = min limit (ss.countP (·.metricId == id)) ∧
      latest.Pairwise (fun s s' => s'.recordedAt.microsecond ≤ s.recordedAt.microsecond) ∧
      ∀ s ∈ latest, ∀ s' ∈ rest, s'.recordedAt.microsecond ≤ s.recordedAt.microsecond) ∧
    (rs = [] → latestReport.run c.tables = (.ok none, c.tables)) ∧
    (rs ≠ [] → ∃ r ∈ rs, (∀ r' ∈ rs, r'.finishedAt.microsecond ≤ r.finishedAt.microsecond) ∧
      if ∀ o ∈ r.outcomes, o.value.isFinite = true then
        ∃ r', r.reread? = some r' ∧ latestReport.run c.tables = (.ok (some r'), c.tables)
      else latestReport.run c.tables = (.error refusal, c.tables)) ∧
    ∀ (now cutoff : Moment) (days : Nat), now.IsValid → now.minusDays? days = some cutoff →
      cutoff.HasPlainYear → ∃ (text : String) (d : Content), cutoff? now days = some text ∧
        (prune text).run c.tables =
          (.ok ⟨ss.countP (·.recordedAt.microsecond < cutoff.microsecond),
            rs.countP (·.finishedAt.microsecond < cutoff.microsecond)⟩, d.tables) ∧
        d.Keeps (ss.filter fun s => cutoff.microsecond ≤ s.recordedAt.microsecond)
          (rs.filter fun r => cutoff.microsecond ≤ r.finishedAt.microsecond) ∧
        d.rows = c.rows := by
  refine ⟨fun id limit => ?_, fun hnil => ?_, h.latestReport_run hrs,
    fun now cutoff days hnow hminus hyear => ?_⟩
  · have hsorted := latestFirst_sorted ss id
    rw [← List.take_append_drop limit (latestFirst ss id), List.pairwise_append] at hsorted
    refine ⟨_, (latestFirst ss id).drop limit, h.snapshots_run hss id limit, ?_, ?_, hsorted.1,
      hsorted.2.2⟩
    · rw [List.take_append_drop]
      exact latestFirst_perm ss id
    · rw [List.length_take, (latestFirst_perm ss id).length_eq, List.countP_eq_length_filter]
  · rw [latestReport_run, h.reports, hnil]
    rfl
  · have hcutoff : cutoff.IsCommon := by
      obtain ⟨-, hcutoff⟩ := Option.ite_none_right_eq_some.1 hminus
      obtain rfl := Option.some.inj hcutoff
      exact ⟨hyear, hnow.leap⟩
    obtain ⟨d, hrun, hkeeps, hrows⟩ := h.prune_run hss hrs hcutoff
    exact ⟨cutoff.microText, d, by rw [cutoff?, hminus, Option.map_some], hrun, hkeeps, hrows⟩

end

/-- The last minute of 2016 had a leap second. -/
def leapSecond : Moment := sampleReport.startedAt

/-- The report that finished in a leap second. -/
def leapReport : Report := { sampleReport with finishedAt := leapSecond }

theorem leapSecond_isCommon : leapSecond.IsCommon := ⟨⟨by decide, by decide⟩, by decide⟩

theorem leapReport_isReport : IsReport leapReport where
  startedAt := sampleReport_isValid.startedAt
  finishedAt := leapSecond_isCommon
  elapsed o ho := (sampleReport_isValid.outcomes o ho).elapsed

/-- A day after a leap second that a refresh and a report ended in, pruning what is older than a
day leaves them, and the report is read. -/
theorem reads_follow_time_iff_leap_second :
    let s : Snapshot := ⟨"orders", .one, none, leapSecond⟩
    let s' : Snapshot := ⟨"orders", .zero, some "late", { leapSecond with nano := 0 }⟩
    let c : Content := ⟨[], [.ofSnapshot s, .ofSnapshot s'], [.ofReport leapReport], some "2"⟩
    (∃ r, leapReport.reread? = some r ∧ latestReport.run c.tables = (.ok (some r), c.tables)) ∧
      ∃ (text : String) (d : Content), cutoff? { leapSecond with day := 17167 } 1 = some text ∧
        (prune text).run c.tables = (.ok ⟨1, 0⟩, d.tables) := by
  intro s s' c
  have hkeeps : c.Keeps [s, s'] [leapReport] := ⟨rfl, rfl⟩
  have hss : ∀ x ∈ [s, s'], x.recordedAt.IsCommon := by
    rw [List.forall_mem_cons, List.forall_mem_singleton]
    exact ⟨leapSecond_isCommon, ⟨leapSecond_isCommon.plainYear, .inl (by decide)⟩⟩
  have hrs : ∀ r ∈ [leapReport], IsReport r := List.forall_mem_singleton.2 leapReport_isReport
  have hfinite : ∀ o ∈ leapReport.outcomes, o.value.isFinite = true := fun o ho =>
    (sampleReport_isValid.outcomes o ho).finite
  obtain ⟨-, -, hlatest, hprune⟩ := reads_follow_time_iff hkeeps hss hrs
  constructor
  · obtain ⟨r, hr, -, hread⟩ := hlatest (List.cons_ne_nil _ _)
    obtain rfl := List.mem_singleton.1 hr
    rwa [if_pos hfinite] at hread
  · obtain ⟨text, d, hcutoff, hrun, -, -⟩ := hprune { leapSecond with day := 17167 } leapSecond 1
      ⟨by decide, by decide, .inr (by decide)⟩ (by decide) leapSecond_isCommon.plainYear
    have hcount : [s, s'].countP (·.recordedAt.microsecond < leapSecond.microsecond) = 1 := by
      decide
    have hcount' : [leapReport].countP (·.finishedAt.microsecond < leapSecond.microsecond) = 0 := by
      decide
    rw [hcount, hcount'] at hrun
    exact ⟨text, d, hcutoff, hrun⟩

/-- A report of an infinite value is saved, and is not read back although no other one finished
later. -/
theorem saved_report_is_lost :
    let o : Outcome := ⟨"orders", .relational, true, .infinity false, none, none, 0, true⟩
    let r : Report := { leapReport with outcomes := [o] }
    let c : Content := Content.empty.saveReport r
    IsReport r ∧ c.Keeps [] [r] ∧
      (Change.saveReport r).work.run Tables.fresh = (.ok .saved, c.tables) ∧
      latestReport.run c.tables = (.error refusal, c.tables) := by
  intro o r c
  have hr : IsReport r := by
    refine ⟨leapReport_isReport.startedAt, leapReport_isReport.finishedAt, ?_⟩
    rw [List.forall_mem_singleton]
    exact Nat.pow_pos Nat.two_pos
  have hkeeps : c.Keeps [] [r] := ⟨rfl, rfl⟩
  have hinfinite : ¬ ∀ o ∈ r.outcomes, o.value.isFinite = true := by
    rw [List.forall_mem_singleton]
    decide
  refine ⟨hr, hkeeps, ?_, ?_⟩
  · rw [← Content.tables_empty, Change.work_run_tables]
    rfl
  · obtain ⟨r', hr', -, hread⟩ := hkeeps.latestReport_run (List.forall_mem_singleton.2 hr)
      (List.cons_ne_nil _ _)
    obtain rfl := List.mem_singleton.1 hr'
    rwa [if_neg hinfinite] at hread

end MetricBoard.Store
