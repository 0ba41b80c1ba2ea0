import MetricBoard.Proofs.Store.Content

/-!
# Rows by id

No two rows of the definitions have one id. What becomes of the row of an id is therefore said up
to the order of the rows: an upsert changes the row of its id or adds it (`upsert_perm`), and a new
catalog leaves the heirs of its definitions and nothing else (`Content.replace_rows_perm`).
-/

namespace MetricBoard.Store

/-- The ids of rows. -/
abbrev idsOf (rows : List DefinitionRow) : List String := rows.map DefinitionRow.id

/-- The row of an id. -/
def rowOf? (rows : List DefinitionRow) (x : String) : Option DefinitionRow :=
  rows.find? (·.id == x)

section

variable {r : DefinitionRow} {rows : List DefinitionRow} {x : String}

theorem any_id_eq_true : rows.any (·.id == x) = true ↔ x ∈ idsOf rows := by
  simp

theorem rowOf?_cons_self : rowOf? (r :: rows) r.id = some r :=
  List.find?_cons_of_pos (by simp)

theorem rowOf?_cons_of_ne (h : r.id ≠ x) : rowOf? (r :: rows) x = rowOf? rows x :=
  List.find?_cons_of_neg (by simpa using h)

theorem rowOf?_eq_none_iff : rowOf? rows x = none ↔ x ∉ idsOf rows := by
  simp [rowOf?]

theorem filter_ne_of_not_mem (h : x ∉ idsOf rows) : rows.filter (·.id ≠ x) = rows := by
  rw [List.filter_eq_self]
  intro r hr
  have hne : r.id ≠ x := fun hid => h (hid ▸ List.mem_map_of_mem hr)
  simpa using hne

theorem rowOf?_eq_some_iff (h : (idsOf rows).Nodup) :
    rowOf? rows x = some r ↔ r ∈ rows ∧ r.id = x := by
  induction rows with
  | nil => simp [rowOf?]
  | cons s rows ih =>
    obtain ⟨hs, hrows⟩ := List.nodup_cons.1 h
    by_cases hid : s.id = x
    · subst hid
      rw [rowOf?_cons_self, Option.some.injEq, List.mem_cons]
      refine ⟨fun hsr => ⟨.inl hsr.symm, hsr ▸ rfl⟩, ?_⟩
      rintro ⟨rfl | hr, hid⟩
      · rfl
      · exact absurd (hid ▸ List.mem_map_of_mem hr) hs
    · rw [rowOf?_cons_of_ne hid, ih hrows, List.mem_cons]
      refine ⟨And.imp_left .inr, ?_⟩
      rintro ⟨rfl | hr, hrx⟩
      · exact absurd hrx hid
      · exact ⟨hr, hrx⟩

theorem rowOf?_eq_of_perm {rows' : List DefinitionRow} (hperm : rows.Perm rows')
    (h : (idsOf rows).Nodup) (x : String) : rowOf? rows x = rowOf? rows' x := by
  have h' : (idsOf rows').Nodup := (hperm.map _).nodup_iff.1 h
  refine Option.ext fun r => ?_
  rw [rowOf?_eq_some_iff h, rowOf?_eq_some_iff h', hperm.mem_iff]

end

/-! ## Upserts -/

section

variable {change : DefinitionRow → DefinitionRow} {row : DefinitionRow} {rows : List DefinitionRow}

/-- What an upsert makes of the row of its id. -/
def upserted (change : DefinitionRow → DefinitionRow) (row : DefinitionRow)
    (rows : List DefinitionRow) : DefinitionRow :=
  (rowOf? rows row.id).elim row change

theorem upsert_of_mem (h : row.id ∈ idsOf rows) :
    upsert change row rows = rows.map fun r => if r.id == row.id then change r else r :=
  if_pos (any_id_eq_true.2 h)

theorem upsert_of_not_mem (h : row.id ∉ idsOf rows) : upsert change row rows = rows ++ [row] :=
  if_neg fun hany => h (any_id_eq_true.1 hany)

theorem mem_upsert {r : DefinitionRow} (h : r ∈ upsert change row rows) :
    r ∈ rows ∨ r = row ∨ ∃ s ∈ rows, r = change s := by
  unfold upsert at h
  split at h
  · obtain ⟨s, hs, rfl⟩ := List.mem_map.1 h
    split
    · exact .inr (.inr ⟨s, hs, rfl⟩)
    · exact .inl hs
  · rcases List.mem_append.1 h with h | h
    · exact .inl h
    · exact .inr (.inl (List.mem_singleton.1 h))

theorem map_change_eq_self (h : row.id ∉ idsOf rows) :
    (rows.map fun r => if r.id == row.id then change r else r) = rows := by
  rw [List.map_congr_left, List.map_id]
  intro r hr
  have hne : r.id ≠ row.id := fun hid => h (hid ▸ List.mem_map_of_mem hr)
  simp [hne]

theorem map_change_perm (hnodup : (idsOf rows).Nodup) (h : row.id ∈ idsOf rows) :
    (rows.map fun r => if r.id == row.id then change r else r).Perm
      (upserted change row rows :: rows.filter (·.id ≠ row.id)) := by
  induction rows with
  | nil => cases h
  | cons r rows ih =>
    obtain ⟨hr, hrows⟩ := List.nodup_cons.1 hnodup
    by_cases hid : r.id = row.id
    · have hnot : row.id ∉ idsOf rows := hid ▸ hr
      rw [List.map_cons, map_change_eq_self hnot, upserted, ← hid, rowOf?_cons_self,
        List.filter_cons_of_neg (by simp), filter_ne_of_not_mem hr, beq_self_eq_true, if_pos rfl]
      exact .refl _
    · have hmem : row.id ∈ idsOf rows := by
        simpa [Ne.symm hid] using h
      rw [List.map_cons, upserted, rowOf?_cons_of_ne hid,
        List.filter_cons_of_pos (by simpa using hid), if_neg (by simpa using hid)]
      exact ((ih hrows hmem).cons r).trans (.swap ..)

theorem upsert_perm (hnodup : (idsOf rows).Nodup) :
    (upsert change row rows).Perm (upserted change row rows :: rows.filter (·.id ≠ row.id)) := by
  by_cases h : row.id ∈ idsOf rows
  · rw [upsert_of_mem h]
    exact map_change_perm hnodup h
  · rw [upsert_of_not_mem h, filter_ne_of_not_mem h, upserted, rowOf?_eq_none_iff.2 h]
    exact List.perm_append_singleton row rows

variable (hchange : ∀ r, r.id = row.id → (change r).id = row.id)
include hchange

theorem upserted_id : (upserted change row rows).id = row.id := by
  unfold upserted
  cases h : rowOf? rows row.id with
  | none => rfl
  | some r => exact hchange r (by simpa using List.find?_some h)

theorem upsert_nodup (hnodup : (idsOf rows).Nodup) :
    (idsOf (upsert change row rows)).Nodup := by
  rw [((upsert_perm hnodup).map _).nodup_iff, List.map_cons, List.nodup_cons, upserted_id hchange]
  refine ⟨?_, hnodup.sublist (List.filter_sublist.map _)⟩
  simp

theorem rowOf?_upsert_of_ne (hnodup : (idsOf rows).Nodup) {x : String} (h : x ≠ row.id) :
    rowOf? (upsert change row rows) x = rowOf? rows x := by
  have hrest : (idsOf (rows.filter (·.id ≠ row.id))).Nodup :=
    hnodup.sublist (List.filter_sublist.map _)
  rw [rowOf?_eq_of_perm (upsert_perm hnodup) (upsert_nodup hchange hnodup),
    rowOf?_cons_of_ne (by rw [upserted_id hchange]; exact h.symm)]
  refine Option.ext fun r => ?_
  rw [rowOf?_eq_some_iff hrest, rowOf?_eq_some_iff hnodup, List.mem_filter]
  refine and_congr_left fun hrx => and_iff_left ?_
  simpa using hrx ▸ h

end

/-! ## New catalogs -/

section

variable {rows : List DefinitionRow} {ds : List Definition}

/-- The row of a definition of a new catalog: it keeps the refresh fields of its id. -/
def heirRow (rows : List DefinitionRow) (ordinal : Int) (d : Definition) : DefinitionRow :=
  let row := DefinitionRow.newcomer ordinal d
  (rowOf? rows d.id).elim row row.withRefreshOf

/-- The rows of a new catalog, numbered from an ordinal on. -/
def heirRows (rows : List DefinitionRow) (ordinal : Nat) : List Definition → List DefinitionRow
  | [] => []
  | d :: ds => heirRow rows ordinal d :: heirRows rows (ordinal + 1) ds

@[simp] theorem heirRow_id (rows : List DefinitionRow) (n : Int) (d : Definition) :
    (heirRow rows n d).id = d.id := by
  unfold heirRow
  cases rowOf? rows d.id <;> rfl

theorem heirRows_ids (rows : List DefinitionRow) (n : Nat) (ds : List Definition) :
    idsOf (heirRows rows n ds) = ds.map Definition.id := by
  induction ds generalizing n with
  | nil => rfl
  | cons d ds ih => rw [heirRows, idsOf, List.map_cons, heirRow_id, List.map_cons, ← ih (n + 1)]

@[simp] theorem heirRow_ordinal (rows : List DefinitionRow) (n : Int) (d : Definition) :
    (heirRow rows n d).ordinal = n := by
  unfold heirRow
  cases rowOf? rows d.id <;> rfl

/-- The rows of a new catalog are sorted by their ordinals. -/
theorem heirRows_sorted (rows : List DefinitionRow) (n : Nat) (ds : List Definition) :
    (heirRows rows n ds).Pairwise (·.ordinal < ·.ordinal) ∧
      ∀ r ∈ heirRows rows n ds, (n : Int) ≤ r.ordinal := by
  induction ds generalizing n with
  | nil => exact ⟨.nil, by simp [heirRows]⟩
  | cons d ds ih =>
    obtain ⟨hsorted, hle⟩ := ih (n + 1)
    have hlt : ∀ r ∈ heirRows rows (n + 1) ds, (heirRow rows n d).ordinal < r.ordinal := by
      intro r hr
      rw [heirRow_ordinal]
      exact Int.lt_of_add_one_le (hle r hr)
    refine ⟨.cons hlt hsorted, fun r hr => ?_⟩
    rcases List.mem_cons.1 hr with rfl | hr
    · exact Int.le_of_eq (heirRow_ordinal ..).symm
    · exact Int.le_trans (Int.le_of_eq (heirRow_ordinal ..).symm) (Int.le_of_lt (hlt r hr))

theorem heirRows_congr {rows' : List DefinitionRow} {n : Nat}
    (h : ∀ d ∈ ds, rowOf? rows d.id = rowOf? rows' d.id) :
    heirRows rows n ds = heirRows rows' n ds := by
  induction ds generalizing n with
  | nil => rfl
  | cons d ds ih =>
    rw [heirRows, heirRows, heirRow, heirRow, h d List.mem_cons_self,
      ih fun d' hd' => h d' (List.mem_cons_of_mem _ hd')]

theorem placedRows_perm (n : Nat) (hrows : (idsOf rows).Nodup)
    (hds : (ds.map Definition.id).Nodup) :
    (placedRows n ds rows).Perm
      (heirRows rows n ds ++ rows.filter (·.id ∉ ds.map Definition.id)) := by
  induction ds generalizing n rows with
  | nil =>
    rw [placedRows, heirRows, List.nil_append, List.filter_eq_self.2 (by simp)]
  | cons d ds ih =>
    obtain ⟨hd, hds⟩ := List.nodup_cons.1 hds
    have hchange : ∀ r : DefinitionRow, r.id = (DefinitionRow.newcomer n d).id →
        ((DefinitionRow.newcomer n d).withRefreshOf r).id = (DefinitionRow.newcomer n d).id :=
      fun _ _ => rfl
    have hplaced : (placedRow n d rows).Perm (heirRow rows n d :: rows.filter (·.id ≠ d.id)) :=
      upsert_perm hrows
    have hheirs : heirRows (placedRow n d rows) (n + 1) ds = heirRows rows (n + 1) ds :=
      heirRows_congr fun d' hd' => rowOf?_upsert_of_ne hchange hrows
        fun hid : d'.id = d.id => hd (hid ▸ List.mem_map_of_mem hd')
    have hrest : ((placedRow n d rows).filter (·.id ∉ ds.map Definition.id)).Perm
        (heirRow rows n d :: rows.filter (·.id ∉ (d :: ds).map Definition.id)) := by
      refine (hplaced.filter _).trans ?_
      rw [List.filter_cons_of_pos (by simpa using hd), List.filter_filter]
      refine .cons _ (.of_eq (List.filter_congr fun r _ => ?_))
      rw [Bool.eq_iff_iff]
      simp [and_comm]
    have hnodup : (idsOf (placedRow n d rows)).Nodup := upsert_nodup hchange hrows
    rw [placedRows, heirRows]
    refine (ih (n + 1) hnodup hds).trans ?_
    rw [hheirs]
    exact (hrest.append_left _).trans List.perm_middle

theorem mem_gone {x : String} : x ∈ gone ds rows ↔ x ∈ idsOf rows ∧ x ∉ ds.map Definition.id := by
  simp [gone]

/-- A new catalog leaves the rows of its definitions and no others. -/
theorem Content.replace_rows_perm {c : Content} (hrows : (idsOf c.rows).Nodup)
    (hds : (ds.map Definition.id).Nodup) : (c.replace ds).rows.Perm (heirRows c.rows 0 ds) := by
  refine ((placedRows_perm 0 hrows hds).filter _).trans (.of_eq ?_)
  have hheirs : (heirRows c.rows 0 ds).filter (·.id ∉ gone ds c.rows) = heirRows c.rows 0 ds := by
    refine List.filter_eq_self.2 fun r hr => ?_
    have hid : r.id ∈ ds.map Definition.id := heirRows_ids c.rows 0 ds ▸ List.mem_map_of_mem hr
    exact decide_eq_true fun hgone => (mem_gone.1 hgone).2 hid
  have hrest :
      (c.rows.filter (·.id ∉ ds.map Definition.id)).filter (·.id ∉ gone ds c.rows) = [] := by
    refine List.filter_eq_nil_iff.2 fun r hr => ?_
    obtain ⟨hr, hid⟩ := List.mem_filter.1 hr
    have hgone : r.id ∈ gone ds c.rows :=
      mem_gone.2 ⟨List.mem_map_of_mem hr, of_decide_eq_true hid⟩
    simpa using hgone
  rw [List.filter_append, hheirs, hrest, List.append_nil]

theorem Content.replace_rows_nodup {c : Content} (hrows : (idsOf c.rows).Nodup)
    (hds : (ds.map Definition.id).Nodup) : (idsOf (c.replace ds).rows).Nodup := by
  rw [((replace_rows_perm hrows hds).map _).nodup_iff, ← idsOf, heirRows_ids]
  exact hds

end

/-! ## Edits -/

theorem idsOf_update {f : DefinitionRow → DefinitionRow} (hf : ∀ r, (f r).id = r.id)
    (rows : List DefinitionRow) (x : String) :
    idsOf (rows.map fun r => if r.id == x then f r else r) = idsOf rows := by
  rw [idsOf, List.map_map]
  refine List.map_congr_left fun r _ => ?_
  rw [Function.comp_apply]
  split
  · exact hf r
  · rfl

/-- No edit puts an id into two rows. -/
theorem Edit.on_nodup {c : Content} (h : (idsOf c.rows).Nodup) (e : Edit) :
    (idsOf (e.on c).2.rows).Nodup := by
  cases e with
  | save d => exact upsert_nodup (fun _ _ => rfl) h
  | replaceCatalog ds =>
    rw [Edit.on]
    split
    · exact h
    · rename_i hrepeated
      exact Content.replace_rows_nodup h (repeated?_eq_none_iff.1 hrepeated).1
  | recordRefresh id w =>
    rw [Edit.on]
    split
    · have hids : idsOf (c.record id w).rows = idsOf c.rows :=
        idsOf_update (f := fun r => r.recorded w) (fun _ => rfl) c.rows id
      exact hids ▸ h
    · exact h

end MetricBoard.Store
