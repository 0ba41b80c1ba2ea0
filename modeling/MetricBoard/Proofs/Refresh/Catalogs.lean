import Mathlib
import MetricBoard.Catalog
import MetricBoard.Proofs.Refresh.Records
import MetricBoard.Proofs.Store.Readability
import MetricBoard.Proofs.Text.Trimming

/-!
# A catalog that loads can be refreshed

What a catalog may hold is checked three times: where its text is read, where it replaces the
definitions of the store, and where a batch of all definitions begins. The three agree. Whatever
the store held before and whichever refreshes are recorded after, a catalog that was read is taken
by the store, and what is listed then are its metrics, in their order, with their expressions
trimmed and none of them blank; such a list can be a batch (`catalog_is_refreshed`). What may fail
is the reading of the list, and that exactly if the time of some metric is kept as a text that tells
no moment. A catalog writes no time, but it leaves to an id the one that the store has for it, and
the store takes moments of years that it cannot read back (`catalog_is_not_refreshed_far_future`).
-/

namespace MetricBoard

open Store

/-! ## Catalogs that were read -/

namespace Catalog

/-- What a catalog says of a metric: all but what refreshes write. -/
structure Entry.Describes (e : Entry) (d : Definition) : Prop where
  id : d.id = e.id
  groupName : d.groupName = e.groupName
  label : d.label = e.label
  target : d.target = e.target
  tableHint : d.tableHint = e.tableHint
  expression : d.expression = Text.trim e.expression
  expression_ne_empty : d.expression ≠ ""

/-- An entry that may stand in a catalog: it has an id and an expression. -/
structure Entry.IsValid (e : Entry) : Prop where
  id : isId e.id = true
  expression : Text.isBlankText e.expression = false

theorem not_isBlankText_of_isId {s : String} (h : isId s = true) : Text.isBlankText s = false := by
  rw [isId] at h
  rw [Text.isBlankText]
  split at h
  · cases h
  · rename_i c cs hs
    rw [Bool.and_eq_true, Bool.and_eq_true] at h
    rw [hs, List.all_cons, Text.not_isBlank_of_isAlphanum h.1.1, Bool.false_and]

/-- Entries are taken exactly if each of them is valid and has an id of its own. -/
theorem definitions_eq_ok_iff {seen : List String} {es : List Entry} {ds : List Definition} :
    definitions seen es = .ok ds ↔
      ds = es.map Entry.definition ∧ (∀ e ∈ es, e.IsValid) ∧ (es.map Entry.id).Nodup ∧
        ∀ e ∈ es, e.id ∉ seen := by
  induction es generalizing seen ds with
  | nil => simp [definitions, eq_comm]
  | cons e es ih =>
    rw [definitions, List.forall_mem_cons, List.forall_mem_cons, List.map_cons, List.map_cons,
      List.nodup_cons]
    by_cases hid : isId e.id = true
    swap
    · rw [if_pos (by simp [hid])]
      exact ⟨fun h => (by cases h), fun h => absurd h.2.1.1.id hid⟩
    by_cases hseen : e.id ∈ seen
    · rw [if_neg (by simp [hid]), if_pos (by simpa using hseen)]
      exact ⟨fun h => (by cases h), fun h => absurd hseen h.2.2.2.1⟩
    cases hblank : Text.isBlankText e.expression with
    | true =>
      rw [if_neg (by simp [hid]), if_neg (by simpa using hseen), if_pos rfl]
      exact ⟨fun h => (by cases h), fun h => absurd (h.2.1.1.expression.symm.trans hblank)
        Bool.false_ne_true⟩
    | false =>
      rw [if_neg (by simp [hid]), if_neg (by simpa using hseen), if_neg Bool.false_ne_true]
      have hrest : (do return e.definition :: (← definitions (e.id :: seen) es)) = .ok ds ↔
          ∃ rest, definitions (e.id :: seen) es = .ok rest ∧ e.definition :: rest = ds := by
        cases definitions (e.id :: seen) es <;> simp [bind, Except.bind, pure, Except.pure]
      rw [hrest]
      constructor
      · rintro ⟨rest, hok, rfl⟩
        obtain ⟨rfl, hvalid, hnodup, hnew⟩ := ih.1 hok
        refine ⟨rfl, ⟨⟨hid, hblank⟩, hvalid⟩, ⟨fun hmem => ?_, hnodup⟩, hseen, fun e' he' => ?_⟩
        · obtain ⟨e', he', heq⟩ := List.mem_map.1 hmem
          exact hnew e' he' (heq ▸ List.mem_cons_self)
        · exact fun hmem => hnew e' he' (List.mem_cons_of_mem _ hmem)
      · rintro ⟨rfl, ⟨-, hvalid⟩, ⟨hfirst, hnodup⟩, -, hnew⟩
        refine ⟨_, ih.2 ⟨rfl, hvalid, hnodup, fun e' he' hmem => ?_⟩, rfl⟩
        rcases List.mem_cons.1 hmem with heq | hmem
        · exact hfirst (heq ▸ List.mem_map_of_mem he')
        · exact hnew e' he' hmem

/-- A catalog that is read has entries, and its definitions are theirs. -/
theorem exists_entries_of_ofText {text : String} {ds : List Definition}
    (h : ofText text = .ok ds) :
    ∃ es, (Yaml.Node.ofText? text).bind entriesOfNode? = some es ∧ ds = es.map Entry.definition ∧
      (∀ e ∈ es, e.IsValid) ∧ (ds.map Definition.id).Nodup := by
  rw [ofText] at h
  split at h
  · rename_i es hes
    obtain ⟨rfl, hvalid, hnodup, -⟩ := definitions_eq_ok_iff.1 h
    refine ⟨es, hes, rfl, hvalid, ?_⟩
    rw [List.map_map]
    exact hnodup
  · cases h

end Catalog

/-! ## Rows of a catalog -/

namespace Store

/-- A row keeps a definition, but for what refreshes write. -/
def DefinitionRow.Describes (r : DefinitionRow) (d : Definition) : Prop :=
  r = (DefinitionRow.newcomer r.ordinal d).withRefreshOf r

/-- Rows keep a catalog: sorted by their ordinals, they are those of its definitions, with whatever
refreshes have written. -/
def KeepsCatalog (rows : List DefinitionRow) (ds : List Definition) : Prop :=
  ∃ sorted : List DefinitionRow, rows.Perm sorted ∧ sorted.Pairwise (·.ordinal < ·.ordinal) ∧
    List.Forall₂ DefinitionRow.Describes sorted ds

/-- The text of the time that is kept for an id. -/
def Content.timeOf? (c : Content) (id : String) : Option String :=
  (rowOf? c.rows id).bind DefinitionRow.lastUpdated

/-- The text of the time that is kept for an id after some refreshes: that of its last one, or of
before. -/
def Content.timeAfter? (c : Content) (ws : List (String × Write)) (id : String) : Option String :=
  ws.foldl (fun raw x => if x.1 = id then some x.2.at_.microText else raw) (c.timeOf? id)

/-- The tables after some refreshes are recorded, or refused as there is no such metric. -/
def Tables.recorded (t : Tables) (ws : List (String × Write)) : Tables :=
  ws.foldl (fun t x => ((recordRefresh x.1 x.2).run t).2) t

section

variable {c : Content} {ds : List Definition} {r : DefinitionRow} {d : Definition}

theorem heirRow_describes (rows : List DefinitionRow) (n : Int) (d : Definition) :
    (heirRow rows n d).Describes d := by
  unfold heirRow
  cases rowOf? rows d.id <;> rfl

theorem DefinitionRow.Describes.recorded (h : r.Describes d) (w : Write) :
    (r.recorded w).Describes d := by
  rw [Describes] at h
  rw [h]
  rfl

theorem KeepsCatalog.replace (hkey : (idsOf c.rows).Nodup) (hds : (ds.map Definition.id).Nodup) :
    KeepsCatalog (c.replace ds).rows ds := by
  refine ⟨_, Content.replace_rows_perm hkey hds, (heirRows_sorted c.rows 0 ds).1, ?_⟩
  simpa using heirRows_forall₂ (f := id) (heirRow_describes c.rows) 0 ds

theorem KeepsCatalog.record (h : KeepsCatalog c.rows ds) (id : String) (w : Write) :
    KeepsCatalog (c.record id w).rows ds := by
  obtain ⟨sorted, hperm, hsorted, hkept⟩ := h
  let record (r : DefinitionRow) := if r.id == id then r.recorded w else r
  refine ⟨sorted.map record, hperm.map record, ?_, ?_⟩
  · rw [List.pairwise_map]
    refine hsorted.imp fun {r s} hlt => ?_
    have hordinal : ∀ r, (record r).ordinal = r.ordinal := fun r => by unfold record; split <;> rfl
    rwa [hordinal, hordinal]
  · rw [List.forall₂_map_left_iff]
    refine hkept.imp fun {r d} hr => ?_
    unfold record
    split
    · exact hr.recorded w
    · exact hr

/-! ## Times -/

theorem rowOf?_record (rows : List DefinitionRow) (id : String) (w : Write) (x : String) :
    rowOf? (rows.map fun r => if r.id == id then r.recorded w else r) x =
      (rowOf? rows x).map fun r => if r.id == id then r.recorded w else r := by
  rw [rowOf?, List.find?_map]
  congr 1
  refine congrArg (List.find? · rows) (funext fun r => ?_)
  rw [Function.comp_apply]
  split <;> rfl

theorem timeOf?_record {x : String} (hx : x ∈ idsOf c.rows) (id : String) (w : Write) :
    (c.record id w).timeOf? x = if id = x then some w.at_.microText else c.timeOf? x := by
  have hrow : (c.record id w).timeOf? x = ((rowOf? c.rows x).map fun r =>
      if r.id == id then r.recorded w else r).bind DefinitionRow.lastUpdated :=
    congrArg (Option.bind · DefinitionRow.lastUpdated) (rowOf?_record c.rows id w x)
  rw [hrow, Content.timeOf?]
  cases h : rowOf? c.rows x with
  | none => exact absurd hx (rowOf?_eq_none_iff.1 h)
  | some r =>
    have hid : r.id = x := by simpa using List.find?_some h
    rw [Option.map_some, Option.bind_some, Option.bind_some, hid]
    by_cases hx : id = x
    · rw [if_pos hx, if_pos (by simp [hx])]
      rfl
    · rw [if_neg hx, if_neg (by simpa using Ne.symm hx)]

theorem timeOf?_replace (hkey : (idsOf c.rows).Nodup) (hds : (ds.map Definition.id).Nodup)
    (hd : d ∈ ds) : (c.replace ds).timeOf? d.id = c.timeOf? d.id := by
  obtain ⟨n, hn⟩ := exists_heirRow_mem c.rows hd 0
  have hrow : rowOf? (c.replace ds).rows d.id = some (heirRow c.rows n d) := by
    rw [rowOf?_eq_of_perm (Content.replace_rows_perm hkey hds)
      (Content.replace_rows_nodup hkey hds), rowOf?_eq_some_iff (heirRows_ids c.rows 0 ds ▸ hds)]
    exact ⟨hn, heirRow_id ..⟩
  rw [Content.timeOf?, hrow, Option.bind_some, Content.timeOf?, heirRow]
  cases rowOf? c.rows d.id <;> rfl

theorem DefinitionRow.Describes.id_eq (h : r.Describes d) : r.id = d.id := by
  rw [h]
  rfl

theorem idsOf_eq_of_describes {sorted : List DefinitionRow}
    (h : List.Forall₂ DefinitionRow.Describes sorted ds) : idsOf sorted = ds.map Definition.id := by
  induction h with
  | nil => rfl
  | cons hr _ ih => rw [idsOf, List.map_cons, List.map_cons, hr.id_eq, ← ih]

theorem KeepsCatalog.mem_idsOf (h : KeepsCatalog c.rows ds) (hd : d ∈ ds) :
    d.id ∈ idsOf c.rows := by
  obtain ⟨sorted, hperm, -, hkept⟩ := h
  rw [(hperm.map _).mem_iff, ← idsOf, idsOf_eq_of_describes hkept]
  exact List.mem_map_of_mem hd

/-! ## Recording -/

/-- The content after some refreshes. -/
def Content.recorded (c : Content) (ws : List (String × Write)) : Content :=
  ws.foldl (fun c x => ((Edit.recordRefresh x.1 x.2).on c).2) c

theorem recorded_tables (c : Content) (ws : List (String × Write)) :
    c.tables.recorded ws = (c.recorded ws).tables := by
  induction ws generalizing c with
  | nil => rfl
  | cons x ws ih =>
    have hrun : ((recordRefresh x.1 x.2).run c.tables).2 =
        ((Edit.recordRefresh x.1 x.2).on c).2.tables := by
      have hsession : ((recordRefresh x.1 x.2).run c.tables).2 =
          (recordRefresh x.1 x.2 c.session).2.tables := rfl
      rw [hsession, recordRefresh_session, Edit.on]
      split <;> rfl
    rw [Tables.recorded, List.foldl_cons, hrun]
    exact ih _

/-- A refresh of a metric that is not there changes no row, as recording one would not. -/
theorem rows_recordRefresh (c : Content) (id : String) (w : Write) :
    ((Edit.recordRefresh id w).on c).2.rows = (c.record id w).rows := by
  rw [Edit.on]
  split
  · rfl
  · rename_i hhas
    have hkept : ∀ r ∈ c.rows, (if r.id == id then r.recorded w else r) = r := by
      intro r hr
      refine if_neg fun hid => hhas (any_id_eq_true.2 ?_)
      rw [← eq_of_beq hid]
      exact List.mem_map_of_mem hr
    exact ((List.map_congr_left hkept).trans c.rows.map_id).symm

/-- What holds of rows that keep a catalog holds after some refreshes. -/
theorem KeepsCatalog.recorded (h : KeepsCatalog c.rows ds) (hkey : (idsOf c.rows).Nodup)
    (ws : List (String × Write)) :
    KeepsCatalog (c.recorded ws).rows ds ∧ (idsOf (c.recorded ws).rows).Nodup ∧
      ∀ d ∈ ds, (c.recorded ws).timeOf? d.id = c.timeAfter? ws d.id := by
  induction ws generalizing c with
  | nil => exact ⟨h, hkey, fun _ _ => rfl⟩
  | cons x ws ih =>
    obtain ⟨id, w⟩ := x
    have hrows := rows_recordRefresh c id w
    obtain ⟨hkeeps, hnodup, htimes⟩ := ih (hrows ▸ h.record id w)
      ((Edit.recordRefresh id w).on_nodup hkey)
    refine ⟨hkeeps, hnodup, fun d hd => (htimes d hd).trans ?_⟩
    have hfirst : ((Edit.recordRefresh id w).on c).2.timeOf? d.id =
        if id = d.id then some w.at_.microText else c.timeOf? d.id := by
      rw [Content.timeOf?, hrows, ← timeOf?_record (h.mem_idsOf hd), Content.timeOf?]
    rw [Content.timeAfter?, Content.timeAfter?, List.foldl_cons, hfirst]

/-! ## Listing -/

/-- The definitions are read row by row, which changes nothing. -/
theorem definitions_session (c : Content) :
    definitions c.session =
      ((listed c.rows).mapM DefinitionRow.definition, c.session) := by
  have hrows : (DefinitionTable.withHints ⟨true, c.rows⟩ >>= fun rows =>
      (listed rows).mapM DefinitionRow.definition) =
        (listed c.rows).mapM DefinitionRow.definition := rfl
  rw [definitions, readDefinitions_session, hrows]
  cases (listed c.rows).mapM DefinitionRow.definition <;> rfl

theorem forall₂_of_mapM_eq_ok {ε α β : Type} {f : α → Except ε β} {as : List α} {bs : List β}
    (h : as.mapM f = .ok bs) : List.Forall₂ (fun a b => f a = .ok b) as bs := by
  induction as generalizing bs with
  | nil =>
    cases h
    exact .nil
  | cons a as ih =>
    rw [List.mapM_cons] at h
    cases hb : f a with
    | error e => rw [hb] at h; cases h
    | ok b =>
      cases hbs : as.mapM f with
      | error e => rw [hb, hbs] at h; cases h
      | ok rest =>
        rw [hb, hbs] at h
        cases h
        exact .cons hb (ih hbs)

/-- A row that keeps a definition is read as that definition with what refreshes wrote. -/
theorem DefinitionRow.Describes.definition_eq (h : r.Describes d) {d' : Definition}
    (hread : r.definition = .ok d') :
    d' = { d with
      lastValue := d'.lastValue
      lastError := d'.lastError
      lastUpdated := d'.lastUpdated } := by
  rw [h, DefinitionRow.definition] at hread
  simp only [newcomer, withRefreshOf, code_ofWord?] at hread
  cases hupdated : r.lastUpdated with
  | none =>
    rw [hupdated] at hread
    cases hread
    rfl
  | some raw =>
    cases hmoment : momentOf raw with
    | error e => simp [hupdated, hmoment, bind, Except.bind, Except.map] at hread
    | ok m =>
      simp only [hupdated, hmoment, bind, Except.bind, Except.map, pure, Except.pure,
        Except.ok.injEq] at hread
      rw [← hread]

theorem exists_describes {sorted : List DefinitionRow}
    (h : List.Forall₂ DefinitionRow.Describes sorted ds) (hr : r ∈ sorted) :
    ∃ d ∈ ds, r.Describes d := by
  induction h with
  | nil => cases hr
  | cons hfirst _ ih =>
    rcases List.mem_cons.1 hr with rfl | hr
    · exact ⟨_, List.mem_cons_self, hfirst⟩
    · obtain ⟨d, hd, hdescribes⟩ := ih hr
      exact ⟨d, List.mem_cons_of_mem _ hd, hdescribes⟩

/-- Rows that keep a catalog can be listed exactly if the time kept for each metric can be read. -/
theorem KeepsCatalog.definitions_succeeds_iff (h : KeepsCatalog c.rows ds)
    (hkey : (idsOf c.rows).Nodup) :
    definitions.Succeeds c.tables ↔
      ∀ d ∈ ds, ∀ raw ∈ c.timeOf? d.id, ∃ m, Moment.ofStrict? raw = some m := by
  have hread {r : DefinitionRow} {d : Definition} (hr : r.Describes d) :
      (∃ d', r.definition = .ok d') ↔
        ∀ raw ∈ r.lastUpdated, ∃ m, Moment.ofStrict? raw = some m :=
    DefinitionRow.exists_definition_iff ⟨d.target, by rw [hr]; rfl⟩
  rw [Store.definitions_succeeds_iff]
  constructor
  · intro hrows d hd raw hraw
    obtain ⟨r, hrow, hupdated⟩ := Option.bind_eq_some_iff.1 hraw
    obtain ⟨hr, -⟩ := (rowOf?_eq_some_iff hkey).1 hrow
    obtain ⟨sorted, hperm, -, hkept⟩ := h
    obtain ⟨d', -, hdescribes⟩ := exists_describes hkept (hperm.mem_iff.1 hr)
    exact (hread hdescribes).1 (hrows r hr) raw hupdated
  · intro htimes r hr
    obtain ⟨sorted, hperm, -, hkept⟩ := h
    obtain ⟨d, hd, hdescribes⟩ := exists_describes hkept (hperm.mem_iff.1 hr)
    refine (hread hdescribes).2 fun raw hraw => htimes d hd raw ?_
    rw [Content.timeOf?, (rowOf?_eq_some_iff hkey).2 ⟨hr, hdescribes.id_eq⟩]
    exact hraw

/-- What is listed of rows that keep a catalog is its definitions with what refreshes wrote. -/
theorem KeepsCatalog.forall₂_of_listed (h : KeepsCatalog c.rows ds) {ls : List Definition}
    (hread : (definitions.run c.tables).1 = .ok ls) :
    List.Forall₂ (fun d d' => d' = { d with
      lastValue := d'.lastValue
      lastError := d'.lastError
      lastUpdated := d'.lastUpdated }) ds ls := by
  obtain ⟨sorted, hperm, hsorted, hkept⟩ := h
  have hrun : (definitions.run c.tables).1 = (definitions c.session).1 := rfl
  rw [hrun, definitions_session, listed_eq hperm hsorted] at hread
  have hrows := forall₂_of_mapM_eq_ok hread
  clear hperm hsorted hread
  induction hkept generalizing ls with
  | nil =>
    cases hrows
    exact .nil
  | cons hr _ ih =>
    cases hrows with
    | cons hfirst hrest => exact .cons (hr.definition_eq hfirst) (ih hrest)

end

end Store

namespace Catalog

variable {es : List Entry} {ls : List Definition}

theorem Entry.describes_of_definition {e : Entry} (h : e.IsValid) {d : Definition}
    (hd : d = { e.definition with
      lastValue := d.lastValue
      lastError := d.lastError
      lastUpdated := d.lastUpdated }) : e.Describes d := by
  rw [hd]
  refine ⟨rfl, rfl, rfl, rfl, rfl, rfl, fun hempty => ?_⟩
  have hblank : Text.isBlankText e.expression = true := Text.trim_eq_empty_iff.1 hempty
  exact Bool.false_ne_true (h.expression.symm.trans hblank)

theorem map_id_of_describes (h : List.Forall₂ Entry.Describes es ls) :
    ls.map Definition.id = es.map Entry.id := by
  induction h with
  | nil => rfl
  | cons hd _ ih => rw [List.map_cons, List.map_cons, hd.id, ih]

/-- What an id of a catalog is, the batch takes too. -/
theorem validate_of_describes (h : List.Forall₂ Entry.Describes es ls) (hne : es ≠ [])
    (hvalid : ∀ e ∈ es, e.IsValid) (hnodup : (es.map Entry.id).Nodup) :
    Batch.validate ls = .ok () := by
  have hids := map_id_of_describes h
  refine Batch.validate_eq_ok_iff.2 ⟨?_, fun d hd => ?_, hids ▸ hnodup⟩
  · rintro rfl
    exact hne (List.forall₂_nil_right_iff.1 h)
  · have hmem : d.id ∈ es.map Entry.id := hids ▸ List.mem_map_of_mem hd
    obtain ⟨e, he, hid⟩ := List.mem_map.1 hmem
    rw [← hid]
    exact not_isBlankText_of_isId (hvalid e he).id

end Catalog

/-- The refresh of the whole catalog takes what is listed. -/
theorem CatalogRun.step_loading {c : Content} {ls : List Definition}
    (h : (definitions.run c.tables).1 = .ok ls) (e : Engine) (out : Outside) (token : Token) :
    let e' := { e with storage := { tables := c.tables } }
    CatalogRun.step { out with refusals := [] } e' (.loading token) =
      some ⟨e', .stage (.running (.start ls token)), []⟩ := by
  have hrun : (definitions.run c.tables).1 = (definitions c.session).1 := rfl
  have hsession := definitions_session c
  rw [hrun] at h
  have hload : Storage.load { tables := c.tables } [] =
      (.ok ls, { tables := c.tables }) := by
    have hwork : Storage.load { tables := c.tables } [] =
        ((definitions c.session).1, { tables := (definitions c.session).2.tables }) := rfl
    rw [hwork, h, hsession]
    rfl
  intro e'
  rw [CatalogRun.step, hload]

/-- **A catalog that loads can be refreshed.** Definitions that were read from a text, at least one
of them, replace whatever a store holds. After any refreshes are recorded they can be listed exactly
if the time that is kept for each of them can be read, and what is listed is what the entries of the
text say, in their order; the refresh of the whole catalog takes this list, and it can be a batch.
-/
theorem catalog_is_refreshed {text : String} {ds : List Definition}
    (hload : Catalog.ofText text = .ok ds) (hne : ds ≠ []) {c : Content}
    (hkey : (idsOf c.rows).Nodup) (ws : List (String × Write)) :
    let replaced := (replaceCatalog ds).run c.tables
    let t := replaced.2.recorded ws
    ∃ entries, (Yaml.Node.ofText? text).bind Catalog.entriesOfNode? = some entries ∧
      replaced.1 = .ok (c.change ds) ∧
      (definitions.Succeeds t ↔
        ∀ d ∈ ds, ∀ raw ∈ c.timeAfter? ws d.id, ∃ m, Moment.ofStrict? raw = some m) ∧
      ∀ listed, (definitions.run t).1 = .ok listed →
        List.Forall₂ Catalog.Entry.Describes entries listed ∧ Batch.validate listed = .ok () ∧
        ∀ (e : Engine) (out : Outside) (token : Token),
          let e' := { e with storage := { tables := t } }
          CatalogRun.step { out with refusals := [] } e' (.loading token) =
            some ⟨e', .stage (.running (.start listed token)), []⟩ := by
  obtain ⟨es, hes, rfl, hvalid, hnodup⟩ := Catalog.exists_entries_of_ofText hload
  have hreplace : (replaceCatalog (es.map Catalog.Entry.definition)).run c.tables =
      (.ok (c.change (es.map Catalog.Entry.definition)),
        (c.replace (es.map Catalog.Entry.definition)).tables) := by
    have hrepeated := repeated?_eq_none_iff.2 ⟨hnodup, fun _ _ => List.not_mem_nil⟩
    have hsession := replaceCatalog_session c (es.map Catalog.Entry.definition)
    rw [hrepeated] at hsession
    have hrun : ∀ work : Work CatalogChange,
        work.run c.tables = ((work c.session).1, (work c.session).2.tables) := fun _ => rfl
    rw [hrun, hsession]
    rfl
  obtain ⟨hkeeps, hkey', htimes⟩ := (KeepsCatalog.replace hkey hnodup).recorded
    (Content.replace_rows_nodup hkey hnodup) ws
  rw [hreplace]
  dsimp only
  rw [recorded_tables]
  refine ⟨es, hes, rfl, ?_, fun ls hls => ?_⟩
  · rw [hkeeps.definitions_succeeds_iff hkey']
    refine forall₂_congr fun d hd => ?_
    rw [htimes d hd, Content.timeAfter?, timeOf?_replace hkey hnodup hd, Content.timeAfter?]
  · have hread := List.forall₂_map_left_iff.1 (hkeeps.forall₂_of_listed hls)
    have hdescribes : List.Forall₂ Catalog.Entry.Describes es ls :=
      ((List.forall₂_and_left _ _).2 ⟨hvalid, hread⟩).imp fun {e d} h =>
        Catalog.Entry.describes_of_definition h.1 h.2
    have hne' : es ≠ [] := fun h => hne (by rw [h]; rfl)
    rw [List.map_map] at hnodup
    exact ⟨hdescribes, Catalog.validate_of_describes hdescribes hne' hvalid hnodup,
      CatalogRun.step_loading hls⟩

/-- A catalog of one metric. -/
def oneMetric : String := "{metrics: [{id: a, group: b, label: c, target: P21, expression: x}]}"

/-- The metric of `oneMetric`. -/
def metricA : Definition := ⟨"a", "b", "c", .relational, none, "x", .zero, none, none⟩

/-- The tokens of `oneMetric`. -/
def oneMetricTokens : List Yaml.Token :=
  [.flowMappingStart, .key, .scalar true "metrics", .value, .flowSequenceStart,
    .flowMappingStart, .key, .scalar true "id", .value, .scalar true "a", .flowEntry,
    .key, .scalar true "group", .value, .scalar true "b", .flowEntry,
    .key, .scalar true "label", .value, .scalar true "c", .flowEntry,
    .key, .scalar true "target", .value, .scalar true "P21", .flowEntry,
    .key, .scalar true "expression", .value, .scalar true "x", .flowMappingEnd,
    .flowSequenceEnd, .flowMappingEnd]

/-- The node of `oneMetric`. -/
def oneMetricNode : Yaml.Node :=
  .mapping none [(.scalar none true "metrics", .sequence none [.mapping none
    [(.scalar none true "id", .scalar none true "a"),
      (.scalar none true "group", .scalar none true "b"),
      (.scalar none true "label", .scalar none true "c"),
      (.scalar none true "target", .scalar none true "P21"),
      (.scalar none true "expression", .scalar none true "x")]])]

set_option maxRecDepth 10000 in
theorem tokens?_oneMetric : Yaml.tokens? oneMetric = some oneMetricTokens := by
  cbv

theorem ofTokens?_oneMetric : Yaml.Node.ofTokens? oneMetricTokens = some oneMetricNode := by
  cbv

theorem entriesOfNode?_oneMetric : Catalog.entriesOfNode? oneMetricNode =
    some [⟨"a", "b", "c", .relational, none, "x"⟩] := by
  cbv

theorem ofText_oneMetric : Catalog.ofText oneMetric = .ok [metricA] := by
  rw [Catalog.ofText, Yaml.Node.ofText?, tokens?_oneMetric, Option.bind_some, ofTokens?_oneMetric,
    Option.bind_some, entriesOfNode?_oneMetric]
  cbv

/-- The store has the metric with the time of a refresh, and another one; the metric is refreshed
again, and so is the other one, which has gone. -/
theorem catalog_is_refreshed_oneMetric :
    let c : Content := { Content.empty with
      rows := [.ofDefinition 0 { metricA with id := "z" },
        .ofDefinition 1 { metricA with label := "old", lastUpdated := some ⟨0, 0, 0⟩ }] }
    let ws := [("z", ⟨.one, none, ⟨0, 0, 0⟩⟩), ("a", ⟨.infinity false, some "late", ⟨0, 7, 0⟩⟩)]
    let replaced := (replaceCatalog [metricA]).run c.tables
    replaced.1 = .ok ⟨0, 1, 1⟩ ∧
      ∃ listed, (definitions.run (replaced.2.recorded ws)).1 = .ok listed ∧
        Batch.validate listed = .ok () := by
  intro c ws replaced
  have hkey : (idsOf c.rows).Nodup := by decide +kernel
  obtain ⟨es, -, hreplaced, hsucceeds, hlisted⟩ :=
    catalog_is_refreshed ofText_oneMetric (List.cons_ne_nil _ _) hkey ws
  have hreadable : ∀ d ∈ [metricA], ∀ raw ∈ c.timeAfter? ws d.id,
      ∃ m, Moment.ofStrict? raw = some m := by
    intro d hd raw hraw
    obtain rfl := List.mem_singleton.1 hd
    obtain rfl : (⟨0, 7, 0⟩ : Moment).microText = raw := Option.some.inj hraw
    exact Moment.exists_ofStrict?_microText_iff.2 ⟨by decide, by decide⟩
  obtain ⟨ls, hls⟩ := hsucceeds.2 hreadable
  exact ⟨hreplaced, ls, hls, (hlisted ls hls).2.1⟩

/-- A metric is saved with a time that is in the year 10000 in universal time. The catalog with this
metric is taken, and from then on its definitions cannot be listed, nor can it be refreshed. -/
theorem catalog_is_not_refreshed_far_future :
    let saved := ((Store.save { metricA with lastUpdated := some ⟨2932897, 3599, 0⟩ }).run
      Tables.fresh).2
    let replaced := (replaceCatalog [metricA]).run saved
    Catalog.ofText oneMetric = .ok [metricA] ∧
      replaced.1 = .ok ⟨0, 1, 0⟩ ∧ (definitions.run replaced.2).1 = .error refusal ∧
      ∀ (e : Engine) (out : Outside) (token : Token),
        let e' := { e with storage := { tables := replaced.2 } }
        CatalogRun.step { out with refusals := [] } e' (.loading token) =
          some ⟨e', .done (.error refusal), []⟩ := by
  intro saved replaced
  have hload : (Storage.load { tables := replaced.2 } []).1 = .error refusal ∧
      (Storage.load { tables := replaced.2 } []).2 = { tables := replaced.2 } := by
    decide +kernel
  refine ⟨ofText_oneMetric, by decide +kernel, hload.1, fun e out token => ?_⟩
  have hsplit : Storage.load { tables := replaced.2 } [] =
      (.error refusal, { tables := replaced.2 }) := Prod.ext hload.1 hload.2
  intro e'
  rw [CatalogRun.step, hsplit]

end MetricBoard
