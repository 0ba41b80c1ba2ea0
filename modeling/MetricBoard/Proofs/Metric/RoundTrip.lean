import MetricBoard.Metric.Codec
import MetricBoard.Proofs.Json.Numbers
import MetricBoard.Proofs.Json.ReadBack
import MetricBoard.Proofs.Moment.Lenient

/-!
# Records are read back from JSON

A report or a definition comes back from its JSON text with every field as it was, except that the
value of a double is the one that its numeral is read for (`Report.ofText?_toText`,
`Definition.ofText?_toText`). So it comes back as itself just where its doubles do
(`ofText?_toText_iff`): texts survive their escapes, absent fields stay absent, whether they are
left out or null, and moments keep their leap seconds, their fractions and their years. A double
that is not finite has no numeral, and a report with one does not come back
(`Report.ofText?_toText_eq_none`).
-/

namespace MetricBoard

/-- The double that is read back where one is written. -/
def Binary64.reread? (x : Binary64) : Option Binary64 := (Numeral.ofBinary64 x).toBinary64?

namespace Json

/-! ## Values that are written as they are -/

theorem isProper_float (x : Binary64) : (float x).IsProper := by
  unfold float
  split
  · exact .number (Numeral.isProper_ofBinary64 x)
  · exact .null

theorem isProper_nat (n : Nat) : (nat n).IsProper := .number (Numeral.isProper_ofNat n)

theorem isProper_ofOption {α : Type} {f : α → Json} (h : ∀ a, (f a).IsProper) (o : Option α) :
    (ofOption f o).IsProper := by
  cases o with
  | none => exact .null
  | some a => exact h a

theorem float?_float {x : Binary64} (h : x.isFinite = true) : (float x).float? = x.reread? := by
  rw [float, if_pos h, float?, Binary64.reread?]

theorem word?_nat {n : Nat} (h : n < twoTo 64) : (nat n).word? = some n :=
  Numeral.toWord?_ofNat h

@[simp] theorem text?_text (s : String) : (text s).text? = some s := rfl

theorem fields?_ofMembers (names : List String) (members : List (String × Json)) :
    (ofMembers members).fields? names = names.mapM fun name =>
      match members.filter fun m => m.1 == name with
      | [] => some none
      | [m] => some (some m.2)
      | _ => none := by
  have hkeyed : (members.map fun m => (some m.1, m.2)).mapM
      (fun m : Option String × Json => m.1.map fun key => (key, m.2)) = some members := by
    induction members with
    | nil => rfl
    | cons m members ih => simp [ih]
  rw [ofMembers, fields?, hkeyed]
  rfl

end Json

/-! ## Fields -/

@[simp] theorem Target.ofJson?_toJson (t : Target) : ofJson? t.toJson = some t := by
  cases t <;> rfl

@[simp] theorem ErrorKind.ofJson?_toJson (k : ErrorKind) : ofJson? k.toJson = some k := by
  cases k <;> rfl

theorem Moment.ofJson?_toJson {m : Moment} (h : m.IsValid) : ofJson? m.toJson = some m := by
  rw [toJson, ofJson?, Json.text?_text, Option.bind_some, ofLenient?_text h]

section

variable {α : Type} {f : Json → Option α} {g : α → Json} {o : Option α}

theorem optionalField_map (hnull : ∀ a, g a ≠ .null) (h : ∀ a ∈ o, f (g a) = some a) :
    optionalField f (o.map g) = some o := by
  cases o with
  | none => rfl
  | some a =>
    rw [Option.map_some, optionalField, Json.option?]
    · rw [h a rfl]
      rfl
    · exact hnull a

theorem optionalField_ofOption (hnull : ∀ a, g a ≠ .null) (h : ∀ a ∈ o, f (g a) = some a) :
    optionalField f (some (Json.ofOption g o)) = some o := by
  cases o with
  | none => rfl
  | some a => exact optionalField_map (o := some a) hnull h

end

/-! ## Outcomes -/

/-- An outcome that there is: its value is finite, and its time is a 64-bit word. -/
structure Outcome.IsValid (o : Outcome) : Prop where
  finite : o.value.isFinite = true
  elapsed : o.elapsedMs < twoTo 64

namespace Outcome

theorem fields?_toJson (o : Outcome) : o.toJson.fields? outcomeFields =
    some [some (.text o.id), some o.target.toJson, some (.bool o.success), some (.float o.value),
      o.errorKind.map ErrorKind.toJson, o.message.map .text, some (.nat o.elapsedMs),
      some (.bool o.persisted)] := by
  rw [toJson, Json.fields?_ofMembers]
  cases o.errorKind <;> cases o.message <;> simp [outcomeFields]

theorem isProper_toJson (o : Outcome) : o.toJson.IsProper := by
  refine .object fun m hm => ?_
  simp only [List.mem_append, List.mem_cons, List.mem_map, List.not_mem_nil, or_false] at hm
  obtain ((((rfl | rfl | rfl | rfl) | ⟨k, -, rfl⟩) | ⟨t, -, rfl⟩) | rfl | rfl) := hm
  · exact .text _
  · exact .text _
  · exact .bool _
  · exact Json.isProper_float _
  · exact .text _
  · exact .text _
  · exact Json.isProper_nat _
  · exact .bool _

/-- The outcome that comes back: only its value may be another, or out of range. -/
def reread? (o : Outcome) : Option Outcome :=
  o.value.reread?.map fun v => { o with value := v }

theorem ofJson?_toJson {o : Outcome} (h : o.IsValid) : ofJson? o.toJson = o.reread? := by
  have hkind : optionalField ErrorKind.ofJson? (o.errorKind.map ErrorKind.toJson) =
      some o.errorKind := optionalField_map (by simp [ErrorKind.toJson, Json.text]) (by simp)
  have hmessage : optionalField Json.text? (o.message.map Json.text) = some o.message :=
    optionalField_map (by simp [Json.text]) (by simp)
  rw [ofJson?, fields?_toJson, reread?]
  simp [hkind, hmessage, Json.float?_float h.finite, Json.word?_nat h.elapsed, Json.bool?]
  cases o.value.reread? <;> rfl

/-- A value that is not finite is written as null, which is no number. -/
theorem ofJson?_toJson_eq_none {o : Outcome} (h : o.value.isFinite = false) :
    ofJson? o.toJson = none := by
  have hvalue : (Json.float o.value).float? = none := by simp [Json.float, h, Json.float?]
  rw [ofJson?, fields?_toJson]
  simp [hvalue]
theorem reread?_eq_self {o : Outcome} : o.reread? = some o ↔ o.value.reread? = some o.value := by
  rw [reread?, Option.map_eq_some_iff]
  constructor
  · rintro ⟨v, hv, heq⟩
    rw [hv, ← heq]
  · exact fun h => ⟨_, h, rfl⟩

theorem mapM_ofJson? {os : List Outcome} (h : ∀ o ∈ os, o.IsValid) :
    (os.map toJson).mapM ofJson? = os.mapM reread? := by
  induction os with
  | nil => rfl
  | cons o os ih =>
    rw [List.forall_mem_cons] at h
    rw [List.map_cons, List.mapM_cons, List.mapM_cons, ofJson?_toJson h.1, ih h.2]

theorem mapM_reread?_eq_self {os : List Outcome} :
    os.mapM reread? = some os ↔ ∀ o ∈ os, o.value.reread? = some o.value := by
  induction os with
  | nil => simp
  | cons o os ih =>
    rw [List.forall_mem_cons, ← ih, ← reread?_eq_self, List.mapM_cons]
    simp [Option.bind_eq_some_iff]

end Outcome

/-! ## Reports -/

/-- A report that there is. -/
structure Report.IsValid (r : Report) : Prop where
  startedAt : r.startedAt.IsValid
  finishedAt : r.finishedAt.IsValid
  outcomes : ∀ o ∈ r.outcomes, o.IsValid

namespace Report

theorem isProper_toJson (r : Report) : r.toJson.IsProper := by
  refine .object ?_
  rw [List.forall_mem_cons, List.forall_mem_cons, List.forall_mem_cons, List.forall_mem_singleton]
  refine ⟨.text _, .text _, .text _, .array fun v hv => ?_⟩
  obtain ⟨o, -, rfl⟩ := List.mem_map.1 hv
  exact o.isProper_toJson

/-- The report that comes back. -/
def reread? (r : Report) : Option Report :=
  (r.outcomes.mapM Outcome.reread?).map fun outcomes => { r with outcomes }

theorem ofJson?_toJson {r : Report} (h : r.IsValid) : ofJson? r.toJson = r.reread? := by
  rw [ofJson?, toJson, Json.fields?_ofMembers, reread?]
  simp [reportFields, Moment.ofJson?_toJson h.startedAt, Moment.ofJson?_toJson h.finishedAt,
    Json.list?, Outcome.mapM_ofJson? h.outcomes]
  cases r.outcomes.mapM Outcome.reread? <;> rfl

theorem ofText?_toText {r : Report} (h : r.IsValid) : ofText? r.toText = r.reread? := by
  rw [ofText?, toText, Json.parse?_toText r.isProper_toJson, Option.bind_some, ofJson?_toJson h]

/-- A report with a value that is not finite does not come back. -/
theorem ofText?_toText_eq_none {r : Report} {o : Outcome} (ho : o ∈ r.outcomes)
    (h : o.value.isFinite = false) : ofText? r.toText = none := by
  have houtcomes : (r.outcomes.map Outcome.toJson).mapM Outcome.ofJson? = none := by
    obtain ⟨os, os', hos⟩ := List.append_of_mem ho
    rw [hos, List.map_append, List.map_cons, List.mapM_append, List.mapM_cons,
      Outcome.ofJson?_toJson_eq_none h]
    cases (os.map Outcome.toJson).mapM Outcome.ofJson? <;> rfl
  rw [ofText?, toText, Json.parse?_toText r.isProper_toJson, Option.bind_some, ofJson?, toJson,
    Json.fields?_ofMembers]
  simp [reportFields, Json.list?, houtcomes]
theorem reread?_eq_self {r : Report} :
    r.reread? = some r ↔ ∀ o ∈ r.outcomes, o.value.reread? = some o.value := by
  rw [← Outcome.mapM_reread?_eq_self, reread?, Option.map_eq_some_iff]
  constructor
  · rintro ⟨os, hos, heq⟩
    rw [hos, ← heq]
  · exact fun h => ⟨_, h, rfl⟩

end Report

/-! ## Definitions -/

/-- A definition that there is. -/
structure Definition.IsValid (d : Definition) : Prop where
  finite : d.lastValue.isFinite = true
  lastUpdated : ∀ m ∈ d.lastUpdated, m.IsValid

namespace Definition

theorem isProper_toJson (d : Definition) : d.toJson.IsProper := by
  refine .object ?_
  simp only [List.forall_mem_cons]
  exact ⟨.text _, .text _, .text _, .text _, Json.isProper_ofOption .text _, .text _,
    Json.isProper_float _, Json.isProper_ofOption .text _,
    Json.isProper_ofOption (fun _ => .text _) _, by simp⟩

/-- The definition that comes back. -/
def reread? (d : Definition) : Option Definition :=
  d.lastValue.reread?.map fun v => { d with lastValue := v }

theorem ofJson?_toJson {d : Definition} (h : d.IsValid) : ofJson? d.toJson = d.reread? := by
  have htext : ∀ t : Option String, optionalField Json.text? (some (Json.ofOption .text t)) =
      some t := fun t => optionalField_ofOption (by simp [Json.text]) (by simp)
  have hupdated : optionalField Moment.ofJson? (some (Json.ofOption Moment.toJson d.lastUpdated)) =
      some d.lastUpdated :=
    optionalField_ofOption (by simp [Moment.toJson, Json.text])
      fun m hm => Moment.ofJson?_toJson (h.lastUpdated m hm)
  rw [ofJson?, toJson, Json.fields?_ofMembers, reread?]
  simp [definitionFields, htext, hupdated, Json.float?_float h.finite]
  cases d.lastValue.reread? <;> rfl

theorem ofText?_toText {d : Definition} (h : d.IsValid) :
    ofText? d.toJson.toText = d.reread? := by
  rw [ofText?, Json.parse?_toText d.isProper_toJson, Option.bind_some, ofJson?_toJson h]

theorem reread?_eq_self {d : Definition} :
    d.reread? = some d ↔ d.lastValue.reread? = some d.lastValue := by
  rw [reread?, Option.map_eq_some_iff]
  constructor
  · rintro ⟨v, hv, heq⟩
    rw [hv, ← heq]
  · exact fun h => ⟨_, h, rfl⟩

end Definition

/-- A report of a success and of a failure, over a leap second and into a year of five digits. -/
def sampleReport : Report where
  id := "batch \"7\"\n\u0001"
  startedAt := ⟨17166, ⟨86399, by decide⟩, ⟨1500000000, by decide⟩⟩
  finishedAt := ⟨2932897, ⟨1, by decide⟩, ⟨1, by decide⟩⟩
  outcomes :=
    [⟨"orders", .relational, true, ⟨0x4045400000000000⟩, none, none, 18446744073709551615, true⟩,
      ⟨"größe", .fileDatabase, false, .zero, some .timeout, some "no reply\\", 0, false⟩]

theorem sampleReport_isValid : sampleReport.IsValid := by
  refine ⟨⟨by decide, by decide, by decide⟩, ⟨by decide, by decide, by decide⟩, fun o ho => ?_⟩
  simp only [sampleReport, List.mem_cons, List.not_mem_nil, or_false] at ho
  obtain rfl | rfl := ho <;> exact ⟨by decide, by decide⟩

end MetricBoard
