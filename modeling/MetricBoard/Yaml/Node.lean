import MetricBoard.Yaml.Token

/-!
# Nodes of a YAML text

The tree of scalars, sequences and mappings that a text with at most one document holds. An alias
is replaced by the node that its anchor names. An alias inside the very node it names stays open:
such a node can be passed over but not used.
-/

namespace MetricBoard.Yaml

/-- A node. -/
inductive Node where
  | scalar (tag : Option String) (plain : Bool) (text : String)
  | sequence (tag : Option String) (items : List Node)
  | mapping (tag : Option String) (pairs : List (Node × Node))
  | openAlias
  deriving Repr

/-- A node that is written as nothing at all. -/
def Node.nothing : Node := .scalar none true ""

/-- What the anchors met so far name, the latest first. -/
abbrev Anchors := List (String × Node)

/-- The handles of tags and what they stand for. -/
abbrev Handles := List (String × String)

/-- What was built, the anchors then known, and the tokens after it: fewer than `bound`. -/
structure Built (α : Type) (bound : Nat) where
  value : α
  anchors : Anchors
  rest : List Token
  shorter : rest.length < bound

/-- The anchor and the tag before a node, and the tokens after them. -/
structure Properties (ts : List Token) where
  anchor : Option String
  tag : Option String
  rest : List Token
  le : rest.length ≤ ts.length
  lt : anchor.isSome ∨ tag.isSome → rest.length < ts.length

/-- What follows a token behind an anchor and a tag is shorter than all of it. -/
theorem Properties.length_lt {ts rest : List Token} {t : Token} (p : Properties ts)
    (h : p.rest = t :: rest) : rest.length < ts.length := by
  have := p.le
  rw [h] at this
  exact this

/-- A tag with its handle replaced; none if the handle is unknown. -/
def resolveTag (handles : Handles) (handle suffix : String) : Option String :=
  if handle = "" then some suffix else (handles.lookup handle).map (· ++ suffix)

/-- Takes an anchor and a tag, in either order. -/
def properties (handles : Handles) (ts : List Token) : Option (Properties ts) :=
  match ts with
  | .anchor a :: .tag h s :: rest => do
    return ⟨a, ← resolveTag handles h s, rest, Nat.le_add_right _ 2,
      fun _ => Nat.lt_succ_of_le (Nat.le_succ _)⟩
  | .tag h s :: .anchor a :: rest => do
    return ⟨a, ← resolveTag handles h s, rest, Nat.le_add_right _ 2,
      fun _ => Nat.lt_succ_of_le (Nat.le_succ _)⟩
  | .anchor a :: rest => some ⟨a, none, rest, Nat.le_succ _, fun _ => Nat.lt_succ_self _⟩
  | .tag h s :: rest => do
    return ⟨none, ← resolveTag handles h s, rest, Nat.le_succ _, fun _ => Nat.lt_succ_self _⟩
  | ts => some ⟨none, none, ts, Nat.le_refl _, fun h => h.elim Bool.noConfusion Bool.noConfusion⟩

/-- Whether one of some marks comes next. -/
def startsAny (marks : List Token) (ts : List Token) : Bool :=
  ts.head?.any marks.contains

/-- Where a node may stand: in a block, or in a flow collection. -/
inductive Setting where
  | block
  /-- The value of a block mapping, whose sequence need not be indented. -/
  | blockValue
  | flow
  deriving DecidableEq, Repr

mutual

/-- Builds a node, with the anchor and the tag before it. -/
def node (handles : Handles) (setting : Setting) (anchors : Anchors) (ts : List Token) :
    Option (Built Node ts.length) :=
  match ts with
  | .alias_ name :: rest => do
    return ⟨← anchors.lookup name, anchors, rest, by simp⟩
  | ts => do
    let p ← properties handles ts
    let known := match p.anchor with
      | some a => (a, Node.openAlias) :: anchors
      | none => anchors
    let name (n : Node) (known : Anchors) : Anchors := match p.anchor with
      | some a => (a, n) :: known
      | none => known
    match hr : p.rest with
    | .scalar plain text :: rest =>
      let n := Node.scalar p.tag plain text
      return ⟨n, name n known, rest, p.length_lt hr⟩
    | .flowSequenceStart :: rest =>
      have hp : rest.length < ts.length := p.length_lt hr
      let ⟨items, known, rest, h⟩ ← flowItems handles known rest
      return ⟨.sequence p.tag items, name (.sequence p.tag items) known, rest, by omega⟩
    | .flowMappingStart :: rest =>
      have hp : rest.length < ts.length := p.length_lt hr
      let ⟨pairs, known, rest, h⟩ ← flowPairs handles known rest
      return ⟨.mapping p.tag pairs, name (.mapping p.tag pairs) known, rest, by omega⟩
    | .sequenceStart :: rest =>
      have hp : rest.length < ts.length := p.length_lt hr
      if setting = .flow then none
      let ⟨items, known, rest, h⟩ ← blockItems handles known rest
      return ⟨.sequence p.tag items, name (.sequence p.tag items) known, rest, by omega⟩
    | .mappingStart :: rest =>
      have hp : rest.length < ts.length := p.length_lt hr
      if setting = .flow then none
      let ⟨pairs, known, rest, h⟩ ← blockPairs handles known rest
      return ⟨.mapping p.tag pairs, name (.mapping p.tag pairs) known, rest, by omega⟩
    | .entry :: rest =>
      have hp : rest.length < ts.length := p.length_lt hr
      if setting ≠ .blockValue then none
      let ⟨first, known, us, h⟩ ←
        optional handles .block [.entry, .key, .value, .blockEnd] known rest
      let ⟨items, known, rest, h'⟩ ← bareItems handles known us
      return ⟨.sequence p.tag (first :: items), name (.sequence p.tag (first :: items)) known, rest,
        by omega⟩
    | rest =>
      if hs : p.anchor.isSome ∨ p.tag.isSome then
        let n := Node.scalar p.tag true ""
        return ⟨n, name n known, rest, by have := p.lt hs; rw [hr] at this; exact this⟩
      else none
termination_by (ts.length, 0)
decreasing_by all_goals exact Prod.Lex.left _ _ (by omega)

/-- Builds a node, or nothing if one of some marks comes next. -/
def optional (handles : Handles) (setting : Setting) (marks : List Token) (anchors : Anchors)
    (ts : List Token) : Option (Built Node (ts.length + 1)) :=
  if startsAny marks ts then some ⟨.nothing, anchors, ts, by omega⟩
  else do
    let ⟨n, known, rest, h⟩ ← node handles setting anchors ts
    return ⟨n, known, rest, by omega⟩
termination_by (ts.length, 1)
decreasing_by exact Prod.Lex.right _ (by omega)

/-- Builds the value behind a colon, or nothing if there is none. -/
def pairValue (handles : Handles) (setting : Setting) (marks : List Token) (anchors : Anchors)
    (ts : List Token) : Option (Built Node (ts.length + 1)) :=
  match ts with
  | .value :: us => do
    let ⟨n, known, rest, h⟩ ← optional handles setting marks anchors us
    return ⟨n, known, rest, by simp only [List.length_cons]; omega⟩
  | ts => some ⟨.nothing, anchors, ts, by omega⟩
termination_by (ts.length, 0)
decreasing_by exact Prod.Lex.left _ _ (by simp)

/-- Builds the entries of a block sequence. -/
def blockItems (handles : Handles) (anchors : Anchors) (ts : List Token) :
    Option (Built (List Node) ts.length) :=
  match ts with
  | .blockEnd :: rest => some ⟨[], anchors, rest, by simp⟩
  | .entry :: us => do
    let ⟨n, known, vs, h⟩ ← optional handles .block [.entry, .blockEnd] anchors us
    let ⟨ns, known, rest, h'⟩ ← blockItems handles known vs
    return ⟨n :: ns, known, rest, by simp only [List.length_cons]; omega⟩
  | _ => none
termination_by (ts.length, 0)
decreasing_by
  · exact Prod.Lex.left _ _ (by simp)
  · exact Prod.Lex.left _ _ (by simp only [List.length_cons]; omega)

/-- Builds the further entries of a sequence that is not indented. -/
def bareItems (handles : Handles) (anchors : Anchors) (ts : List Token) :
    Option (Built (List Node) (ts.length + 1)) :=
  match ts with
  | .entry :: us => do
    let ⟨n, known, vs, h⟩ ← optional handles .block [.entry, .key, .value, .blockEnd] anchors us
    let ⟨ns, known, rest, h'⟩ ← bareItems handles known vs
    return ⟨n :: ns, known, rest, by simp only [List.length_cons]; omega⟩
  | ts => some ⟨[], anchors, ts, by omega⟩
termination_by (ts.length, 0)
decreasing_by
  · exact Prod.Lex.left _ _ (by simp)
  · exact Prod.Lex.left _ _ (by simp only [List.length_cons]; omega)

/-- Builds the pairs of a block mapping. -/
def blockPairs (handles : Handles) (anchors : Anchors) (ts : List Token) :
    Option (Built (List (Node × Node)) ts.length) :=
  match ts with
  | .blockEnd :: rest => some ⟨[], anchors, rest, by simp⟩
  | .key :: us => do
    let marks := [.key, .value, .blockEnd]
    let ⟨k, known, vs, h⟩ ← optional handles .blockValue marks anchors us
    let ⟨v, known, ws, h'⟩ ← pairValue handles .blockValue marks known vs
    let ⟨ps, known, rest, h''⟩ ← blockPairs handles known ws
    return ⟨(k, v) :: ps, known, rest, by simp only [List.length_cons]; omega⟩
  | _ => none
termination_by (ts.length, 0)
decreasing_by
  · exact Prod.Lex.left _ _ (by simp)
  · exact Prod.Lex.left _ _ (by simp only [List.length_cons]; omega)
  · exact Prod.Lex.left _ _ (by simp only [List.length_cons]; omega)

/-- Builds the items of a flow sequence. An item may be a single pair. -/
def flowItems (handles : Handles) (anchors : Anchors) (ts : List Token) :
    Option (Built (List Node) ts.length) :=
  match ts with
  | .flowSequenceEnd :: rest => some ⟨[], anchors, rest, by simp⟩
  | .key :: us => do
    let ⟨k, known, vs, h⟩ ←
      optional handles .flow [.value, .flowEntry, .flowSequenceEnd] anchors us
    let ⟨v, known, ws, h'⟩ ← pairValue handles .flow [.flowEntry, .flowSequenceEnd] known vs
    let ⟨ns, known, rest, h''⟩ ← moreFlowItems handles known ws
    return ⟨.mapping none [(k, v)] :: ns, known, rest, by simp only [List.length_cons]; omega⟩
  | ts => do
    let ⟨n, known, us, h⟩ ← node handles .flow anchors ts
    let ⟨ns, known, rest, h'⟩ ← moreFlowItems handles known us
    return ⟨n :: ns, known, rest, by omega⟩
termination_by (ts.length, 1)
decreasing_by
  · exact Prod.Lex.left _ _ (by simp)
  · exact Prod.Lex.left _ _ (by simp only [List.length_cons]; omega)
  · exact Prod.Lex.left _ _ (by simp only [List.length_cons]; omega)
  · exact Prod.Lex.right _ (by omega)
  · exact Prod.Lex.left _ _ h

/-- Builds the items behind a comma, up to the closing bracket. -/
def moreFlowItems (handles : Handles) (anchors : Anchors) (ts : List Token) :
    Option (Built (List Node) ts.length) :=
  match ts with
  | .flowSequenceEnd :: rest => some ⟨[], anchors, rest, by simp⟩
  | .flowEntry :: us => do
    let ⟨ns, known, rest, h⟩ ← flowItems handles anchors us
    return ⟨ns, known, rest, by simp only [List.length_cons]; omega⟩
  | _ => none
termination_by (ts.length, 0)
decreasing_by exact Prod.Lex.left _ _ (by simp)

/-- Builds the pairs of a flow mapping. A pair may lack its value. -/
def flowPairs (handles : Handles) (anchors : Anchors) (ts : List Token) :
    Option (Built (List (Node × Node)) ts.length) :=
  match ts with
  | .flowMappingEnd :: rest => some ⟨[], anchors, rest, by simp⟩
  | .key :: us => do
    let ⟨k, known, vs, h⟩ ←
      optional handles .flow [.value, .flowEntry, .flowMappingEnd] anchors us
    let ⟨v, known, ws, h'⟩ ← pairValue handles .flow [.flowEntry, .flowMappingEnd] known vs
    let ⟨ps, known, rest, h''⟩ ← moreFlowPairs handles known ws
    return ⟨(k, v) :: ps, known, rest, by simp only [List.length_cons]; omega⟩
  | ts => do
    let ⟨k, known, us, h⟩ ← node handles .flow anchors ts
    let ⟨ps, known, rest, h'⟩ ← moreFlowPairs handles known us
    return ⟨(k, .nothing) :: ps, known, rest, by omega⟩
termination_by (ts.length, 1)
decreasing_by
  · exact Prod.Lex.left _ _ (by simp)
  · exact Prod.Lex.left _ _ (by simp only [List.length_cons]; omega)
  · exact Prod.Lex.left _ _ (by simp only [List.length_cons]; omega)
  · exact Prod.Lex.right _ (by omega)
  · exact Prod.Lex.left _ _ h

/-- Builds the pairs behind a comma, up to the closing brace. -/
def moreFlowPairs (handles : Handles) (anchors : Anchors) (ts : List Token) :
    Option (Built (List (Node × Node)) ts.length) :=
  match ts with
  | .flowMappingEnd :: rest => some ⟨[], anchors, rest, by simp⟩
  | .flowEntry :: us => do
    let ⟨ps, known, rest, h⟩ ← flowPairs handles anchors us
    return ⟨ps, known, rest, by simp only [List.length_cons]; omega⟩
  | _ => none
termination_by (ts.length, 0)
decreasing_by exact Prod.Lex.left _ _ (by simp)

end

/-! ## Documents -/

/-- The handles that need no directive. -/
def defaultHandles : Handles := [("!", "!"), ("!!", "tag:yaml.org,2002:")]

/-- Takes the directives before a document: the handles they declare, and the tokens after them. -/
def directives (versioned : Bool) (handles : Handles) : List Token → Option (Handles × List Token)
  | .directive ["YAML", version] :: ts =>
    if versioned || !(["1.1", "1.2"].contains version) then none else directives true handles ts
  | .directive ["TAG", handle, mark] :: ts => directives versioned ((handle, mark) :: handles) ts
  | .directive _ :: _ => none
  | ts => some (handles, ts)

/-- The node of a text with one document, and of one without as nothing. -/
def Node.ofTokens? (ts : List Token) : Option Node := do
  let (handles, us) ← directives false defaultHandles ts
  let root (ts : List Token) : Option Node := do
    let ⟨n, _, rest, _⟩ ← node handles .block [] ts
    if rest.all (· == .documentEnd) then return n else none
  match us with
  | .documentStart :: vs => if vs.all (· == .documentEnd) then return .nothing else root vs
  | [] => if ts.isEmpty then return .nothing else none
  | us => if us.length = ts.length then root us else none

/-- The node of a text. -/
def Node.ofText? (text : String) : Option Node := (tokens? text).bind Node.ofTokens?

end MetricBoard.Yaml
