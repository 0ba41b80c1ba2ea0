import MetricBoard.Yaml.Scalar

/-!
# Tokens of a YAML text

The marks and scalars of a YAML text, with marks of their own for where a block collection starts
and ends, which the text shows by indentation only. A key needs no mark in the text when it
stands on one line before its colon: so each place where such a key could start is remembered, and
the key's mark is put in there once the colon is met.
-/

namespace MetricBoard.Yaml

/-- A token. -/
inductive Token where
  | directive (words : List String)
  | documentStart
  | documentEnd
  | sequenceStart
  | mappingStart
  | blockEnd
  | entry
  | key
  | value
  | flowSequenceStart
  | flowSequenceEnd
  | flowMappingStart
  | flowMappingEnd
  | flowEntry
  | anchor (name : String)
  | alias_ (name : String)
  | tag (handle suffix : String)
  | scalar (plain : Bool) (text : String)
  deriving DecidableEq, Repr

/-- A place where a key without a mark may start. -/
structure KeyPlace where
  /-- How many tokens stand before it. -/
  before : Nat
  line : Nat
  column : Nat
  index : Nat
  /-- Whether nothing but a key can stand there. -/
  required : Bool
  deriving Repr

/-- How far a text has been read. -/
structure Lexing where
  rest : List Glyph
  tokens : Array Token
  /-- The column of the innermost open block collection, -1 outside. -/
  indent : Int
  /-- The columns of the block collections around it. -/
  outer : List Int
  /-- The open places of keys: one for the block, and one for each open flow collection. -/
  keys : List (Option KeyPlace)
  /-- Whether a key may start here. -/
  keyAllowed : Bool

/-- A step of reading, which may fail. -/
abbrev Lex := StateT Lexing Option

namespace Lex

/-- Whether a flow collection is open. -/
def inFlow : Lex Bool := return (← get).keys.length > 1

/-- Adds a token. -/
def emit (t : Token) : Lex Unit := modify fun s => { s with tokens := s.tokens.push t }

/-- Says whether a key may start next. -/
def allowKey (b : Bool) : Lex Unit := modify fun s => { s with keyAllowed := b }

/-- Passes over glyphs. -/
def skip (n : Nat) : Lex Unit := modify fun s => { s with rest := s.rest.drop n }

/-- Replaces the innermost place of a key. -/
def setKey (k : Option KeyPlace) : Lex Unit := modify fun s => { s with keys := k :: s.keys.tail }

/-- Puts tokens in before the ones that follow the first `n`. -/
def insertAt (n : Nat) (ts : List Token) : Lex Unit :=
  modify fun s => { s with
    tokens := s.tokens.extract 0 n ++ ts.toArray ++ s.tokens.extract n s.tokens.size }

/-- Opens a block collection at a column, if it is indented more than the one around it. -/
def openBlock (column at_ : Nat) (t : Token) : Lex Unit := do
  let s ← get
  if (← inFlow) then return
  if s.indent < column then
    set { s with indent := column, outer := s.indent :: s.outer }
    insertAt at_ [t]

/-- The block collections that end before a column: how many, and those that stay open. -/
def closing (column indent : Int) : List Int → Nat × Int × List Int
  | [] => (0, indent, [])
  | o :: os =>
    if column < indent then
      let (n, r) := closing column o os
      (n + 1, r)
    else (0, indent, o :: os)

/-- Closes the block collections that are indented more than a column. -/
def closeBlocks (column : Int) : Lex Unit := do
  let s ← get
  if (← inFlow) then return
  let (n, indent, outer) := closing column s.indent s.outer
  set { s with
    indent := indent, outer := outer, tokens := s.tokens ++ Array.replicate n Token.blockEnd }

/-- Gives up the innermost place of a key, which must not be required. -/
def dropKey : Lex Unit := do
  match (← get).keys.head?.join with
  | some k => if k.required then failure else setKey none
  | none => return

/-- Remembers that a key may start at a glyph. -/
def saveKey (g : Glyph) : Lex Unit := do
  let s ← get
  if s.keyAllowed then
    dropKey
    setKey (some ⟨s.tokens.size, g.line, g.column, g.index,
      !(← inFlow) && s.indent == (g.column : Int)⟩)

/-- Gives up the places of keys that lie on an earlier line or too far back. -/
def dropStale (g : Glyph) : Lex Unit := do
  let s ← get
  let isStale (k : KeyPlace) : Bool := k.line < g.line || k.index + 1024 < g.index
  if s.keys.any fun k => k.any fun k => isStale k && k.required then failure
  set { s with keys := s.keys.map (Option.filter fun k => !isStale k) }

/-- Passes over blanks, comments and line ends before a token, and says whether a key may start
there. Where it may, a tab in a block is no blank. -/
def skipBlanks (flow comment keyAllowed : Bool) : List Glyph → List Glyph × Bool
  | [] => ([], keyAllowed)
  | g :: gs =>
    if isBreak g.char then skipBlanks flow false (keyAllowed || !flow) gs
    else if comment || g.char == '#' then skipBlanks flow true keyAllowed gs
    else if g.char == ' ' || ((flow || !keyAllowed) && g.char == '\t') then
      skipBlanks flow false keyAllowed gs
    else (g :: gs, keyAllowed)

theorem length_skipBlanks_le (flow comment keyAllowed : Bool) (gs : List Glyph) :
    (skipBlanks flow comment keyAllowed gs).1.length ≤ gs.length := by
  fun_induction skipBlanks flow comment keyAllowed gs with
  | case1 => simp
  | case5 => simp
  | case2 | case3 | case4 => simp only [List.length_cons]; omega

/-! ## Names and tags -/

/-- A character of an anchor's name. -/
def isNamePart (c : Char) : Bool := c.isAlphanum || c == '_' || c == '-'

/-- Takes the name of an anchor or an alias, which has to end at a blank or a mark. -/
def name : Lex String := do
  let s ← get
  let word := s.rest.takeWhile fun g => isNamePart g.char
  let rest := s.rest.drop word.length
  let ends := atBlank rest || rest.head?.any fun g =>
    ['?', ':', ',', ']', '\x7d', '%', '@', '`'].contains g.char
  if word.isEmpty || !ends then failure
  set { s with rest := rest }
  return String.ofList (word.map Glyph.char)

/-- A character of a tag. Commas and brackets belong only to a tag between angle brackets. -/
def isTagPart (verbatim : Bool) (c : Char) : Bool :=
  isNamePart c || [';', '/', '?', ':', '@', '&', '=', '+', '$', '.', '%', '!', '~', '*', '\'', '(',
    ')'].contains c || (verbatim && [',', '[', ']'].contains c)

/-- Takes a tag behind its exclamation mark: a handle and a suffix. -/
def tag : Lex Token := do
  let s ← get
  if startsWith '<' s.rest then
    let word := (s.rest.drop 1).takeWhile fun g => isTagPart true g.char
    let rest := s.rest.drop (word.length + 1)
    if word.isEmpty || !startsWith '>' rest then failure
    set { s with rest := rest.drop 1 }
    return .tag "" (String.ofList (word.map Glyph.char))
  let word := s.rest.takeWhile fun g => isTagPart false g.char
  let rest := s.rest.drop word.length
  if !(atBlank rest || ((← inFlow) && startsWith ',' rest)) then failure
  set { s with rest := rest }
  let cs := word.map Glyph.char
  let handle := cs.takeWhile isNamePart
  match cs.drop handle.length with
  | '!' :: suffix =>
    if suffix.isEmpty then failure
    return .tag (String.ofList ('!' :: handle ++ ['!'])) (String.ofList suffix)
  | _ => return .tag "!" (String.ofList cs)

/-! ## Tokens -/

/-- Takes a directive: the words of its line. -/
def directive : Lex Unit := do
  closeBlocks (-1)
  dropKey
  allowKey false
  let s ← get
  let line := (s.rest.drop 1).takeWhile fun g => !isBreak g.char
  let words := ((line.map Glyph.char).splitOnP isGap).filter (· ≠ [])
  let words := words.takeWhile fun w => w.head? ≠ some '#'
  emit (.directive (words.map String.ofList))
  skip (line.length + 1)

/-- Takes a mark of a document. -/
def marker (t : Token) : Lex Unit := do
  closeBlocks (-1)
  dropKey
  allowKey false
  skip 3
  emit t

/-- Takes the mark that opens a flow collection. -/
def openFlow (g : Glyph) (t : Token) : Lex Unit := do
  saveKey g
  modify fun s => { s with keys := none :: s.keys }
  allowKey true
  skip 1
  emit t

/-- Takes the mark that closes a flow collection. -/
def closeFlow (t : Token) : Lex Unit := do
  dropKey
  modify fun s => { s with keys := if s.keys.length > 1 then s.keys.tail else s.keys }
  allowKey false
  skip 1
  emit t

/-- Takes the dash of a block sequence's entry. -/
def entry (g : Glyph) : Lex Unit := do
  if !(← inFlow) then
    if !(← get).keyAllowed then failure
    openBlock g.column (← get).tokens.size .sequenceStart
  dropKey
  allowKey true
  skip 1
  emit .entry

/-- Takes the question mark of a key. -/
def key (g : Glyph) : Lex Unit := do
  if !(← inFlow) then
    if !(← get).keyAllowed then failure
    openBlock g.column (← get).tokens.size .mappingStart
  dropKey
  allowKey (!(← inFlow))
  skip 1
  emit .key

/-- Takes the colon of a value, and gives the key before it its mark. -/
def value (g : Glyph) : Lex Unit := do
  match (← get).keys.head?.join with
  | some k =>
    insertAt k.before [.key]
    openBlock k.column k.before .mappingStart
    setKey none
    allowKey false
  | none =>
    if !(← inFlow) then
      if !(← get).keyAllowed then failure
      openBlock g.column (← get).tokens.size .mappingStart
    allowKey (!(← inFlow))
  skip 1
  emit .value

/-- Takes a scalar in quotes. -/
def quoted (g : Glyph) (double : Bool) : Lex Unit := do
  saveKey g
  allowKey false
  let s ← get
  let (f, rest) ← (readQuoted double .empty 0 (s.rest.drop 1) : Option _)
  set { s with rest := rest }
  emit (.scalar false f.toString)

/-- Takes a block scalar. -/
def block (literal : Bool) : Lex Unit := do
  dropKey
  allowKey true
  let s ← get
  let (text, rest) ← (readBlock literal s.indent (s.rest.drop 1) : Option _)
  set { s with rest := rest }
  emit (.scalar false text)

/-- Takes a plain scalar. -/
def plain (g : Glyph) : Lex Unit := do
  saveKey g
  allowKey false
  let s ← get
  let (f, rest) ← (readPlain (← inFlow) (s.indent + 1).toNat .empty s.rest : Option _)
  set { s with rest := rest, keyAllowed := f.onNewLine }
  emit (.scalar true f.toString)

/-- Whether a plain scalar may start with a character, before what follows it. -/
def startsPlain (flow : Bool) (c : Char) (next : List Glyph) : Bool :=
  if c == '-' then !(next.head?.any fun g => isGap g.char)
  else if c == '?' || c == ':' then !flow && !atBlank next
  else !(isGap c || [',', '[', ']', '\x7b', '\x7d', '#', '&', '*', '!', '|', '>', '\'', '"', '%',
    '@', '`'].contains c)

/-- Takes the token that starts at a glyph. -/
def token (g : Glyph) (next : List Glyph) : Lex Unit := do
  let flow ← inFlow
  let gs := g :: next
  if g.column == 0 && g.char == '%' then directive
  else if startsMarker '-' gs then marker .documentStart
  else if startsMarker '.' gs then marker .documentEnd
  else
    match g.char with
    | '[' => openFlow g .flowSequenceStart
    | '\x7b' => openFlow g .flowMappingStart
    | ']' => closeFlow .flowSequenceEnd
    | '\x7d' => closeFlow .flowMappingEnd
    | ',' => do
      dropKey
      allowKey true
      skip 1
      emit .flowEntry
    | '*' => do
      saveKey g
      allowKey false
      skip 1
      emit (.alias_ (← name))
    | '&' => do
      saveKey g
      allowKey false
      skip 1
      emit (.anchor (← name))
    | '!' => do
      saveKey g
      allowKey false
      skip 1
      emit (← tag)
    | '\'' => quoted g false
    | '"' => quoted g true
    | c =>
      if c == '-' && atBlank next then entry g
      else if c == '?' && (flow || atBlank next) then key g
      else if c == ':' && (flow || atBlank next) then value g
      else if c == '|' && !flow then block true
      else if c == '>' && !flow then block false
      else if startsPlain flow c next then plain g
      else failure

end Lex

/-- Reads on to the end of the text. -/
def Lexing.finish (s : Lexing) : Option (List Token) :=
  match h : Lex.skipBlanks (s.keys.length > 1) false s.keyAllowed s.rest with
  | ([], allowed) =>
    let last : Lex Unit := do
      Lex.closeBlocks (-1)
      Lex.dropKey
    (last.run { s with rest := [], keyAllowed := allowed }).map fun r => r.2.tokens.toList
  | (g :: gs, allowed) =>
    let step : Lex Unit := do
      Lex.dropStale g
      Lex.closeBlocks g.column
      Lex.token g gs
    match step.run { s with rest := g :: gs, keyAllowed := allowed } with
    | none => none
    | some ((), next) => if next.rest.length < (g :: gs).length then next.finish else none
termination_by s.rest.length
decreasing_by
  have := Lex.length_skipBlanks_le (s.keys.length > 1) false s.keyAllowed s.rest
  rw [h] at this
  exact Nat.lt_of_lt_of_le (by assumption) this

/-- The tokens of a text. -/
def tokens? (text : String) : Option (List Token) := do
  let gs ← glyphs? text.toList
  Lexing.finish ⟨gs, #[], -1, [], [none], true⟩

end MetricBoard.Yaml
