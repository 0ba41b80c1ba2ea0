import MetricBoard.Text.Ascii
import MetricBoard.Yaml.Glyph

/-!
# Scalars of a YAML text

The three ways to write a text: plain, in quotes, and as a block. Inside plain and quoted scalars
a line end with the blanks around it becomes one space, and further line ends stay; `Fold` holds
what has been read and the gap that waits for the next character. A block scalar keeps its lines
or folds them, and its last line ends are kept, cut to one or dropped.
-/

namespace MetricBoard.Yaml

/-- What has been read of a scalar, and the gap behind it. All lists run backwards. -/
structure Fold where
  text : List Char
  /-- Blanks on the line of the text. -/
  blanks : List Char
  /-- The first line end of the gap. -/
  firstBreak : List Char
  /-- The further line ends of the gap. -/
  moreBreaks : List Char
  /-- Whether the gap has a line end. -/
  onNewLine : Bool

namespace Fold

/-- Nothing read. -/
def empty : Fold := ⟨[], [], [], [], false⟩

/-- Whether a gap waits. -/
def hasGap (f : Fold) : Bool := f.onNewLine || f.blanks != []

/-- The text with the gap put behind it. -/
def close (f : Fold) : Fold :=
  let gap :=
    if f.onNewLine then
      if f.firstBreak == ['\n'] then if f.moreBreaks == [] then [' '] else f.moreBreaks
      else f.moreBreaks ++ f.firstBreak
    else f.blanks
  ⟨gap ++ f.text, [], [], [], false⟩

/-- Adds a character of the text. -/
def push (f : Fold) (c : Char) : Fold :=
  let g := f.close
  { g with text := c :: g.text }

/-- Adds a blank or a line end. -/
def pushGap (f : Fold) (c : Char) : Fold :=
  if isBreak c then
    if f.onNewLine then { f with moreBreaks := c :: f.moreBreaks }
    else { f with blanks := [], firstBreak := [c], onNewLine := true }
  else if f.onNewLine then f
  else { f with blanks := c :: f.blanks }

/-- Goes to a new line without a line end of its own. -/
def continueLine (f : Fold) : Fold := { f.close with onNewLine := true }

/-- The text read, without the gap. -/
def toString (f : Fold) : String := String.ofList f.text.reverse

end Fold

/-- A mark of a flow collection. -/
def isFlowMark (c : Char) : Bool :=
  c == ',' || c == '[' || c == ']' || c == '\x7b' || c == '\x7d'

/-! ## Plain scalars -/

/-- Reads a plain scalar: the text read and what follows the gap behind it. In a block it ends
before a line that is indented less than `indent`. -/
def readPlain (flow : Bool) (indent : Nat) (f : Fold) : List Glyph → Option (Fold × List Glyph)
  | [] => some (f, [])
  | g :: gs =>
    let c := g.char
    if isGap c || isBreak c then
      if f.onNewLine && c == '\t' && decide (g.column < indent) then none
      else readPlain flow indent (f.pushGap c) gs
    else if f.hasGap &&
        ((!flow && decide (g.column < indent)) || c == '#' || atMarker (g :: gs)) then
      some (f, g :: gs)
    else if flow && c == ':' &&
        (gs.head?.any fun d => d.char == '?' || isFlowMark d.char) then none
    else if (c == ':' && atBlank gs) || (flow && isFlowMark c) then some (f, g :: gs)
    else readPlain flow indent (f.push c) gs

/-! ## Quoted scalars -/

/-- The character that a letter behind a backslash stands for. -/
def escaped? : Char → Option Char
  | '0' => some '\x00'
  | 'a' => some '\x07'
  | 'b' => some '\x08'
  | 't' | '\t' => some '\t'
  | 'n' => some '\n'
  | 'v' => some '\x0b'
  | 'f' => some '\x0c'
  | 'r' => some '\r'
  | 'e' => some '\x1b'
  | ' ' => some ' '
  | '"' => some '"'
  | '/' => some '/'
  | '\\' => some '\\'
  | 'N' => some '\u0085'
  | '_' => some '\u00a0'
  | 'L' => some '\u2028'
  | 'P' => some '\u2029'
  | _ => none

/-- The number of digits of an escape by number. -/
def escapeDigits : Char → Nat
  | 'x' => 2
  | 'u' => 4
  | 'U' => 8
  | _ => 0

/-- The character with a code given by hexadecimal digits. -/
def charOfHex? (ds : List Char) : Option Char := do
  let n ← ds.foldlM (fun n d => (Text.hexDigit? d).map (16 * n + ·)) 0
  if n.isValidChar then return Char.ofNat n else none

/-- Reads a scalar behind its opening quote: the text and what follows the closing quote. The
count says how many glyphs of an escape are still to be passed over. -/
def readQuoted (double : Bool) (f : Fold) (pass : Nat) : List Glyph → Option (Fold × List Glyph)
  | [] => none
  | g :: gs =>
    let c := g.char
    if 0 < pass then readQuoted double f (pass - 1) gs
    else if isGap c || isBreak c then readQuoted double (f.pushGap c) 0 gs
    else if atMarker (g :: gs) then none
    else if !double && c == '\'' && startsWith '\'' gs then readQuoted double (f.push c) 1 gs
    else if c == (if double then '"' else '\'') then some (f.close, gs)
    else if double && c == '\\' then
      match gs with
      | [] => none
      | e :: es =>
        if isBreak e.char then readQuoted double f.continueLine 1 gs
        else if 0 < escapeDigits e.char then
          let k := escapeDigits e.char
          let ds := es.take k
          if ds.length = k then
            match charOfHex? (ds.map Glyph.char) with
            | some d => readQuoted double (f.push d) (k + 1) gs
            | none => none
          else none
        else
          match escaped? e.char with
          | some d => readQuoted double (f.push d) 1 gs
          | none => none
    else readQuoted double (f.push c) 0 gs

/-! ## Block scalars -/

/-- What becomes of the line ends behind the last line of a block scalar. -/
inductive Chomp where
  | keep
  | one
  | drop
  deriving DecidableEq, Repr

/-- The header of a block scalar behind its mark: how it ends, the indentation it asks for, and
what follows the header's line. -/
def readBlockHeader (gs : List Glyph) : Option (Chomp × Option Nat × List Glyph) := do
  let chomp? (gs : List Glyph) : Option Chomp × List Glyph :=
    match gs with
    | g :: rest => if g.char = '+' then (some .keep, rest)
        else if g.char = '-' then (some .drop, rest) else (none, gs)
    | [] => (none, [])
  let digit? (gs : List Glyph) : Option (Option Nat × List Glyph) :=
    match gs with
    | g :: rest =>
      if g.char = '0' then none
      else if g.char.isDigit then some (some (g.char.toNat - '0'.toNat), rest)
      else some (none, gs)
    | [] => some (none, [])
  let (before, us) := chomp? gs
  let (indent, vs) ← digit? us
  let (behind, ws) := if before.isNone && indent.isSome then chomp? vs else (none, vs)
  let xs := ws.dropWhile fun g => isGap g.char
  let ys := if startsWith '#' xs then xs.dropWhile fun g => !isBreak g.char else xs
  let chomp := (before.or behind).getD .one
  match ys with
  | [] => return (chomp, indent, [])
  | g :: rest => if isBreak g.char then return (chomp, indent, rest) else none

/-- Passes over indentation and empty lines: the line ends, backwards, the widest indentation
met, and what follows. Without a given indentation all spaces count. -/
def readIndents (indent : Option Nat) (breaks : List Char) (widest : Nat) :
    List Glyph → Option (List Char × Nat × List Glyph)
  | [] => some (breaks, widest, [])
  | g :: gs =>
    let inside := indent.all fun n => decide (g.column < n)
    if inside && g.char == ' ' then readIndents indent breaks (max widest (g.column + 1)) gs
    else if inside && g.char == '\t' then none
    else if isBreak g.char then readIndents indent (g.char :: breaks) (max widest g.column) gs
    else some (breaks, max widest g.column, g :: gs)

/-- What has been read of a block scalar; lists run backwards. -/
structure BlockFold where
  text : List Char
  /-- The end of the last line read. -/
  lineEnd : List Char
  /-- The empty lines behind it. -/
  breaks : List Char
  /-- Whether the last line began with a blank. -/
  wasIndented : Bool

/-- The text with the last line's end put behind it, before a line that begins with a blank or
not. Folding joins two lines that begin with none by a space. -/
def BlockFold.join (literal indented : Bool) (b : BlockFold) : List Char :=
  let lineEnd :=
    if !literal && b.lineEnd == ['\n'] && !b.wasIndented && !indented then
      if b.breaks == [] then [' '] else []
    else b.lineEnd
  b.breaks ++ lineEnd ++ b.text

/-- Reads the lines of a block scalar at its indentation. -/
def readBlockLines (literal : Bool) (indent : Nat) (b : BlockFold) (gs : List Glyph) :
    Option (BlockFold × List Glyph) :=
  match gs with
  | [] => some (b, [])
  | g :: rest =>
    if g.column ≠ indent then some (b, g :: rest)
    else
      let indented := isGap g.char
      let line := (g :: rest).takeWhile fun g => !isBreak g.char
      let after := (g :: rest).drop line.length
      let lineEnd := (after.take 1).map Glyph.char
      match readIndents (some indent) [] 0 (after.drop 1) with
      | none => none
      | some (breaks, _, next) =>
        if next.length < (g :: rest).length then
          readBlockLines literal indent
            ⟨(line.map Glyph.char).reverse ++ b.join literal indented, lineEnd, breaks, indented⟩
            next
        else none
termination_by gs.length
decreasing_by assumption

/-- Reads a block scalar behind its mark, inside a block of a given indentation. -/
def readBlock (literal : Bool) (parent : Int) (gs : List Glyph) : Option (String × List Glyph) := do
  let (chomp, asked, us) ← readBlockHeader gs
  let least : Nat := (max (parent + 1) 1).toNat
  let given := asked.map fun n => if 0 ≤ parent then parent.toNat + n else n
  let (breaks, widest, vs) ← readIndents given [] 0 us
  let indent := given.getD (max widest least)
  let (b, rest) ← readBlockLines literal indent ⟨[], [], breaks, false⟩ vs
  let text := match chomp with
    | .drop => b.text
    | .one => b.lineEnd ++ b.text
    | .keep => b.breaks ++ b.lineEnd ++ b.text
  return (String.ofList text.reverse, rest)

end MetricBoard.Yaml
