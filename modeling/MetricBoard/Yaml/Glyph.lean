/-!
# Placed characters of a YAML text

YAML gives meaning to columns and line ends, so a text is read as a list of characters that know
their place. Line ends of one or two characters become a line feed; the line and the paragraph
separator end lines too and stay as they are. A text with a character that YAML does not admit has
no glyphs.
-/

namespace MetricBoard.Yaml

/-- A character with its line, its column and its position in the text. -/
structure Glyph where
  char : Char
  line : Nat
  column : Nat
  index : Nat
  deriving DecidableEq, Repr

/-- A character that a YAML text may hold. -/
def isAdmitted (c : Char) : Bool :=
  let n := c.toNat
  n == 0x09 || n == 0x0a || n == 0x0d || (0x20 ≤ n && n ≤ 0x7e) || n == 0x85 ||
    (0xa0 ≤ n && n ≤ 0xfffd && n != 0xfeff) || 0x10000 ≤ n

/-- A character that ends a line. -/
def isBreak (c : Char) : Bool := c == '\n' || c == '\u2028' || c == '\u2029'

/-- A space or a tab. -/
def isGap (c : Char) : Bool := c == ' ' || c == '\t'

/-- Line ends as one line feed each. -/
def unifyBreaks : List Char → List Char
  | [] => []
  | '\r' :: '\n' :: cs => '\n' :: unifyBreaks cs
  | '\r' :: cs => '\n' :: unifyBreaks cs
  | '\u0085' :: cs => '\n' :: unifyBreaks cs
  | c :: cs => c :: unifyBreaks cs

/-- Gives characters their places. -/
def place (line column index : Nat) : List Char → List Glyph
  | [] => []
  | c :: cs =>
    ⟨c, line, column, index⟩ ::
      if isBreak c then place (line + 1) 0 (index + 1) cs
      else place line (column + 1) (index + 1) cs

/-- The text without a byte order mark at its front. -/
def withoutMark : List Char → List Char
  | '\ufeff' :: cs => cs
  | cs => cs

/-- The glyphs of a text. -/
def glyphs? (text : List Char) : Option (List Glyph) :=
  let cs := withoutMark text
  if cs.all isAdmitted then some (place 0 0 0 (unifyBreaks cs)) else none

/-- Whether a text ends here, or goes on with a gap or a line end. -/
def atBlank : List Glyph → Bool
  | [] => true
  | g :: _ => isGap g.char || isBreak g.char

/-- Whether a text goes on with a given character. -/
def startsWith (c : Char) : List Glyph → Bool
  | [] => false
  | g :: _ => g.char == c

/-- Whether a text goes on with three times a given character, at the start of a line and as a
word of its own: a document marker. -/
def startsMarker (c : Char) : List Glyph → Bool
  | a :: b :: d :: rest =>
    a.column == 0 && a.char == c && b.char == c && d.char == c && atBlank rest
  | _ => false

/-- Whether a document marker comes next. -/
def atMarker (gs : List Glyph) : Bool := startsMarker '-' gs || startsMarker '.' gs

end MetricBoard.Yaml
