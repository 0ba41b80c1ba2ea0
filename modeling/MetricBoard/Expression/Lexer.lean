import MetricBoard.Expression.Reason
import MetricBoard.Expression.Token

/-!
# Splitting a source into tokens

`tokenize` reads the longest token at each place and skips ASCII spaces between tokens. A reader
takes the first character of a token and what follows it, and gives the token with the rest;
`Token.read_length` says that a reader never gives back more than it was handed, on which the
recursion of `lexemes` rests.
-/

namespace MetricBoard.Expression

open Text

namespace Token

/-- The content of a delimited token and what follows its closing delimiter. A doubled closing
delimiter stands for one. -/
def readDelimited (closing : Char) : List Char → Option (List Char × List Char)
  | [] => none
  | c :: cs =>
    if c = closing then
      match cs with
      | d :: ds =>
        if d = closing then (readDelimited closing ds).map fun r => (c :: r.1, r.2)
        else some ([], d :: ds)
      | [] => some ([], [])
    else (readDelimited closing cs).map fun r => (c :: r.1, r.2)

/-- The content of a token up to the first closing delimiter, and what follows it. -/
def readUpTo (closing : Char) : List Char → Option (List Char × List Char)
  | [] => none
  | c :: cs =>
    if c = closing then some ([], cs) else (readUpTo closing cs).map fun r => (c :: r.1, r.2)

/-- The fraction of a number: a point is part of it only before a digit. -/
def readFraction : List Char → List Char × List Char
  | '.' :: d :: cs =>
    if d.isDigit then ('.' :: d :: cs.takeWhile Char.isDigit, cs.dropWhile Char.isDigit)
    else ([], '.' :: d :: cs)
  | cs => ([], cs)

/-- The token that begins with `c`, which is no space, and what follows it. -/
def read (c : Char) (cs : List Char) : Except Reason (Token × List Char) :=
  let delimitedBy (closing : Char) (make : String → Token) : Except Reason (Token × List Char) :=
    match readDelimited closing cs with
    | some (content, rest) => .ok (make (String.ofList content), rest)
    | none => .error .unterminated
  match c with
  | '(' => .ok (lparen, cs)
  | ')' => .ok (rparen, cs)
  | ',' => .ok (comma, cs)
  | '.' => .ok (dot, cs)
  | '*' => .ok (star, cs)
  | '+' => .ok (plus, cs)
  | '%' => .ok (percent, cs)
  | '=' => .ok (eq, cs)
  | '-' => if cs.head? = some '-' then .error .comment else .ok (minus, cs)
  | '/' => if cs.head? = some '*' then .error .comment else .ok (slash, cs)
  | '<' =>
    if cs.head? = some '=' then .ok (le, cs.tail)
    else if cs.head? = some '>' then .ok (ne, cs.tail)
    else .ok (lt, cs)
  | '>' => if cs.head? = some '=' then .ok (ge, cs.tail) else .ok (gt, cs)
  | '!' => if cs.head? = some '=' then .ok (ne, cs.tail) else .error .strayCharacter
  | '\'' => delimitedBy '\'' text
  | '"' => delimitedBy '"' quoted
  | '[' => delimitedBy ']' quoted
  | '#' =>
    match readUpTo '#' cs with
    | some (content, rest) => .ok (date (String.ofList content), rest)
    | none => .error .unterminated
  | ';' => .error .separator
  | '@' => .error .serverVariable
  | c =>
    if c.isDigit then
      let fraction := readFraction (cs.dropWhile Char.isDigit)
      .ok (number (String.ofList (c :: cs.takeWhile Char.isDigit ++ fraction.1)), fraction.2)
    else if isWordStart c then
      .ok (word (String.ofList (c :: cs.takeWhile isWordPart)), cs.dropWhile isWordPart)
    else .error .strayCharacter

theorem readDelimited_length {closing : Char} {cs content rest : List Char}
    (h : readDelimited closing cs = some (content, rest)) : rest.length < cs.length := by
  fun_induction readDelimited closing cs generalizing content rest with
  | case1 => simp at h
  | case2 ds ih =>
    obtain ⟨⟨a, b⟩, hab, he⟩ := Option.map_eq_some_iff.1 h
    have := ih hab
    simp only [Prod.mk.injEq] at he
    simp only [List.length_cons, ← he.2]
    omega
  | case3 => simp_all
  | case4 => simp_all
  | case5 c cs _ ih =>
    obtain ⟨⟨a, b⟩, hab, he⟩ := Option.map_eq_some_iff.1 h
    have := ih hab
    simp only [Prod.mk.injEq] at he
    simp only [List.length_cons, ← he.2]
    omega

theorem readUpTo_length {closing : Char} {cs content rest : List Char}
    (h : readUpTo closing cs = some (content, rest)) : rest.length < cs.length := by
  induction cs generalizing content rest with
  | nil => simp [readUpTo] at h
  | cons c cs ih =>
    rw [readUpTo] at h
    split at h
    · simp_all
    · obtain ⟨⟨a, b⟩, hab, he⟩ := Option.map_eq_some_iff.1 h
      have := ih hab
      simp only [Prod.mk.injEq] at he
      simp only [List.length_cons, ← he.2]
      omega

theorem length_dropWhile_le {α : Type} (p : α → Bool) (xs : List α) :
    (xs.dropWhile p).length ≤ xs.length :=
  (List.dropWhile_suffix p).length_le

theorem readFraction_length (cs : List Char) : (readFraction cs).2.length ≤ cs.length := by
  fun_cases readFraction cs with
  | case1 d cs _ =>
    have := length_dropWhile_le Char.isDigit cs
    simp only [List.length_cons]
    omega
  | case2 => simp
  | case3 => simp

theorem read_length {c : Char} {cs rest : List Char} {t : Token} (h : read c cs = .ok (t, rest)) :
    rest.length ≤ cs.length := by
  have hd := length_dropWhile_le Char.isDigit cs
  have hw := length_dropWhile_le isWordPart cs
  have hf := readFraction_length (cs.dropWhile Char.isDigit)
  have ht : cs.tail.length ≤ cs.length := by simp
  unfold read at h
  dsimp only at h
  repeat' split at h
  all_goals first
    | (simp only [Except.ok.injEq, Prod.mk.injEq] at h; obtain ⟨-, rfl⟩ := h; omega)
    | (simp only [Except.ok.injEq, Prod.mk.injEq] at h
       obtain ⟨-, rfl⟩ := h
       have := readDelimited_length (by assumption)
       omega)
    | (simp only [Except.ok.injEq, Prod.mk.injEq] at h
       obtain ⟨-, rfl⟩ := h
       have := readUpTo_length (by assumption)
       omega)
    | simp at h

end Token

/-- The tokens of a text that starts at byte `offset` of its source. -/
def lexemes (offset : Nat) : List Char → Except Fault (List Lexeme)
  | [] => .ok []
  | c :: cs =>
    if isSpace c then lexemes (offset + 1) cs
    else
      match h : Token.read c cs with
      | .error reason => .error ⟨.byte offset, reason⟩
      | .ok (token, rest) =>
        have : rest.length ≤ cs.length := Token.read_length h
        (lexemes (offset + (byteCount (c :: cs) - byteCount rest)) rest).map (⟨token, offset⟩ :: ·)
termination_by cs => cs.length

/-- The tokens of a source. -/
def tokenize (source : String) : Except Fault (List Lexeme) := lexemes 0 source.toList

end MetricBoard.Expression
