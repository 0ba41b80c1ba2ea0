import MetricBoard.Json.Value

/-!
# Reading JSON

`Json.parse?` reads a whole text as RFC 8259 has it: no comments, no trailing commas, no leading
zeros, and no control characters inside a text. Readers take characters from the front and give
the rest with the proof that it is shorter, on which the recursion through arrays and objects
rests.
-/

namespace MetricBoard.Json

/-- What was read, and the characters after it: fewer than `bound`. -/
structure Taken (α : Type) (bound : Nat) where
  value : α
  rest : List Char
  shorter : rest.length < bound

/-- A space between the parts of a value. -/
def isGap (c : Char) : Bool := c == ' ' || c == '\n' || c == '\t' || c == '\r'

/-- The text without the spaces at its front. -/
def skipGaps : List Char → List Char
  | [] => []
  | c :: cs => if isGap c then skipGaps cs else c :: cs

theorem length_skipGaps_le (cs : List Char) : (skipGaps cs).length ≤ cs.length := by
  induction cs with
  | nil => simp [skipGaps]
  | cons c cs ih =>
    rw [skipGaps]
    split
    · simp only [List.length_cons]; omega
    · exact Nat.le_refl _

/-! ## Texts -/

/-- The value of four hexadecimal digits. -/
def hexWord? (a b c d : Char) : Option Nat := do
  return (((← Text.hexDigit? a) * 16 + (← Text.hexDigit? b)) * 16 + (← Text.hexDigit? c)) * 16 +
    (← Text.hexDigit? d)

/-- The character that a letter behind a backslash stands for. -/
def escaped? : Char → Option Char
  | '"' => some '"'
  | '\\' => some '\\'
  | '/' => some '/'
  | 'b' => some '\x08'
  | 'f' => some '\x0c'
  | 'n' => some '\n'
  | 'r' => some '\r'
  | 't' => some '\t'
  | _ => none

/-- The units of a text behind its opening quote, with 16-bit units for escapes by number, and
what follows the closing quote. -/
def units? : List Char → Option (List (Char ⊕ Nat) × List Char)
  | [] => none
  | '"' :: cs => some ([], cs)
  | '\\' :: 'u' :: a :: b :: c :: d :: cs => do
    let word ← hexWord? a b c d
    let r ← units? cs
    return (.inr word :: r.1, r.2)
  | '\\' :: e :: cs => do
    let c ← escaped? e
    let r ← units? cs
    return (.inl c :: r.1, r.2)
  | c :: cs =>
    if c.toNat < 0x20 then none
    else do
      let r ← units? cs
      return (.inl c :: r.1, r.2)

/-- The characters of some units; none if half a surrogate pair stands alone. -/
def joinUnits? : List (Char ⊕ Nat) → Option (List Char)
  | [] => some []
  | .inl c :: us => (joinUnits? us).map (c :: ·)
  | .inr high :: .inr low :: us =>
    if 0xd800 ≤ high ∧ high < 0xdc00 then
      if 0xdc00 ≤ low ∧ low < 0xe000 then
        (joinUnits? us).map (Char.ofNat (0x10000 + (high - 0xd800) * 0x400 + (low - 0xdc00)) :: ·)
      else none
    else if 0xdc00 ≤ high ∧ high < 0xe000 then none
    else (joinUnits? (.inr low :: us)).map (Char.ofNat high :: ·)
  | .inr unit :: us =>
    if 0xd800 ≤ unit ∧ unit < 0xe000 then none else (joinUnits? us).map (Char.ofNat unit :: ·)

theorem units?_length {cs rest : List Char} {us : List (Char ⊕ Nat)}
    (h : units? cs = some (us, rest)) : rest.length < cs.length := by
  fun_induction units? cs generalizing us rest with
  | case1 => simp at h
  | case2 => simp_all
  | case3 a b c d cs ih =>
    simp only [bind, Option.bind_eq_some_iff, pure, Option.some.injEq, Prod.mk.injEq] at h
    obtain ⟨_, -, ⟨vs, rest'⟩, hr, -, rfl⟩ := h
    have := ih hr
    simp only [List.length_cons]
    omega
  | case4 e cs _ ih =>
    simp only [bind, Option.bind_eq_some_iff, pure, Option.some.injEq, Prod.mk.injEq] at h
    obtain ⟨_, -, ⟨vs, rest'⟩, hr, -, rfl⟩ := h
    have := ih hr
    simp only [List.length_cons]
    omega
  | case5 => simp at h
  | case6 c cs _ _ _ _ ih =>
    simp only [bind, Option.bind_eq_some_iff, pure, Option.some.injEq, Prod.mk.injEq] at h
    obtain ⟨⟨vs, rest'⟩, hr, -, rfl⟩ := h
    have := ih hr
    simp only [List.length_cons]
    omega

/-- Reads a text behind its opening quote. -/
def readText (cs : List Char) : Option (Taken (Option String) cs.length) :=
  match h : units? cs with
  | some (us, rest) => some ⟨(joinUnits? us).map String.ofList, rest, units?_length h⟩
  | none => none

/-! ## Numbers -/

/-- The digits of a whole part: a zero alone, or digits that start with another. -/
def wholeDigits : List Char → List Char
  | '0' :: _ => ['0']
  | cs => cs.takeWhile Char.isDigit

/-- Reads an exponent behind `e` or `E`, if there is one. -/
def readExponent (cs : List Char) : Option (Option (Bool × List Char) × List Char) :=
  match cs with
  | e :: rest =>
    if e = 'e' ∨ e = 'E' then
      let (down, ds) := match rest with
        | '-' :: ds => (true, ds)
        | '+' :: ds => (false, ds)
        | ds => (false, ds)
      let digits := ds.takeWhile Char.isDigit
      if digits = [] then none else some (some (down, digits), ds.drop digits.length)
    else some (none, cs)
  | [] => some (none, [])

/-- Reads a number behind its sign: the numeral, and what follows it. -/
def readUnsigned (negative : Bool) (cs : List Char) : Option (Numeral × List Char) :=
  let whole := wholeDigits cs
  let rest := cs.drop whole.length
  let startsDigit : Bool := match rest with
    | c :: _ => c.isDigit
    | [] => false
  if whole = [] ∨ startsDigit then none
  else
    match rest with
    | '.' :: us =>
      let fraction := us.takeWhile Char.isDigit
      if fraction = [] then none
      else (readExponent (us.drop fraction.length)).map fun r =>
        (⟨negative, whole, fraction, r.1⟩, r.2)
    | us => (readExponent us).map fun r => (⟨negative, whole, [], r.1⟩, r.2)

/-- Reads a number: the numeral, and how many characters it took. -/
def readNumeral (cs : List Char) : Option (Numeral × Nat) :=
  let read := match cs with
    | '-' :: ds => readUnsigned true ds
    | ds => readUnsigned false ds
  read.map fun r => (r.1, cs.length - r.2.length)

/-! ## Values -/

mutual

/-- Reads a value. -/
def readValue (cs : List Char) : Option (Taken Json cs.length) :=
  match h : skipGaps cs with
  | [] => none
  | 'n' :: 'u' :: 'l' :: 'l' :: rest => some ⟨.null, rest, by
      have := length_skipGaps_le cs; rw [h] at this; simp only [List.length_cons] at this; omega⟩
  | 't' :: 'r' :: 'u' :: 'e' :: rest => some ⟨.bool true, rest, by
      have := length_skipGaps_le cs; rw [h] at this; simp only [List.length_cons] at this; omega⟩
  | 'f' :: 'a' :: 'l' :: 's' :: 'e' :: rest => some ⟨.bool false, rest, by
      have := length_skipGaps_le cs; rw [h] at this; simp only [List.length_cons] at this; omega⟩
  | '"' :: us =>
    have hu : us.length < cs.length := by
      have := length_skipGaps_le cs; rw [h] at this; simp only [List.length_cons] at this; omega
    (readText us).map fun t => ⟨.string t.value, t.rest, by have := t.shorter; omega⟩
  | '[' :: us =>
    have hu : us.length < cs.length := by
      have := length_skipGaps_le cs; rw [h] at this; simp only [List.length_cons] at this; omega
    if (skipGaps us).head? = some ']' then
      some ⟨.array [], (skipGaps us).tail, by
        have := length_skipGaps_le us; simp only [List.length_tail]; omega⟩
    else do
      let ⟨items, rest, hr⟩ ← readItems us
      return ⟨.array items, rest, by omega⟩
  | '\x7b' :: us =>
    have hu : us.length < cs.length := by
      have := length_skipGaps_le cs; rw [h] at this; simp only [List.length_cons] at this; omega
    if (skipGaps us).head? = some '\x7d' then
      some ⟨.object [], (skipGaps us).tail, by
        have := length_skipGaps_le us; simp only [List.length_tail]; omega⟩
    else do
      let ⟨members, rest, hr⟩ ← readMembers us
      return ⟨.object members, rest, by omega⟩
  | c :: us =>
    match readNumeral (c :: us) with
    | some (n, k) => some ⟨.number n, us.drop (k - 1), by
        have := length_skipGaps_le cs
        rw [h] at this
        simp only [List.length_cons] at this
        simp only [List.length_drop]
        omega⟩
    | none => none
termination_by (cs.length, 0)
decreasing_by
  · exact Prod.Lex.left _ _ hu
  · exact Prod.Lex.left _ _ hu

/-- Reads the items of an array, at least one, and its closing bracket. -/
def readItems (cs : List Char) : Option (Taken (List Json) cs.length) := do
  let ⟨v, us, h⟩ ← readValue cs
  match h' : skipGaps us with
  | ',' :: vs =>
    have hv : vs.length < cs.length := by
      have := length_skipGaps_le us; rw [h'] at this; simp only [List.length_cons] at this; omega
    let ⟨items, rest, hr⟩ ← readItems vs
    return ⟨v :: items, rest, by omega⟩
  | ']' :: vs => return ⟨[v], vs, by
      have := length_skipGaps_le us; rw [h'] at this; simp only [List.length_cons] at this; omega⟩
  | _ => none
termination_by (cs.length, 1)
decreasing_by
  · exact Prod.Lex.right _ (by omega)
  · exact Prod.Lex.left _ _ hv

/-- Reads the members of an object, at least one, and its closing brace. -/
def readMembers (cs : List Char) : Option (Taken (List (Option String × Json)) cs.length) :=
  match h : skipGaps cs with
  | '"' :: us =>
    have hu : us.length < cs.length := by
      have := length_skipGaps_le cs; rw [h] at this; simp only [List.length_cons] at this; omega
    do
    let ⟨key, vs, hk⟩ ← readText us
    match h' : skipGaps vs with
    | ':' :: ws =>
      have hw : ws.length < cs.length := by
        have := length_skipGaps_le vs; rw [h'] at this; simp only [List.length_cons] at this; omega
      let ⟨v, xs, hv⟩ ← readValue ws
      match h'' : skipGaps xs with
      | ',' :: ys =>
        have hy : ys.length < cs.length := by
          have := length_skipGaps_le xs
          rw [h''] at this
          simp only [List.length_cons] at this
          omega
        let ⟨members, rest, hr⟩ ← readMembers ys
        return ⟨(key, v) :: members, rest, by omega⟩
      | '\x7d' :: ys => return ⟨[(key, v)], ys, by
          have := length_skipGaps_le xs
          rw [h''] at this
          simp only [List.length_cons] at this
          omega⟩
      | _ => none
    | _ => none
  | _ => none
termination_by (cs.length, 1)
decreasing_by
  · exact Prod.Lex.left _ _ hw
  · exact Prod.Lex.left _ _ hy

end

/-- The value that a whole text writes. -/
def parse? (s : String) : Option Json := do
  let ⟨v, rest, _⟩ ← readValue s.toList
  if skipGaps rest = [] then return v else none

end MetricBoard.Json
