/-!
# Case and spaces of the ASCII range

Keywords, function names and server names are compared without regard to the case of the
letters `a` to `z`; letters outside ASCII have no case here. The spaces between the tokens of
an expression are the five ASCII ones as well. `Text.Blank` has the wider set that trimming
uses.
-/

namespace MetricBoard.Text

/-- The text with `a` to `z` written as capitals. -/
def upper (s : String) : String := s.map Char.toUpper

/-- The text with `A` to `Z` written small. -/
def lower (s : String) : String := s.map Char.toLower

theorem upper_eq {s t : String} (h : s.toList.map Char.toUpper = t.toList) : upper s = t :=
  String.toList_inj.1 (String.toList_map.trans h)

theorem upper_eq_ofList (s : String) : upper s = String.ofList (s.toList.map Char.toUpper) :=
  upper_eq String.toList_ofList.symm

theorem lower_eq {s t : String} (h : s.toList.map Char.toLower = t.toList) : lower s = t :=
  String.toList_inj.1 (String.toList_map.trans h)

/-- Two texts that differ at most in the case of ASCII letters. -/
def sameWord (a b : String) : Bool := lower a == lower b

/-- Space, tab, line feed, form feed and carriage return. -/
def isSpace (c : Char) : Bool :=
  c == ' ' || c == '\t' || c == '\n' || c == '\x0c' || c == '\r'

/-- A character that may start a bare word. -/
def isWordStart (c : Char) : Bool := c.isAlpha || c == '_'

/-- A character that may continue a bare word. -/
def isWordPart (c : Char) : Bool := c.isAlphanum || c == '_'

/-- The value of a hexadecimal digit. -/
def hexDigit? (c : Char) : Option Nat :=
  if c.isDigit then some (c.toNat - '0'.toNat)
  else if 'a' ≤ c ∧ c ≤ 'f' then some (c.toNat - 'a'.toNat + 10)
  else if 'A' ≤ c ∧ c ≤ 'F' then some (c.toNat - 'A'.toNat + 10)
  else none

/-- The characters of a kind that a text begins with end where one of another kind follows. -/
theorem takeWhile_append_eq {p : Char → Bool} {cs rest : List Char} (h : ∀ c ∈ cs, p c = true)
    (hn : ∀ c ∈ rest.head?, p c = false) : (cs ++ rest).takeWhile p = cs := by
  rw [List.takeWhile_append_of_pos h]
  cases rest with
  | nil => simp
  | cons c rest => simp [hn c rfl]

theorem dropWhile_append_eq {p : Char → Bool} {cs rest : List Char} (h : ∀ c ∈ cs, p c = true)
    (hn : ∀ c ∈ rest.head?, p c = false) : (cs ++ rest).dropWhile p = rest := by
  rw [List.dropWhile_append_of_pos h]
  cases rest with
  | nil => rfl
  | cons c rest => simp [hn c rfl]

/-- The number of bytes of a text in UTF-8. -/
def byteCount : List Char → Nat
  | [] => 0
  | c :: cs => c.utf8Size + byteCount cs

@[simp] theorem byteCount_nil : byteCount [] = 0 := rfl

@[simp] theorem byteCount_cons (c : Char) (cs : List Char) :
    byteCount (c :: cs) = c.utf8Size + byteCount cs := rfl

@[simp] theorem byteCount_append (as bs : List Char) :
    byteCount (as ++ bs) = byteCount as + byteCount bs := by
  induction as with
  | nil => simp
  | cons c as ih => simp [ih, Nat.add_assoc]

/-- What is left of a text after its first `n` bytes, where `n` ends a character. -/
def dropBytes : List Char → Nat → List Char
  | cs, 0 => cs
  | [], _ + 1 => []
  | c :: cs, n + 1 => dropBytes cs (n + 1 - c.utf8Size)

@[simp] theorem dropBytes_zero (cs : List Char) : dropBytes cs 0 = cs := by
  cases cs <;> rfl

theorem dropBytes_append (as bs : List Char) : dropBytes (as ++ bs) (byteCount as) = bs := by
  induction as with
  | nil => simp
  | cons c as ih =>
    have hc := c.utf8Size_pos
    obtain ⟨k, hk⟩ : ∃ k, byteCount (c :: as) = k + 1 := ⟨byteCount (c :: as) - 1, by simp; omega⟩
    rw [hk, List.cons_append, dropBytes, show k + 1 - c.utf8Size = byteCount as by
      rw [← hk, byteCount_cons]; omega, ih]

end MetricBoard.Text
