import MetricBoard.Proofs.Expression.Splitting
import MetricBoard.Text.Utf8

/-!
# Reading a source by its bytes

A source in UTF-8 can be gone through with an index of its bytes. `ByteCursor.lexemes` looks at one
byte or at two, and turns to the characters only inside of delimiters, where it takes the source from
a byte on. There is no such text from the middle of a character; but the reader never asks for one,
and it finds what `tokenize` finds (`tokenize_eq`).
-/

namespace MetricBoard.Expression

open Text

namespace ByteCursor

/-! ## The reader -/

/-- The bytes of a text in UTF-8. -/
def utf8 (cs : List Char) : List UInt8 := cs.flatMap String.utf8EncodeChar

/-- The character that has the number of a byte. -/
def latin (b : UInt8) : Char := Char.ofNat b.toNat

/-- A text from a byte on. There is none from the middle of a character or from behind the end. -/
def slice? : List Char → Nat → Option (List Char)
  | cs, 0 => some cs
  | [], _ + 1 => none
  | c :: cs, n + 1 => if c.utf8Size ≤ n + 1 then slice? cs (n + 1 - c.utf8Size) else none

/-- How many bytes of a number follow its first digits: a point and more digits, or nothing. -/
def fraction : List UInt8 → List UInt8
  | point :: b :: bs =>
    if latin point = '.' ∧ (latin b).isDigit then
      point :: b :: bs.takeWhile fun b => (latin b).isDigit
    else []
  | _ => []

/-- The token whose first byte is `b` at an index, with the number of its bytes that follow. There
is no answer where the source is taken from the middle of a character. -/
def read (source : List Char) (index : Nat) (b : UInt8) (bs : List UInt8) :
    Option (Except Reason (Token × Nat)) :=
  let delimitedBy (reader : List Char → Option (List Char × List Char)) (make : String → Token) :=
    (slice? source (index + 1)).map fun cs =>
      match reader cs with
      | some (content, rest) =>
        Except.ok (make (String.ofList content), byteCount cs - byteCount rest)
      | none => .error .unterminated
  let follows (c : Char) : Bool := (bs.head?.map latin) = some c
  match latin b with
  | '(' => some (.ok (.lparen, 0))
  | ')' => some (.ok (.rparen, 0))
  | ',' => some (.ok (.comma, 0))
  | '.' => some (.ok (.dot, 0))
  | '*' => some (.ok (.star, 0))
  | '+' => some (.ok (.plus, 0))
  | '%' => some (.ok (.percent, 0))
  | '=' => some (.ok (.eq, 0))
  | '-' => some (if follows '-' then .error .comment else .ok (.minus, 0))
  | '/' => some (if follows '*' then .error .comment else .ok (.slash, 0))
  | '<' =>
    some (if follows '=' then .ok (.le, 1) else if follows '>' then .ok (.ne, 1) else .ok (.lt, 0))
  | '>' => some (if follows '=' then .ok (.ge, 1) else .ok (.gt, 0))
  | '!' => some (if follows '=' then .ok (.ne, 1) else .error .strayCharacter)
  | '\'' => delimitedBy (Token.readDelimited '\'') .text
  | '"' => delimitedBy (Token.readDelimited '"') .quoted
  | '[' => delimitedBy (Token.readDelimited ']') .quoted
  | '#' => delimitedBy (Token.readUpTo '#') .date
  | ';' => some (.error .separator)
  | '@' => some (.error .serverVariable)
  | c =>
    let whole := bs.takeWhile fun b => (latin b).isDigit
    let digits := whole ++ fraction (bs.dropWhile fun b => (latin b).isDigit)
    let letters := bs.takeWhile fun b => isWordPart (latin b)
    some (if c.isDigit then .ok (.number (ofUtf8Lossy (b :: digits)), digits.length)
      else if isWordStart c then .ok (.word (ofUtf8Lossy (b :: letters)), letters.length)
      else .error .strayCharacter)

theorem lt_length_of_drop_eq_cons {α : Type} {xs ys : List α} {x : α} {n : Nat}
    (h : xs.drop n = x :: ys) : n < xs.length := by
  have := congrArg List.length h
  simp only [List.length_drop, List.length_cons] at this
  omega

/-- The tokens of a source from an index on. -/
def lexemes (source : List Char) (index : Nat) : Option (Except Fault (List Lexeme)) :=
  match h : (utf8 source).drop index with
  | [] => some (.ok [])
  | b :: bs =>
    have : index < (utf8 source).length := lt_length_of_drop_eq_cons h
    if isSpace (latin b) then lexemes source (index + 1)
    else
      match read source index b bs with
      | none => none
      | some (.error reason) => some (.error ⟨.byte index, reason⟩)
      | some (.ok (token, more)) =>
        (lexemes source (index + 1 + more)).map fun r => r.map (⟨token, index⟩ :: ·)
termination_by (utf8 source).length - index

/-- The tokens of a source, read by its bytes. -/
def tokenize (source : String) : Option (Except Fault (List Lexeme)) := lexemes source.toList 0

/-! ## Bytes of a text -/

@[simp] theorem utf8_nil : utf8 [] = [] := rfl

@[simp] theorem utf8_cons (c : Char) (cs : List Char) :
    utf8 (c :: cs) = String.utf8EncodeChar c ++ utf8 cs := rfl

@[simp] theorem utf8_append (as bs : List Char) : utf8 (as ++ bs) = utf8 as ++ utf8 bs :=
  List.flatMap_append

theorem length_utf8 (cs : List Char) : (utf8 cs).length = byteCount cs := by
  induction cs with
  | nil => rfl
  | cons c cs ih => simp [ih]

/-- A text from the end of its first part on. -/
theorem slice?_append (front rest : List Char) :
    slice? (front ++ rest) (byteCount front) = some rest := by
  induction front with
  | nil => cases rest <;> rfl
  | cons c front ih =>
    have hc := c.utf8Size_pos
    obtain ⟨k, hk⟩ : ∃ k, byteCount (c :: front) = k + 1 :=
      ⟨byteCount (c :: front) - 1, by rw [byteCount_cons]; omega⟩
    rw [byteCount_cons] at hk
    rw [byteCount_cons, hk, List.cons_append, slice?, if_pos (by omega),
      show k + 1 - c.utf8Size = byteCount front by omega, ih]

/-! ## The first byte of a character -/

/-- A character of one byte. -/
def IsAscii (c : Char) : Prop := c.toNat < 128

instance (c : Char) : Decidable (IsAscii c) := inferInstanceAs (Decidable (c.toNat < 128))

theorem latin_toNat (b : UInt8) : (latin b).toNat = b.toNat := by
  have hb := b.toNat_lt
  have hv : b.toNat.isValidChar := Or.inl (by omega)
  rw [latin, Char.ofNat, dif_pos hv]
  exact UInt32.toNat_ofNatLT

theorem encode_of_isAscii {c : Char} (h : IsAscii c) :
    ∃ b, String.utf8EncodeChar c = [b] ∧ latin b = c := by
  have hle : c.val ≤ 127 := UInt32.le_iff_toNat_le.2 (Nat.le_of_lt_succ h)
  refine ⟨_, String.utf8EncodeChar_eq_singleton (Char.utf8Size_eq_one_iff.2 hle), ?_⟩
  have hn : c.val.toNat < 128 := h
  rw [latin, UInt32.toNat_toUInt8, Nat.mod_eq_of_lt (by omega)]
  exact Char.ofNat_toNat c

theorem encode_of_not_isAscii {c : Char} (h : ¬IsAscii c) :
    ∃ b bs, String.utf8EncodeChar c = b :: bs ∧ ¬IsAscii (latin b) := by
  have hlt : ¬c.val.toNat ≤ 127 := fun hle => h (Nat.lt_succ_of_le hle)
  unfold String.utf8EncodeChar IsAscii
  dsimp only
  rw [if_neg hlt]
  split
  · refine ⟨_, _, rfl, ?_⟩
    rw [latin_toNat, UInt8.toNat_ofNat']
    omega
  · split
    · refine ⟨_, _, rfl, ?_⟩
      rw [latin_toNat, UInt8.toNat_ofNat']
      omega
    · refine ⟨_, _, rfl, ?_⟩
      rw [latin_toNat, UInt8.toNat_ofNat']
      omega

/-- A kind of characters of one byte. -/
def IsAsciiKind (p : Char → Bool) : Prop := ∀ c, p c = true → IsAscii c

theorem isAsciiKind_isDigit : IsAsciiKind Char.isDigit := by
  intro c h
  simp only [Char.isDigit, Bool.and_eq_true, decide_eq_true_eq, ge_iff_le,
    UInt32.le_iff_toNat_le] at h
  exact Nat.lt_of_le_of_lt h.2 (by decide)

theorem isAsciiKind_isWordPart : IsAsciiKind isWordPart := by
  intro c h
  change ((decide (65 ≤ c.toNat ∧ c.toNat ≤ 90) || decide (97 ≤ c.toNat) &&
    decide (c.toNat ≤ 122) || decide (48 ≤ c.toNat) && decide (c.toNat ≤ 57)) ||
      c == '_') = true at h
  simp only [Bool.or_eq_true, Bool.and_eq_true, decide_eq_true_eq, beq_iff_eq] at h
  rcases h with ((h | h) | h) | rfl
  · exact Nat.lt_of_le_of_lt h.2 (by decide)
  · exact Nat.lt_of_le_of_lt h.2 (by decide)
  · exact Nat.lt_of_le_of_lt h.2 (by decide)
  · decide

theorem isAsciiKind_isWordStart : IsAsciiKind isWordStart := by
  intro c h
  refine isAsciiKind_isWordPart c ?_
  simp only [isWordStart, isWordPart, Char.isAlphanum, Bool.or_eq_true] at h ⊢
  exact h.imp_left .inl

theorem isAsciiKind_isSpace : IsAsciiKind isSpace := by
  intro c h
  simp only [isSpace, Bool.or_eq_true, beq_iff_eq] at h
  rcases h with (((rfl | rfl) | rfl) | rfl) | rfl <;> decide

theorem isAscii_of_mem_marks {c : Char} (h : c ∈ Token.marks) : IsAscii c := by
  have hall : Token.marks.all (fun c => decide (IsAscii c)) = true := by decide
  exact of_decide_eq_true (List.all_eq_true.1 hall c h)

section Kind

variable {p : Char → Bool} (hp : IsAsciiKind p)
include hp

theorem takeWhile_utf8 (cs : List Char) :
    (utf8 cs).takeWhile (fun b => p (latin b)) = utf8 (cs.takeWhile p) := by
  induction cs with
  | nil => rfl
  | cons c cs ih =>
    by_cases hc : IsAscii c
    · obtain ⟨b, hb, rfl⟩ := encode_of_isAscii hc
      simp only [utf8_cons, hb, List.cons_append, List.nil_append, List.takeWhile_cons]
      split
      · rw [ih, utf8_cons, hb]
        rfl
      · rfl
    · obtain ⟨b, bs, hb, hn⟩ := encode_of_not_isAscii hc
      have hpb : p (latin b) = false := by simpa using mt (hp (latin b)) hn
      have hpc : p c = false := by simpa using mt (hp c) hc
      simp [hb, hpb, hpc]

theorem dropWhile_utf8 (cs : List Char) :
    (utf8 cs).dropWhile (fun b => p (latin b)) = utf8 (cs.dropWhile p) := by
  have h : utf8 (cs.takeWhile p) ++ utf8 (cs.dropWhile p) = utf8 cs := by
    rw [← utf8_append, List.takeWhile_append_dropWhile]
  have h' := List.takeWhile_append_dropWhile (p := fun b => p (latin b)) (l := utf8 cs)
  rw [takeWhile_utf8 hp] at h'
  exact List.append_cancel_left (h'.trans h.symm)

end Kind

/-- The first byte of a text stands for a character of one byte just where this comes first. -/
theorem head?_utf8_eq_iff {c : Char} (hc : IsAscii c) (cs : List Char) :
    (utf8 cs).head?.map latin = some c ↔ cs.head? = some c := by
  cases cs with
  | nil => rfl
  | cons d cs =>
    by_cases hd : IsAscii d
    · obtain ⟨b, hb, rfl⟩ := encode_of_isAscii hd
      simp [hb]
    · obtain ⟨b, bs, hb, hn⟩ := encode_of_not_isAscii hd
      have hbc : latin b ≠ c := fun h => hn (h ▸ hc)
      have hdc : d ≠ c := fun h => hd (h ▸ hc)
      simp [hb, hbc, hdc]

theorem ofUtf8Lossy_utf8 {cs : List Char} (h : ∀ c ∈ cs, IsAscii c) :
    ofUtf8Lossy (utf8 cs) = String.ofList cs := by
  suffices hd : decodeUtf8 (utf8 cs) = cs.map some by
    rw [ofUtf8Lossy, hd, List.map_map]
    exact congrArg String.ofList (List.map_id cs)
  induction cs with
  | nil => rfl
  | cons c cs ih =>
    obtain ⟨hc, hcs⟩ := List.forall_mem_cons.1 h
    obtain ⟨b, hb, rfl⟩ := encode_of_isAscii hc
    have hlt : b < 0x80 := by
      rw [IsAscii, latin_toNat] at hc
      exact UInt8.lt_iff_toNat_lt.2 hc
    rw [utf8_cons, hb, List.singleton_append, decodeUtf8.eq_def]
    dsimp only
    rw [if_pos hlt, ih hcs]
    rfl

theorem fraction_eq_nil {b : UInt8} (h : latin b ≠ '.') (bs : List UInt8) :
    fraction (b :: bs) = [] := by
  cases bs with
  | nil => rfl
  | cons => simp [fraction, h]

theorem fraction_utf8 (cs : List Char) : fraction (utf8 cs) = utf8 (Token.readFraction cs).1 := by
  obtain ⟨p, hp, hpoint⟩ := encode_of_isAscii (c := '.') (by decide)
  fun_cases Token.readFraction cs with
  | case1 d cs hd =>
    obtain ⟨b, hb, rfl⟩ := encode_of_isAscii (isAsciiKind_isDigit d hd)
    simp [hp, hb, fraction, hpoint, hd, takeWhile_utf8 isAsciiKind_isDigit]
  | case2 d cs hd =>
    by_cases ha : IsAscii d
    · obtain ⟨b, hb, rfl⟩ := encode_of_isAscii ha
      simp [hp, hb, fraction, hd]
    · obtain ⟨b, bs, hb, hn⟩ := encode_of_not_isAscii ha
      have hnd := mt (isAsciiKind_isDigit (latin b)) hn
      simp [hp, hb, fraction, hnd]
  | case3 _ hcs =>
    cases cs with
    | nil => rfl
    | cons c cs =>
      by_cases hc : c = '.'
      · subst hc
        cases cs with
        | nil => simp [hp, fraction]
        | cons d cs => exact absurd rfl (hcs d cs)
      · by_cases ha : IsAscii c
        · obtain ⟨b, hb, rfl⟩ := encode_of_isAscii ha
          rw [utf8_cons, hb]
          exact fraction_eq_nil hc _
        · obtain ⟨b, bs, hb, hn⟩ := encode_of_not_isAscii ha
          rw [utf8_cons, hb]
          exact fraction_eq_nil (fun h => hn (h ▸ by decide)) _

/-! ## One token -/

theorem read_of_not_mark {b : UInt8} (h : latin b ∉ Token.marks) (source : List Char) (index : Nat)
    (bs : List UInt8) :
    read source index b bs = some (
      let whole := bs.takeWhile fun b => (latin b).isDigit
      let digits := whole ++ fraction (bs.dropWhile fun b => (latin b).isDigit)
      let letters := bs.takeWhile fun b => isWordPart (latin b)
      if (latin b).isDigit then .ok (.number (ofUtf8Lossy (b :: digits)), digits.length)
      else if isWordStart (latin b) then .ok (.word (ofUtf8Lossy (b :: letters)), letters.length)
      else .error .strayCharacter) := by
  unfold read
  dsimp only
  split
  all_goals first | rfl | exact absurd (by simp_all [Token.marks]) h

/-- What a reader of characters leaves, as the bytes behind the first that it takes. -/
def spanOf (c : Char) (cs : List Char) (r : Except Reason (Token × List Char)) :
    Except Reason (Token × Nat) :=
  r.map fun r => (r.1, byteCount (c :: cs) - byteCount r.2 - 1)

theorem read_stray {front cs : List Char} {c : Char} {b : UInt8} {bs : List UInt8}
    (hc : ¬IsAscii c) (hb : ¬IsAscii (latin b)) :
    read (front ++ c :: cs) (byteCount front) b bs = some (spanOf c cs (Token.read c cs)) := by
  have hd := mt (isAsciiKind_isDigit _) hc
  have hw := mt (isAsciiKind_isWordStart _) hc
  have hd' := mt (isAsciiKind_isDigit _) hb
  have hw' := mt (isAsciiKind_isWordStart _) hb
  rw [read_of_not_mark (mt isAscii_of_mem_marks hb),
    Token.read_of_not_mark (mt isAscii_of_mem_marks hc)]
  simp only [hd, hw, hd', hw']
  rfl

theorem utf8Size_of_isAscii {c : Char} (h : IsAscii c) : c.utf8Size = 1 :=
  Char.utf8Size_eq_one_iff.2 (UInt32.le_iff_toNat_le.2 (Nat.le_of_lt_succ h))

/-- The text behind a character of one byte. -/
theorem slice?_succ {c : Char} (hc : IsAscii c) (front cs : List Char) :
    slice? (front ++ c :: cs) (byteCount front + 1) = some cs := by
  have h := slice?_append (front ++ [c]) cs
  rwa [List.append_assoc, byteCount_append, byteCount_cons, utf8Size_of_isAscii hc] at h

section Span

variable {c : Char} (hc : IsAscii c) {cs : List Char}
include hc

theorem spanOf_ok (t : Token) (rest : List Char) :
    spanOf c cs (.ok (t, rest)) = .ok (t, byteCount cs - byteCount rest) := by
  have hn : byteCount (c :: cs) - byteCount rest - 1 = byteCount cs - byteCount rest := by
    rw [byteCount_cons, utf8Size_of_isAscii hc]
    omega
  rw [← hn]
  rfl

theorem spanOf_self (t : Token) : spanOf c cs (.ok (t, cs)) = .ok (t, 0) := by
  rw [spanOf_ok hc, Nat.sub_self]

theorem spanOf_tail {d : Char} (h : cs.head? = some d) (hd : IsAscii d) (t : Token) :
    spanOf c cs (.ok (t, cs.tail)) = .ok (t, 1) := by
  obtain ⟨us, rfl⟩ := List.head?_eq_some_iff.1 h
  rw [spanOf_ok hc, byteCount_cons, utf8Size_of_isAscii hd, List.tail_cons, Nat.add_sub_cancel]

theorem spanOf_delimited (found : Option (List Char × List Char)) (make : String → Token) :
    (match found with
      | some (content, rest) =>
        Except.ok (make (String.ofList content), byteCount cs - byteCount rest)
      | none => .error .unterminated) =
    spanOf c cs (match found with
      | some (content, rest) => .ok (make (String.ofList content), rest)
      | none => .error .unterminated) := by
  cases found with
  | none => rfl
  | some r => exact (spanOf_ok hc _ _).symm

theorem spanOf_append {taken rest : List Char} (t : Token) (h : cs = taken ++ rest) :
    spanOf c cs (.ok (t, rest)) = .ok (t, (utf8 taken).length) := by
  rw [spanOf_ok hc, h, byteCount_append, Nat.add_sub_cancel, length_utf8]

end Span

theorem read_mark {front cs : List Char} {c : Char} {b : UInt8} (hm : c ∈ Token.marks)
    (hb : latin b = c) : read (front ++ c :: cs) (byteCount front) b (utf8 cs) =
      some (spanOf c cs (Token.read c cs)) := by
  have hc := isAscii_of_mem_marks hm
  have hminus := head?_utf8_eq_iff (c := '-') (by decide) cs
  have hstar := head?_utf8_eq_iff (c := '*') (by decide) cs
  have heq := head?_utf8_eq_iff (c := '=') (by decide) cs
  have hgt := head?_utf8_eq_iff (c := '>') (by decide) cs
  simp only [Token.marks, List.mem_cons, List.not_mem_nil, or_false] at hm
  rcases hm with rfl | rfl | rfl | rfl | rfl | rfl | rfl | rfl | rfl | rfl | rfl | rfl | rfl |
    rfl | rfl | rfl | rfl | rfl | rfl
  all_goals simp only [read, hb, Token.read, decide_eq_true_eq, slice?_succ hc, hminus, hstar, heq,
    hgt, Option.map_some, spanOf_self hc]
  all_goals first
    | rfl
    | exact congrArg some (spanOf_delimited hc _ _)
    | skip
  all_goals repeat' split
  all_goals first
    | rfl
    | exact congrArg some (spanOf_self hc _).symm
    | exact congrArg some (spanOf_tail hc (by assumption) (by decide) _).symm

/-- Bytes of characters of one byte, the first of which is known, are read back. -/
theorem ofUtf8Lossy_cons {b : UInt8} (hb : IsAscii (latin b)) {cs : List Char}
    (h : ∀ c ∈ cs, IsAscii c) : ofUtf8Lossy (b :: utf8 cs) = String.ofList (latin b :: cs) := by
  obtain ⟨b', hb', heq⟩ := encode_of_isAscii hb
  have hinj : b' = b := by
    rw [← UInt8.toNat_inj, ← latin_toNat, ← latin_toNat, heq]
  rw [← ofUtf8Lossy_utf8 (List.forall_mem_cons.2 ⟨hb, h⟩), utf8_cons, hb', hinj]
  rfl

theorem isAscii_of_mem_digits {cs : List Char} :
    ∀ c ∈ cs.takeWhile Char.isDigit ++ (Token.readFraction (cs.dropWhile Char.isDigit)).1,
      IsAscii c := by
  intro c hc
  rcases List.mem_append.1 hc with hc | hc
  · exact isAsciiKind_isDigit c (List.all_eq_true.1 List.all_takeWhile c hc)
  · rcases Token.readFraction_fst (cs.dropWhile Char.isDigit) with h | ⟨d, ds, h, hd, hds⟩
    · rw [h] at hc
      contradiction
    · rw [h, List.mem_cons, List.mem_cons] at hc
      rcases hc with rfl | rfl | hc
      · decide
      · exact isAsciiKind_isDigit _ hd
      · exact isAsciiKind_isDigit _ (hds _ hc)

/-- A number or a word is found, or nothing. -/
theorem read_run {front cs : List Char} {b : UInt8} (hc : IsAscii (latin b))
    (hm : latin b ∉ Token.marks) :
    read (front ++ latin b :: cs) (byteCount front) b (utf8 cs) =
      some (spanOf (latin b) cs (Token.read (latin b) cs)) := by
  have hword : ∀ c ∈ cs.takeWhile isWordPart, IsAscii c :=
    fun c h => isAsciiKind_isWordPart c (List.all_eq_true.1 List.all_takeWhile c h)
  rw [read_of_not_mark hm, Token.read_of_not_mark hm]
  dsimp only
  rw [takeWhile_utf8 isAsciiKind_isDigit, dropWhile_utf8 isAsciiKind_isDigit, fraction_utf8,
    takeWhile_utf8 isAsciiKind_isWordPart, ← utf8_append, ofUtf8Lossy_cons hc isAscii_of_mem_digits,
    ofUtf8Lossy_cons hc hword]
  split
  · refine congrArg some (spanOf_append hc _ ?_).symm
    rw [List.append_assoc, Token.readFraction_fst_append_snd, List.takeWhile_append_dropWhile]
  · split
    · exact congrArg some (spanOf_append hc _ List.takeWhile_append_dropWhile.symm).symm
    · rfl

/-! ## Whole sources -/

/-- The bytes of a text begin with one by which the reader finds what there is at the head of the
text. -/
theorem exists_read (front : List Char) (c : Char) (cs : List Char) :
    ∃ b bs, utf8 (c :: cs) = b :: bs ∧ isSpace (latin b) = isSpace c ∧
      read (front ++ c :: cs) (byteCount front) b bs = some (spanOf c cs (Token.read c cs)) := by
  by_cases hc : IsAscii c
  · obtain ⟨b, hb, rfl⟩ := encode_of_isAscii hc
    refine ⟨b, utf8 cs, by rw [utf8_cons, hb]; rfl, rfl, ?_⟩
    by_cases hm : latin b ∈ Token.marks
    · exact read_mark hm rfl
    · exact read_run hc hm
  · obtain ⟨b, bs, hb, hn⟩ := encode_of_not_isAscii hc
    refine ⟨b, bs ++ utf8 cs, by rw [utf8_cons, hb]; rfl, ?_, read_stray hc hn⟩
    rw [Bool.eq_false_iff.2 (mt (isAsciiKind_isSpace _) hn),
      Bool.eq_false_iff.2 (mt (isAsciiKind_isSpace _) hc)]

theorem drop_utf8 (front rest : List Char) :
    (utf8 (front ++ rest)).drop (byteCount front) = utf8 rest := by
  rw [utf8_append, ← length_utf8, List.drop_left]

theorem lexemes_of_drop_eq_nil {source : List Char} {index : Nat}
    (h : (utf8 source).drop index = []) : lexemes source index = some (.ok []) := by
  rw [lexemes]
  split
  · rfl
  · simp_all

theorem lexemes_of_drop_eq_cons {source : List Char} {index : Nat} {b : UInt8} {bs : List UInt8}
    (h : (utf8 source).drop index = b :: bs) : lexemes source index =
      if isSpace (latin b) then lexemes source (index + 1)
      else
        match read source index b bs with
        | none => none
        | some (.error reason) => some (.error ⟨.byte index, reason⟩)
        | some (.ok (token, more)) =>
          (lexemes source (index + 1 + more)).map fun r => r.map (⟨token, index⟩ :: ·) := by
  rw [lexemes]
  split
  · simp_all
  · rename_i h'
    obtain ⟨rfl, rfl⟩ := List.cons.inj (h.symm.trans h')
    rfl

/-- From the end of a part of a source on, the same is found by bytes as by characters. -/
theorem lexemes_append (front rest : List Char) :
    lexemes (front ++ rest) (byteCount front) =
      some (Expression.lexemes (byteCount front) rest) := by
  generalize hoffset : byteCount front = offset
  fun_induction Expression.lexemes offset rest generalizing front with
  | case1 offset =>
    refine lexemes_of_drop_eq_nil ?_
    rw [← hoffset, drop_utf8]
    rfl
  | case2 offset c cs hsp ih =>
    subst hoffset
    obtain ⟨b, bs, hb, hspace, -⟩ := exists_read front c cs
    rw [lexemes_of_drop_eq_cons ((drop_utf8 front _).trans hb), if_pos (hspace.trans hsp)]
    have h := ih (front ++ [c])
    rw [byteCount_append, byteCount_cons,
      utf8Size_of_isAscii (isAsciiKind_isSpace c hsp), List.append_assoc] at h
    exact h rfl
  | case3 offset c cs hsp reason hread =>
    subst hoffset
    obtain ⟨b, bs, hb, hspace, hr⟩ := exists_read front c cs
    rw [lexemes_of_drop_eq_cons ((drop_utf8 front _).trans hb), if_neg (by rwa [hspace]), hr, hread]
    rfl
  | case4 offset c cs hsp t rest hread _ ih =>
    subst hoffset
    obtain ⟨b, bs, hb, hspace, hr⟩ := exists_read front c cs
    rw [lexemes_of_drop_eq_cons ((drop_utf8 front _).trans hb), if_neg (by rwa [hspace]), hr, hread]
    obtain ⟨lex, he, hb⟩ := begins_of_read hread
    have hpos := hb.spells.byteCount_pos
    have hmore : byteCount front + 1 + (byteCount (c :: cs) - byteCount rest - 1) =
        byteCount (front ++ lex) := by
      rw [← he, byteCount_append_sub, byteCount_append]
      omega
    have hnext : byteCount (front ++ lex) =
        byteCount front + (byteCount (c :: cs) - byteCount rest) := by
      rw [← he, byteCount_append_sub, byteCount_append]
    have hrest := ih (front ++ lex) hnext
    rw [← hnext, List.append_assoc, he] at hrest
    rw [← hnext]
    simp only [spanOf, Except.map]
    rw [hmore, hrest]
    rfl

/-- **Reading by bytes never stops inside a character**, and it finds what there is. -/
theorem tokenize_eq (source : String) :
    tokenize source = some (Expression.tokenize source) :=
  lexemes_append [] source.toList

end ByteCursor

/-! ## What the tokens of a source are -/

theorem tokenize_eq_ok_iff {source : String} {ls : List Lexeme} :
    tokenize source = .ok ls ↔ Splits 0 source.toList ls [] :=
  lexemes_eq_ok_iff

/-- Where the lexeme of a token stands in its source, and that it is a lexeme of no other token. -/
theorem exists_lexeme_of_tokenize {source : String} {ls : List Lexeme}
    (h : tokenize source = .ok ls) {l : Lexeme} (hl : l ∈ ls) :
    ∃ front lex rest, source.toList = front ++ (lex ++ rest) ∧ l.offset = byteCount front ∧
      ∀ t, Token.Spells t lex ↔ t = l.token := by
  obtain ⟨front, lex, rest, he, ho, hb⟩ := (tokenize_eq_ok_iff.1 h).exists_begins hl
  refine ⟨front, lex, rest, he, by rw [ho, Nat.zero_add], fun t => ⟨fun ht => ?_, ?_⟩⟩
  · exact ht.unique hb.spells
  · rintro rfl
    exact hb.spells

theorem exists_offends_of_tokenize {source : String} {f : Fault} (h : tokenize source = .error f) :
    ∃ front rest ls, source.toList = front ++ rest ∧ Splits 0 source.toList ls rest ∧
      f.place = .byte (byteCount front) ∧ Token.Offends f.reason rest := by
  obtain ⟨front, rest, ls, he, hs, hp, ho⟩ := exists_offends_of_lexemes h
  exact ⟨front, rest, ls, he, hs, by rw [hp, Nat.zero_add], ho⟩

/-- **Nothing of a source is lost.** It has tokens exactly if it falls apart into spaces and longest
lexemes, and then the tokens are those of the lexemes, each with the place at which its lexeme
stands; these places increase. Otherwise the source falls apart up to the place of the fault, and
there something offends. A reader that goes by the bytes of the source finds the same, and never
takes the source from the middle of a character. -/
theorem tokenize_lossless (source : String) :
    ByteCursor.tokenize source = some (tokenize source) ∧
    (∀ ls, tokenize source = .ok ls ↔ Splits 0 source.toList ls []) ∧
    (∀ ls, tokenize source = .ok ls → ls.Pairwise (·.offset < ·.offset) ∧
      ∀ l ∈ ls, ∃ front lex rest, source.toList = front ++ (lex ++ rest) ∧
        l.offset = byteCount front ∧ ∀ t, Token.Spells t lex ↔ t = l.token) ∧
    ((∃ f, tokenize source = .error f) ↔ ¬∃ ls, Splits 0 source.toList ls []) ∧
    ∀ f, tokenize source = .error f →
      ∃ front rest ls, source.toList = front ++ rest ∧ Splits 0 source.toList ls rest ∧
        f.place = .byte (byteCount front) ∧ Token.Offends f.reason rest := by
  refine ⟨ByteCursor.tokenize_eq source, fun ls => tokenize_eq_ok_iff, fun ls h =>
    ⟨(tokenize_eq_ok_iff.1 h).increasing.2, fun l hl => exists_lexeme_of_tokenize h hl⟩, ?_,
    fun f => exists_offends_of_tokenize⟩
  simp only [← tokenize_eq_ok_iff]
  cases tokenize source <;> simp

/-- Doubled delimiters are undone, and characters of any length are content. -/
theorem tokenize_lossless_escaped :
    tokenize "[ä]]b]='it''s'" =
      .ok [⟨.quoted "ä]b", 0⟩, ⟨.eq, 7⟩, ⟨.text "it's", 8⟩] ∧
    Splits 0 "[ä]]b]='it''s'".toList
      [⟨.quoted "ä]b", 0⟩, ⟨.eq, 7⟩, ⟨.text "it's", 8⟩] [] ∧
    ∃ front lex rest, "[ä]]b]='it''s'".toList = front ++ (lex ++ rest) ∧ 8 = byteCount front ∧
      ∀ t, Token.Spells t lex ↔ t = .text "it's" := by
  have h : tokenize "[ä]]b]='it''s'" =
      .ok [⟨.quoted "ä]b", 0⟩, ⟨.eq, 7⟩, ⟨.text "it's", 8⟩] :=
    toOption_eq_some_iff.1 (by decide +kernel)
  obtain ⟨-, hsplits, hplaces, -, -⟩ := tokenize_lossless "[ä]]b]='it''s'"
  exact ⟨h, (hsplits _).1 h, (hplaces _ h).2 ⟨.text "it's", 8⟩ (by simp)⟩

end MetricBoard.Expression
