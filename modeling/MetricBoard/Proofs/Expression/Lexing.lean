import MetricBoard.Expression.Dialect
import MetricBoard.Proofs.Expression.Reading
import MetricBoard.Text.Ascii

/-!
# Writing tokens and splitting the text again

`tokenize_text`: pieces whose tokens could have been read from a source and that do not run into
one another (`Separate`) are split into the very tokens again. `isLexical_of_tokenize` is the
other side: what a source is split into could be read from a source.
-/

namespace MetricBoard.Expression

open Text

namespace Token

/-! ## Tokens of a source -/

/-- Digits, with a fraction or without. -/
def IsNumeral (cs : List Char) : Prop :=
  ∃ c whole fraction, cs = c :: (whole ++ fraction) ∧ c.isDigit = true ∧
    (∀ d ∈ whole, d.isDigit = true) ∧
      (fraction = [] ∨
        ∃ d ds, fraction = '.' :: d :: ds ∧ d.isDigit = true ∧ ∀ d ∈ ds, d.isDigit = true)

/-- The tokens that can be read from a source. -/
def IsLexical : Token → Prop
  | word w => ∃ c cs, w.toList = c :: cs ∧ isWordStart c = true ∧ ∀ d ∈ cs, isWordPart d = true
  | number n => IsNumeral n.toList
  | date d => '#' ∉ d.toList
  | _ => True

/-- Whether a token ends before a character, if there is one. -/
def EndsBefore (next : Option Char) : Token → Prop
  | word _ => ∀ c ∈ next, isWordPart c = false
  | quoted _ => next ≠ some ']'
  | text _ => next ≠ some '\''
  | number _ => ∀ c ∈ next, c.isDigit = false ∧ c ≠ '.'
  | minus => next ≠ some '-'
  | slash => next ≠ some '*'
  | lt => next ≠ some '=' ∧ next ≠ some '>'
  | gt => next ≠ some '='
  | _ => True

/-! ## Reading one token -/

/-- The characters that begin a token of their own kind. -/
def marks : List Char :=
  ['(', ')', ',', '.', '*', '+', '%', '=', '-', '/', '<', '>', '!', '\'', '"', '[', '#', ';', '@']

/-- Any other character begins a number or a word. -/
theorem read_of_not_mark {c : Char} (h : c ∉ marks) (cs : List Char) :
    read c cs =
      if c.isDigit then
        .ok (number (String.ofList (c :: cs.takeWhile Char.isDigit ++
          (readFraction (cs.dropWhile Char.isDigit)).1)),
          (readFraction (cs.dropWhile Char.isDigit)).2)
      else if isWordStart c then
        .ok (word (String.ofList (c :: cs.takeWhile isWordPart)), cs.dropWhile isWordPart)
      else .error .strayCharacter := by
  unfold read
  dsimp only
  split
  all_goals first | rfl | exact absurd (by decide) h

theorem not_mark_of_isDigit {c : Char} (h : c.isDigit = true) : c ∉ marks := by
  intro hm
  simp only [marks, List.mem_cons, List.not_mem_nil, or_false] at hm
  rcases hm with rfl | rfl | rfl | rfl | rfl | rfl | rfl | rfl | rfl | rfl | rfl | rfl | rfl | rfl |
    rfl | rfl | rfl | rfl | rfl <;> contradiction

theorem not_mark_of_isWordStart {c : Char} (h : isWordStart c = true) : c ∉ marks := by
  intro hm
  simp only [marks, List.mem_cons, List.not_mem_nil, or_false] at hm
  rcases hm with rfl | rfl | rfl | rfl | rfl | rfl | rfl | rfl | rfl | rfl | rfl | rfl | rfl | rfl |
    rfl | rfl | rfl | rfl | rfl <;> contradiction

theorem readDelimited_escaped (closing : Char) (content : List Char) {rest : List Char}
    (hn : rest.head? ≠ some closing) :
    readDelimited closing
      ((content.flatMap fun c => if c = closing then [c, c] else [c]) ++ closing :: rest) =
        some (content, rest) := by
  induction content with
  | nil =>
    cases rest with
    | nil => simp [readDelimited]
    | cons d ds =>
      have hd : d ≠ closing := by simpa using hn
      simp [readDelimited, hd]
  | cons c content ih =>
    by_cases hc : c = closing
    · subst hc
      simp [readDelimited, ih]
    · rw [List.flatMap_cons, if_neg hc, List.singleton_append, List.cons_append]
      unfold readDelimited
      rw [if_neg hc, ih]
      rfl

theorem readUpTo_append {closing : Char} {content : List Char} (h : closing ∉ content)
    (rest : List Char) : readUpTo closing (content ++ closing :: rest) = some (content, rest) := by
  induction content with
  | nil => simp [readUpTo]
  | cons c content ih =>
    simp only [List.mem_cons, not_or] at h
    simp [readUpTo, Ne.symm h.1, ih h.2]

theorem readFraction_append {fraction rest : List Char}
    (hf : fraction = [] ∨
      ∃ d ds, fraction = '.' :: d :: ds ∧ d.isDigit = true ∧ ∀ d ∈ ds, d.isDigit = true)
    (hn : ∀ c ∈ rest.head?, c.isDigit = false ∧ c ≠ '.') :
    readFraction (fraction ++ rest) = (fraction, rest) := by
  rcases hf with rfl | ⟨d, ds, rfl, hd, hds⟩
  · unfold readFraction
    rw [List.nil_append]
    split
    · exact absurd rfl (hn _ rfl).2
    · rfl
  · have hn' : ∀ c ∈ rest.head?, c.isDigit = false := fun c hc => (hn c hc).1
    simp [readFraction, hd, takeWhile_append_eq hds hn', dropWhile_append_eq hds hn']

theorem not_isSpace_of_isWordStart {c : Char} (h : isWordStart c = true) : isSpace c = false := by
  simp only [isSpace, Bool.or_eq_false_iff, beq_eq_false_iff_ne]
  refine ⟨⟨⟨⟨?_, ?_⟩, ?_⟩, ?_⟩, ?_⟩ <;> rintro rfl <;> contradiction

theorem not_isSpace_of_isDigit {c : Char} (h : c.isDigit = true) : isSpace c = false := by
  simp only [isSpace, Bool.or_eq_false_iff, beq_eq_false_iff_ne]
  refine ⟨⟨⟨⟨?_, ?_⟩, ?_⟩, ?_⟩, ?_⟩ <;> rintro rfl <;> contradiction

theorem not_isDigit_of_isWordStart {c : Char} (h : isWordStart c = true) : c.isDigit = false := by
  change ((decide (c.val ≥ 65 ∧ c.val ≤ 90) ||
    decide (c.val ≥ 97) && decide (c.val ≤ 122)) || c == '_') = true at h
  simp only [Bool.or_eq_true, Bool.and_eq_true, decide_eq_true_eq, beq_iff_eq, ge_iff_le,
    UInt32.le_iff_toNat_le] at h
  simp only [Char.isDigit, Bool.and_eq_false_imp, decide_eq_true_eq, decide_eq_false_iff_not,
    ge_iff_le, UInt32.le_iff_toNat_le]
  intro _
  rcases h with (h | h) | rfl
  · simp at h ⊢; omega
  · simp at h ⊢; omega
  · decide

/-- A token that is written out is read as that token, up to where it ends. -/
theorem read_spelling {t : Token} (h : t.IsLexical) {rest : List Char}
    (hn : t.EndsBefore rest.head?) :
    ∃ c cs, t.spelling ++ rest = c :: cs ∧ isSpace c = false ∧ read c cs = .ok (t, rest) := by
  cases t with
  | word w =>
    obtain ⟨c, cs, hw, hc, hcs⟩ := h
    refine ⟨c, cs ++ rest, by simp [spelling, hw], not_isSpace_of_isWordStart hc, ?_⟩
    rw [read_of_not_mark (not_mark_of_isWordStart hc), not_isDigit_of_isWordStart hc,
      if_neg (by simp), if_pos hc, takeWhile_append_eq hcs hn, dropWhile_append_eq hcs hn, ← hw,
      String.ofList_toList]
  | number n =>
    obtain ⟨c, whole, fraction, hw, hc, hwhole, hf⟩ := h
    refine ⟨c, whole ++ fraction ++ rest, by simp [spelling, hw], not_isSpace_of_isDigit hc, ?_⟩
    have hh : ∀ d ∈ (fraction ++ rest).head?, d.isDigit = false := by
      rcases hf with rfl | ⟨d, ds, rfl, -, -⟩
      · exact fun d hd => (hn d hd).1
      · simp
    rw [read_of_not_mark (not_mark_of_isDigit hc), if_pos hc, List.append_assoc,
      takeWhile_append_eq hwhole hh, dropWhile_append_eq hwhole hh, readFraction_append hf hn,
      List.cons_append, ← hw, String.ofList_toList]
  | quoted name =>
    refine ⟨'[', _, by simp [spelling, delimited]; rfl, by decide, ?_⟩
    unfold read
    simp [readDelimited_escaped ']' name.toList hn]
  | text s =>
    refine ⟨'\'', _, by simp [spelling, delimited]; rfl, by decide, ?_⟩
    unfold read
    simp [readDelimited_escaped '\'' s.toList hn]
  | date d =>
    refine ⟨'#', _, by simp [spelling]; rfl, by decide, ?_⟩
    unfold read
    simp [readUpTo_append h rest]
  | minus | slash | lt | gt =>
    refine ⟨_, _, rfl, by decide, ?_⟩
    unfold read
    simp_all [EndsBefore]
  | _ => exact ⟨_, _, rfl, by decide, rfl⟩

theorem not_mem_of_readUpTo {closing : Char} {cs content rest : List Char}
    (h : readUpTo closing cs = some (content, rest)) : closing ∉ content := by
  induction cs generalizing content rest with
  | nil => simp [readUpTo] at h
  | cons c cs ih =>
    rw [readUpTo] at h
    split at h
    · obtain ⟨rfl, -⟩ := Prod.mk.inj (Option.some.inj h)
      simp
    · rename_i hc
      obtain ⟨⟨content', rest'⟩, hr, heq⟩ := Option.map_eq_some_iff.1 h
      obtain ⟨rfl, -⟩ := Prod.mk.inj heq
      simp only [List.mem_cons, not_or]
      exact ⟨Ne.symm hc, ih hr⟩

theorem readFraction_fst (cs : List Char) :
    (readFraction cs).1 = [] ∨ ∃ d ds, (readFraction cs).1 = '.' :: d :: ds ∧ d.isDigit = true ∧
      ∀ d ∈ ds, d.isDigit = true := by
  fun_cases readFraction cs with
  | case1 d cs hd =>
    exact .inr ⟨d, _, rfl, hd, List.all_eq_true.1 List.all_takeWhile⟩
  | case2 => exact .inl rfl
  | case3 => exact .inl rfl

theorem readFraction_fst_append_snd (cs : List Char) :
    (readFraction cs).1 ++ (readFraction cs).2 = cs := by
  fun_cases readFraction cs <;> simp

/-- What is read from a source can be read from a source. -/
theorem isLexical_of_read {c : Char} {cs rest : List Char} {t : Token}
    (h : read c cs = .ok (t, rest)) : t.IsLexical := by
  by_cases hdate : c = '#'
  · subst hdate
    simp only [read] at h
    split at h
    · rename_i content rest' hr
      obtain ⟨rfl, -⟩ := Prod.mk.inj (Except.ok.inj h)
      show '#' ∉ (String.ofList content).toList
      rw [String.toList_ofList]
      exact not_mem_of_readUpTo hr
    · contradiction
  by_cases hm : c ∈ marks
  · simp only [marks, List.mem_cons, List.not_mem_nil, or_false] at hm
    rcases hm with rfl | rfl | rfl | rfl | rfl | rfl | rfl | rfl | rfl | rfl | rfl | rfl | rfl |
      rfl | rfl | rfl | rfl | rfl | rfl
    all_goals first
      | exact absurd rfl hdate
      | simp only [read] at h
    all_goals repeat' split at h
    all_goals first
      | contradiction
      | (obtain ⟨rfl, -⟩ := Prod.mk.inj (Except.ok.inj h); trivial)
  · rw [read_of_not_mark hm] at h
    split at h
    · rename_i hc
      obtain ⟨rfl, -⟩ := Prod.mk.inj (Except.ok.inj h)
      refine ⟨c, cs.takeWhile Char.isDigit, (readFraction (cs.dropWhile Char.isDigit)).1, ?_, hc,
        List.all_eq_true.1 List.all_takeWhile, readFraction_fst _⟩
      rw [String.toList_ofList, List.cons_append]
    · split at h
      · rename_i hc
        obtain ⟨rfl, -⟩ := Prod.mk.inj (Except.ok.inj h)
        exact ⟨c, _, String.toList_ofList, hc, List.all_eq_true.1 List.all_takeWhile⟩
      · contradiction

end Token

/-! ## Pieces -/

namespace Piece

/-- The tokens among some pieces. -/
def tokens : List Piece → List Token
  | [] => []
  | token t :: ps => t :: tokens ps
  | space :: ps => tokens ps

@[simp] theorem tokens_nil : tokens [] = [] := rfl

@[simp] theorem tokens_token (t : Token) (ps : List Piece) :
    tokens (token t :: ps) = t :: tokens ps := rfl

@[simp] theorem tokens_word (w : String) (ps : List Piece) :
    tokens (word w :: ps) = .word w :: tokens ps := rfl

@[simp] theorem tokens_space (ps : List Piece) : tokens (space :: ps) = tokens ps := rfl

@[simp] theorem tokens_append (ps qs : List Piece) :
    tokens (ps ++ qs) = tokens ps ++ tokens qs := by
  induction ps with
  | nil => rfl
  | cons p ps ih => cases p <;> simp [ih]

@[simp] theorem text_nil : text [] = [] := rfl

@[simp] theorem text_cons (p : Piece) (ps : List Piece) : text (p :: ps) = p.spelling ++ text ps :=
  rfl

@[simp] theorem text_append (ps qs : List Piece) : text (ps ++ qs) = text ps ++ text qs :=
  List.flatMap_append

end Piece

/-- Pieces whose tokens can be read from a source and do not run into one another, nor into the
character that follows. -/
def Separate : List Piece → Option Char → Prop
  | [], _ => True
  | .space :: ps, next => Separate ps next
  | .token t :: ps, next =>
    t.IsLexical ∧ t.EndsBefore ((Piece.text ps).head?.or next) ∧ Separate ps next

theorem separate_append {ps qs : List Piece} {next : Option Char} :
    Separate (ps ++ qs) next ↔
      Separate ps ((Piece.text qs).head?.or next) ∧ Separate qs next := by
  induction ps with
  | nil => simp [Separate]
  | cons p ps ih =>
    cases p with
    | space => simp [Separate, ih]
    | token t =>
      simp only [List.cons_append, Separate, ih, Piece.text_append, List.head?_append,
        Option.or_assoc, and_assoc]

theorem lexemes_cons {c : Char} {cs rest : List Char} {t : Token} (hs : isSpace c = false)
    (h : Token.read c cs = .ok (t, rest)) (offset : Nat) :
    lexemes offset (c :: cs) =
      (lexemes (offset + (byteCount (c :: cs) - byteCount rest)) rest).map
        (⟨t, offset⟩ :: ·) := by
  rw [lexemes, if_neg (by simp [hs])]
  split
  · simp_all
  · rename_i h'
    rw [h] at h'
    obtain ⟨rfl, rfl⟩ := Prod.mk.inj (Except.ok.inj h')
    rfl

theorem lexemes_text {ps : List Piece} (h : Separate ps none) (offset : Nat) :
    ∃ ls, lexemes offset (Piece.text ps) = .ok ls ∧ tokens ls = Piece.tokens ps := by
  induction ps generalizing offset with
  | nil => exact ⟨[], by rw [Piece.text_nil, lexemes], rfl⟩
  | cons p ps ih =>
    cases p with
    | space =>
      obtain ⟨ls, hls, ht⟩ := ih h (offset + 1)
      refine ⟨ls, ?_, ht⟩
      rw [← hls, Piece.text_cons]
      show lexemes offset (' ' :: Piece.text ps) = _
      rw [lexemes, if_pos (by decide)]
    | token t =>
      obtain ⟨hlex, hend, hps⟩ := h
      rw [Option.or_none] at hend
      obtain ⟨c, cs, hsp, hspace, hread⟩ := Token.read_spelling hlex hend
      obtain ⟨ls, hls, ht⟩ := ih hps (offset + (byteCount (c :: cs) - byteCount (Piece.text ps)))
      refine ⟨⟨t, offset⟩ :: ls, ?_, by rw [tokens_cons, ht]; rfl⟩
      rw [Piece.text_cons]
      show lexemes offset (t.spelling ++ Piece.text ps) = _
      rw [hsp, lexemes_cons hspace hread, hls]
      rfl

/-- Separate pieces are split into their tokens again. -/
theorem tokenize_text {ps : List Piece} (h : Separate ps none) :
    ∃ ls, tokenize (String.ofList (Piece.text ps)) = .ok ls ∧ tokens ls = Piece.tokens ps := by
  unfold tokenize
  rw [String.toList_ofList]
  exact lexemes_text h 0

theorem isLexical_of_lexemes {offset : Nat} {cs : List Char} {ls : List Lexeme}
    (h : lexemes offset cs = .ok ls) : ∀ t ∈ tokens ls, t.IsLexical := by
  fun_induction lexemes offset cs generalizing ls with
  | case1 => cases h; simp
  | case2 _ _ _ _ ih => exact ih h
  | case3 => contradiction
  | case4 offset c cs _ t rest hread _ ih =>
    cases hr : lexemes (offset + (byteCount (c :: cs) - byteCount rest)) rest with
    | error f => rw [hr] at h; contradiction
    | ok ls' =>
      rw [hr] at h
      obtain rfl := Except.ok.inj h
      rw [tokens_cons, List.forall_mem_cons]
      exact ⟨Token.isLexical_of_read hread, ih hr⟩

/-- The tokens of a source can be read from a source. -/
theorem isLexical_of_tokenize {source : String} {ls : List Lexeme}
    (h : tokenize source = .ok ls) : ∀ t ∈ tokens ls, t.IsLexical :=
  isLexical_of_lexemes h

/-! ## Splitting a known text -/

/-- The tokens of a text by recursion on a bound of its length, which computes. -/
def lexemesWithin : Nat → Nat → List Char → Except Fault (List Lexeme)
  | _, _, [] => .ok []
  | 0, offset, _ :: _ => .error ⟨.byte offset, .strayCharacter⟩
  | n + 1, offset, c :: cs =>
    if isSpace c then lexemesWithin n (offset + 1) cs
    else
      match Token.read c cs with
      | .error reason => .error ⟨.byte offset, reason⟩
      | .ok (token, rest) =>
        (lexemesWithin n (offset + (byteCount (c :: cs) - byteCount rest)) rest).map
          (⟨token, offset⟩ :: ·)

theorem lexemes_eq_lexemesWithin {n : Nat} {cs : List Char} (h : cs.length ≤ n) (offset : Nat) :
    lexemes offset cs = lexemesWithin n offset cs := by
  induction n generalizing cs offset with
  | zero =>
    obtain rfl := List.eq_nil_of_length_eq_zero (Nat.le_zero.1 h)
    rw [lexemes]
    rfl
  | succ n ih =>
    cases cs with
    | nil => rw [lexemes]; rfl
    | cons c cs =>
      have hcs : cs.length ≤ n := Nat.le_of_succ_le_succ h
      rw [lexemes, lexemesWithin]
      split
      · exact ih hcs _
      · split <;> rename_i hread
        · simp only [hread]
        · simp only [hread, ih (Nat.le_trans (Token.read_length hread) hcs)]

theorem tokenize_eq_lexemesWithin (source : String) :
    tokenize source = lexemesWithin source.toList.length 0 source.toList :=
  lexemes_eq_lexemesWithin (Nat.le_refl _) 0

end MetricBoard.Expression
