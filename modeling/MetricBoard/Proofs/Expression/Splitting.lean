import MetricBoard.Proofs.Expression.Lexing

/-!
# How a source falls apart into tokens

`Splits` says without a reader how a source falls apart: ASCII spaces are skipped, and at each other
place the longest lexeme is taken (`Begins`), where a comment opener begins none. `Offends` says
what stands where no lexeme can be taken. The source is read exactly as it falls apart
(`lexemes_eq_ok_iff`), and where it does not, the fault is at the first place that offends
(`exists_offends_of_lexemes`).
-/

namespace MetricBoard.Expression

open Text

namespace Token

/-! ## Lexemes -/

/-- How a token can be written: as `spelling` has it, a quoted name in double quotes as well, and
`!=` for unequal. -/
inductive Spells (t : Token) : List Char → Prop
  | plain : t.IsLexical → Spells t t.spelling
  | quotes {name : String} : t = .quoted name → Spells t (delimited '"' '"' name)
  | unequal : t = .ne → Spells t ['!', '=']

/-- What a token's lexeme is read as, and nothing is left. -/
theorem read_of_spells {t : Token} {lex : List Char} (h : Spells t lex) :
    ∃ c cs, lex = c :: cs ∧ isSpace c = false ∧ read c cs = .ok (t, []) := by
  cases h with
  | plain hl =>
    have hend : t.EndsBefore ([] : List Char).head? := by cases t <;> simp [EndsBefore]
    obtain ⟨c, cs, hsp, hs, hr⟩ := read_spelling hl hend
    exact ⟨c, cs, by simpa using hsp, hs, hr⟩
  | @quotes name ht =>
    subst ht
    refine ⟨'"', _, rfl, by decide, ?_⟩
    have hend : ([] : List Char).head? ≠ some '"' := by simp
    have hr := readDelimited_escaped '"' name.toList hend
    simp [read, hr]
  | unequal ht =>
    subst ht
    exact ⟨'!', ['='], rfl, by decide, by simp [read]⟩

/-- A lexeme is one of a single token. -/
theorem Spells.unique {t t' : Token} {lex : List Char} (h : Spells t lex) (h' : Spells t' lex) :
    t = t' := by
  obtain ⟨c, cs, rfl, -, hr⟩ := read_of_spells h
  obtain ⟨_, _, heq, -, hr'⟩ := read_of_spells h'
  obtain ⟨rfl, rfl⟩ := List.cons.inj heq
  rw [hr] at hr'
  exact (Prod.mk.inj (Except.ok.inj hr')).1

/-! ## Delimited content -/

/-- Content as it stands between delimiters. -/
def escaped (closing : Char) (content : List Char) : List Char :=
  content.flatMap fun c => if c = closing then [c, c] else [c]

theorem delimited_append (opening closing : Char) (content : String) (rest : List Char) :
    delimited opening closing content ++ rest =
      opening :: (escaped closing content.toList ++ closing :: rest) := by
  simp [delimited, escaped]

theorem escaped_cons_self (closing : Char) (content : List Char) :
    escaped closing (closing :: content) = closing :: closing :: escaped closing content := by
  simp [escaped]

theorem escaped_cons_of_ne {c closing : Char} (h : c ≠ closing) (content : List Char) :
    escaped closing (c :: content) = c :: escaped closing content := by
  simp [escaped, h]

theorem readDelimited_doubled (closing : Char) (cs : List Char) :
    readDelimited closing (closing :: closing :: cs) =
      (readDelimited closing cs).map fun r => (closing :: r.1, r.2) := by
  rw [readDelimited, if_pos rfl, if_pos rfl]

theorem readDelimited_cons_of_ne {c closing : Char} (h : c ≠ closing) (cs : List Char) :
    readDelimited closing (c :: cs) =
      (readDelimited closing cs).map fun r => (c :: r.1, r.2) := by
  rw [readDelimited.eq_def]
  exact if_neg h

theorem readDelimited_append (closing : Char) (content us : List Char) :
    readDelimited closing (escaped closing content ++ us) =
      (readDelimited closing us).map fun r => (content ++ r.1, r.2) := by
  induction content with
  | nil => exact Option.map_id'.symm
  | cons c content ih =>
    by_cases hc : c = closing
    · subst hc
      rw [escaped_cons_self, List.cons_append, List.cons_append, readDelimited_doubled, ih,
        Option.map_map]
      rfl
    · rw [escaped_cons_of_ne hc, List.cons_append, readDelimited_cons_of_ne hc, ih, Option.map_map]
      rfl

/-- What is read between delimiters, and the first that closes it. -/
theorem eq_of_readDelimited {closing : Char} {cs content rest : List Char}
    (h : readDelimited closing cs = some (content, rest)) :
    cs = escaped closing content ++ closing :: rest := by
  fun_induction readDelimited closing cs generalizing content rest with
  | case1 => contradiction
  | case2 ds ih =>
    obtain ⟨⟨a, b⟩, hab, he⟩ := Option.map_eq_some_iff.1 h
    obtain ⟨rfl, rfl⟩ := Prod.mk.inj he
    rw [escaped_cons_self, ih hab]
    rfl
  | case3 | case4 =>
    obtain ⟨rfl, rfl⟩ := Prod.mk.inj (Option.some.inj h)
    rfl
  | case5 c cs hc ih =>
    obtain ⟨⟨a, b⟩, hab, he⟩ := Option.map_eq_some_iff.1 h
    obtain ⟨rfl, rfl⟩ := Prod.mk.inj he
    rw [escaped_cons_of_ne hc, ih hab]
    rfl

/-- Nothing closes what is content to its end. -/
theorem readDelimited_eq_none_iff {closing : Char} {cs : List Char} :
    readDelimited closing cs = none ↔ ∃ content, cs = escaped closing content := by
  constructor
  · intro h
    fun_induction readDelimited closing cs with
    | case1 => exact ⟨[], rfl⟩
    | case2 ds ih =>
      obtain ⟨content, rfl⟩ := ih (Option.map_eq_none_iff.1 h)
      exact ⟨closing :: content, (escaped_cons_self _ _).symm⟩
    | case3 | case4 => contradiction
    | case5 c cs hc ih =>
      obtain ⟨content, rfl⟩ := ih (Option.map_eq_none_iff.1 h)
      exact ⟨c :: content, (escaped_cons_of_ne hc _).symm⟩
  · rintro ⟨content, rfl⟩
    rw [← List.append_nil (escaped closing content), readDelimited_append]
    rfl

/-- Behind a closing delimiter that does not close, a second one follows, and content to its end. -/
theorem exists_of_not_closed {closing : Char} {content rest : List Char}
    (h : readDelimited closing (escaped closing content ++ closing :: rest) = none) :
    ∃ us, rest = closing :: us ∧ readDelimited closing us = none := by
  rw [readDelimited_append, Option.map_eq_none_iff] at h
  cases rest with
  | nil => simp [readDelimited] at h
  | cons d us =>
    by_cases hd : d = closing
    · subst hd
      exact ⟨us, rfl, by simpa [readDelimited] using h⟩
    · simp [readDelimited, hd] at h

theorem eq_of_readUpTo {closing : Char} {cs content rest : List Char}
    (h : readUpTo closing cs = some (content, rest)) : cs = content ++ closing :: rest := by
  induction cs generalizing content rest with
  | nil => contradiction
  | cons c cs ih =>
    rw [readUpTo] at h
    split at h
    · rename_i hc
      obtain ⟨rfl, rfl⟩ := Prod.mk.inj (Option.some.inj h)
      rw [hc]
      rfl
    · obtain ⟨⟨a, b⟩, hab, he⟩ := Option.map_eq_some_iff.1 h
      obtain ⟨rfl, rfl⟩ := Prod.mk.inj he
      rw [ih hab]
      rfl

theorem not_mem_of_readUpTo_eq_none {closing : Char} {cs : List Char}
    (h : readUpTo closing cs = none) : closing ∉ cs := by
  induction cs with
  | nil => simp
  | cons c cs ih =>
    rw [readUpTo] at h
    split at h
    · contradiction
    · rename_i hc
      simp only [List.mem_cons, not_or]
      exact ⟨Ne.symm hc, ih (Option.map_eq_none_iff.1 h)⟩

/-- The characters that open content, with those that close it. -/
def delimiters : List (Char × Char) := [('\'', '\''), ('"', '"'), ('[', ']')]

theorem readDelimited_of_read {opening closing : Char} (hd : (opening, closing) ∈ delimiters)
    {cs rest : List Char} {t : Token} (h : read opening cs = .ok (t, rest)) :
    ∃ content, readDelimited closing cs = some (content, rest) := by
  simp only [delimiters, List.mem_cons, Prod.mk.injEq, List.not_mem_nil, or_false] at hd
  rcases hd with ⟨rfl, rfl⟩ | ⟨rfl, rfl⟩ | ⟨rfl, rfl⟩
  all_goals
    simp only [read] at h
    split at h
    · rename_i content _ hr
      obtain ⟨-, rfl⟩ := Prod.mk.inj (Except.ok.inj h)
      exact ⟨content, hr⟩
    · contradiction

/-! ## The longest lexeme -/

theorem length_le_of_delimited {opening closing : Char} (hd : (opening, closing) ∈ delimiters)
    {content rest rest' : List Char} {t : Token}
    (h : read opening (escaped closing content ++ closing :: rest') = .ok (t, rest)) :
    rest.length ≤ rest'.length := by
  obtain ⟨_, hr⟩ := readDelimited_of_read hd h
  rw [readDelimited_append] at hr
  obtain ⟨⟨_, _⟩, hclosed, he⟩ := Option.map_eq_some_iff.1 hr
  obtain ⟨-, rfl⟩ := Prod.mk.inj he
  exact Nat.le_of_lt_succ (readDelimited_length hclosed)

theorem length_le_of_numeral {c : Char} {whole fraction cs rest rest' : List Char} {t : Token}
    (hc : c.isDigit = true) (hw : ∀ d ∈ whole, d.isDigit = true)
    (hf : fraction = [] ∨
      ∃ d ds, fraction = '.' :: d :: ds ∧ d.isDigit = true ∧ ∀ d ∈ ds, d.isDigit = true)
    (hcs : cs = whole ++ fraction ++ rest') (h : read c cs = .ok (t, rest)) :
    rest.length ≤ rest'.length := by
  rw [read_of_not_mark (not_mark_of_isDigit hc), if_pos hc, hcs, List.append_assoc,
    List.dropWhile_append_of_pos hw] at h
  obtain ⟨-, rfl⟩ := Prod.mk.inj (Except.ok.inj h)
  rcases hf with rfl | ⟨d, ds, rfl, hd, hds⟩
  · exact Nat.le_trans (readFraction_length _) (length_dropWhile_le _ _)
  · have hdot : ('.' :: d :: ds ++ rest').dropWhile Char.isDigit = '.' :: d :: (ds ++ rest') := rfl
    rw [hdot, readFraction, if_pos hd, List.dropWhile_append_of_pos hds]
    exact length_dropWhile_le _ _

/-- No lexeme at the head of a text is longer than the one that is read. -/
theorem length_le_of_spells {c : Char} {cs rest rest' lex : List Char} {t t' : Token}
    (h : read c cs = .ok (t, rest)) (hs : Spells t' lex) (he : lex ++ rest' = c :: cs) :
    rest.length ≤ rest'.length := by
  cases hs with
  | quotes _ =>
    rw [delimited_append] at he
    obtain ⟨rfl, rfl⟩ := List.cons.inj he
    exact length_le_of_delimited (List.mem_cons_of_mem _ List.mem_cons_self) h
  | unequal _ =>
    obtain ⟨rfl, rfl⟩ := List.cons.inj he
    simp_all [read]
  | plain hl =>
    cases t' with
    | word w =>
      obtain ⟨d, ds, hw, hd, hds⟩ := hl
      rw [spelling, hw, List.cons_append] at he
      obtain ⟨rfl, rfl⟩ := List.cons.inj he
      rw [read_of_not_mark (not_mark_of_isWordStart hd), not_isDigit_of_isWordStart hd,
        if_neg (by simp), if_pos hd, List.dropWhile_append_of_pos hds] at h
      obtain ⟨-, rfl⟩ := Prod.mk.inj (Except.ok.inj h)
      exact length_dropWhile_le _ _
    | number n =>
      obtain ⟨d, whole, fraction, hn, hd, hw, hf⟩ := hl
      rw [spelling, hn] at he
      obtain ⟨rfl, hcs⟩ := List.cons.inj he
      exact length_le_of_numeral hd hw hf hcs.symm h
    | quoted name =>
      rw [spelling, delimited_append] at he
      obtain ⟨rfl, rfl⟩ := List.cons.inj he
      exact length_le_of_delimited (List.mem_cons_of_mem _ (List.mem_cons_of_mem _
        List.mem_cons_self)) h
    | text s =>
      rw [spelling, delimited_append] at he
      obtain ⟨rfl, rfl⟩ := List.cons.inj he
      exact length_le_of_delimited List.mem_cons_self h
    | date d =>
      obtain ⟨rfl, rfl⟩ := List.cons.inj he
      have hr := readUpTo_append hl rest'
      simp_all [read]
    | ne | le | ge =>
      obtain ⟨rfl, rfl⟩ := List.cons.inj he
      simp_all [read]
    | _ =>
      obtain ⟨rfl, rfl⟩ := List.cons.inj he
      exact read_length h

/-! ## What is no lexeme -/

/-- What stands where no lexeme can be taken: a comment opener, a delimiter that nothing closes, or
a character that starts no token. -/
inductive Offends : Reason → List Char → Prop
  | dashes (cs : List Char) : Offends .comment ('-' :: '-' :: cs)
  | slashStar (cs : List Char) : Offends .comment ('/' :: '*' :: cs)
  | separator (cs : List Char) : Offends .separator (';' :: cs)
  | serverVariable (cs : List Char) : Offends .serverVariable ('@' :: cs)
  | stray {c : Char} {cs : List Char} : isSpace c = false → c ∉ ['\'', '"', '[', '#', ';', '@'] →
      (∀ t lex, Spells t lex → ¬lex <+: c :: cs) → Offends .strayCharacter (c :: cs)
  | unclosed {opening closing : Char} (content : List Char) : (opening, closing) ∈ delimiters →
      Offends .unterminated (opening :: escaped closing content)
  | undated {cs : List Char} : '#' ∉ cs → Offends .unterminated ('#' :: cs)

/-- A lexeme at the head of a text is read at its first character. -/
theorem exists_read_of_spells {c : Char} {cs lex : List Char} {t : Token} (hs : Spells t lex)
    (hp : lex <+: c :: cs) : ∃ body, lex = c :: body ∧ body <+: cs ∧ read c body = .ok (t, []) := by
  obtain ⟨d, body, rfl, -, hr⟩ := read_of_spells hs
  obtain ⟨rfl, hbody⟩ := List.cons_prefix_cons.1 hp
  exact ⟨body, rfl, hbody, hr⟩

theorem offends_of_not_mark {c : Char} {cs : List Char} (hsp : isSpace c = false) (hm : c ∉ marks)
    (hd : c.isDigit = false) (hw : isWordStart c = false) : Offends .strayCharacter (c :: cs) := by
  have hopening : c ∉ ['\'', '"', '[', '#', ';', '@'] := fun h =>
    hm ((List.drop_subset 13 marks) h)
  refine .stray hsp hopening fun t lex hs hp => ?_
  obtain ⟨body, rfl, -, hr⟩ := exists_read_of_spells hs hp
  simp [read_of_not_mark hm, hd, hw] at hr

theorem offends_of_exclamation {cs : List Char} (h : cs.head? ≠ some '=') :
    Offends .strayCharacter ('!' :: cs) := by
  refine .stray (by decide) (by decide) fun t lex hs hp => ?_
  obtain ⟨body, rfl, ⟨us, rfl⟩, hr⟩ := exists_read_of_spells hs hp
  cases body with
  | nil => contradiction
  | cons d ds =>
    simp only [List.cons_append, List.head?_cons, ne_eq, Option.some.injEq] at h
    simp [read, h] at hr

/-! ## What a reader finds -/

/-- A mark of two characters is found at the head of a text. -/
theorem append_tail_eq {c d : Char} {cs : List Char} (h : cs.head? = some d) :
    [c, d] ++ cs.tail = c :: cs := by
  obtain ⟨us, rfl⟩ := List.head?_eq_some_iff.1 h
  rfl

theorem append_eq_of_readDelimited {opening closing : Char} {cs content rest : List Char}
    (h : readDelimited closing cs = some (content, rest)) :
    delimited opening closing (String.ofList content) ++ rest = opening :: cs := by
  rw [delimited_append, String.toList_ofList, ← eq_of_readDelimited h]

/-- What is read is a lexeme at the head of the text. -/
theorem exists_spells_of_read {c : Char} {cs rest : List Char} {t : Token}
    (h : read c cs = .ok (t, rest)) : ∃ lex, lex ++ rest = c :: cs ∧ Spells t lex := by
  have hl := isLexical_of_read h
  by_cases hm : c ∈ marks
  · simp only [marks, List.mem_cons, List.not_mem_nil, or_false] at hm
    rcases hm with rfl | rfl | rfl | rfl | rfl | rfl | rfl | rfl | rfl | rfl | rfl | rfl | rfl |
      rfl | rfl | rfl | rfl | rfl | rfl
    all_goals simp only [read] at h
    all_goals repeat' split at h
    all_goals first
      | contradiction
      | obtain ⟨rfl, rfl⟩ := Prod.mk.inj (Except.ok.inj h)
    all_goals first
      | exact ⟨_, rfl, .plain trivial⟩
      | exact ⟨_, append_tail_eq (by assumption), .plain trivial⟩
      | exact ⟨_, append_tail_eq (by assumption), .unequal rfl⟩
      | exact ⟨_, append_eq_of_readDelimited (by assumption), .plain trivial⟩
      | exact ⟨_, append_eq_of_readDelimited (by assumption), .quotes rfl⟩
      | refine ⟨_, ?_, .plain hl⟩
    rename_i hr
    rw [eq_of_readUpTo hr, spelling, String.toList_ofList]
    simp
  · rw [read_of_not_mark hm] at h
    split at h
    · obtain ⟨rfl, rfl⟩ := Prod.mk.inj (Except.ok.inj h)
      refine ⟨_, ?_, .plain hl⟩
      rw [spelling, String.toList_ofList, List.append_assoc, readFraction_fst_append_snd,
        List.cons_append, List.takeWhile_append_dropWhile]
    · split at h
      · obtain ⟨rfl, rfl⟩ := Prod.mk.inj (Except.ok.inj h)
        refine ⟨_, ?_, .plain hl⟩
        rw [spelling, String.toList_ofList, List.cons_append, List.takeWhile_append_dropWhile]
      · contradiction

theorem offends_of_readDelimited {opening closing : Char}
    (hd : (opening, closing) ∈ delimiters) {cs : List Char} (h : readDelimited closing cs = none) :
    Offends .unterminated (opening :: cs) := by
  obtain ⟨content, rfl⟩ := readDelimited_eq_none_iff.1 h
  exact .unclosed content hd

/-- Where nothing can be read, something offends. -/
theorem offends_of_read {c : Char} {cs : List Char} {reason : Reason} (hsp : isSpace c = false)
    (h : read c cs = .error reason) : Offends reason (c :: cs) := by
  by_cases hm : c ∈ marks
  · simp only [marks, List.mem_cons, List.not_mem_nil, or_false] at hm
    rcases hm with rfl | rfl | rfl | rfl | rfl | rfl | rfl | rfl | rfl | rfl | rfl | rfl | rfl |
      rfl | rfl | rfl | rfl | rfl | rfl
    all_goals simp only [read] at h
    all_goals repeat' split at h
    all_goals first
      | contradiction
      | obtain rfl := Except.error.inj h
    · rename_i hh
      obtain ⟨us, rfl⟩ := List.head?_eq_some_iff.1 hh
      exact .dashes us
    · rename_i hh
      obtain ⟨us, rfl⟩ := List.head?_eq_some_iff.1 hh
      exact .slashStar us
    · rename_i hh
      exact offends_of_exclamation hh
    · rename_i hr
      exact offends_of_readDelimited List.mem_cons_self hr
    · rename_i hr
      exact offends_of_readDelimited (List.mem_cons_of_mem _ List.mem_cons_self) hr
    · rename_i hr
      exact offends_of_readDelimited (List.mem_cons_of_mem _ (List.mem_cons_of_mem _
        List.mem_cons_self)) hr
    · rename_i hr
      exact .undated (not_mem_of_readUpTo_eq_none hr)
    · exact .separator cs
    · exact .serverVariable cs
  · rw [read_of_not_mark hm] at h
    split at h
    · contradiction
    · split at h
      · contradiction
      · rename_i hd hw
        obtain rfl := Except.error.inj h
        exact offends_of_not_mark hsp hm (by simpa using hd) (by simpa using hw)

end Token

/-! ## Sources -/

/-- A lexeme is the longest at the head of a text, where a comment opener begins none. -/
structure Begins (t : Token) (lex rest : List Char) : Prop where
  spells : t.Spells lex
  longest : ∀ t' lex', Token.Spells t' lex' → lex' <+: lex ++ rest → lex'.length ≤ lex.length
  noComment : ¬['-', '-'] <+: lex ++ rest ∧ ¬['/', '*'] <+: lex ++ rest

/-- How a text that starts at byte `offset` of its source falls apart into spaces and longest
lexemes, with the tokens that these are, up to what is left of it. -/
inductive Splits : Nat → List Char → List Lexeme → List Char → Prop
  | done (offset : Nat) (rest : List Char) : Splits offset rest [] rest
  | space {offset : Nat} {c : Char} {cs rest : List Char} {ls : List Lexeme} :
    isSpace c = true → Splits (offset + 1) cs ls rest → Splits offset (c :: cs) ls rest
  | token {offset : Nat} {t : Token} {lex cs rest : List Char} {ls : List Lexeme} :
    Begins t lex cs → Splits (offset + byteCount lex) cs ls rest →
      Splits offset (lex ++ cs) (⟨t, offset⟩ :: ls) rest

theorem begins_of_read {c : Char} {cs rest : List Char} {t : Token}
    (h : Token.read c cs = .ok (t, rest)) : ∃ lex, lex ++ rest = c :: cs ∧ Begins t lex rest := by
  obtain ⟨lex, he, hs⟩ := Token.exists_spells_of_read h
  refine ⟨lex, he, hs, fun t' lex' hs' ⟨rest', he'⟩ => ?_, ?_, ?_⟩
  · have hle := Token.length_le_of_spells h hs' (he'.trans he)
    have hlen := congrArg List.length he'
    simp only [List.length_append] at hlen
    omega
  · rw [he]
    rintro ⟨us, hus⟩
    obtain ⟨rfl, rfl⟩ := List.cons.inj hus
    simp [Token.read] at h
  · rw [he]
    rintro ⟨us, hus⟩
    obtain ⟨rfl, rfl⟩ := List.cons.inj hus
    simp [Token.read] at h

/-- Behind content that nothing closes, a second closing delimiter is left, and it closes nothing
either. -/
theorem offends_of_not_closed {opening closing : Char}
    (hd : (opening, closing) ∈ Token.delimiters) {us : List Char}
    (h : Token.readDelimited closing us = none) : ∃ reason, Token.Offends reason (closing :: us) := by
  have hmem := hd
  simp only [Token.delimiters, List.mem_cons, Prod.mk.injEq, List.not_mem_nil, or_false] at hd
  rcases hd with ⟨rfl, rfl⟩ | ⟨rfl, rfl⟩ | ⟨rfl, rfl⟩
  · exact ⟨_, Token.offends_of_readDelimited hmem h⟩
  · exact ⟨_, Token.offends_of_readDelimited hmem h⟩
  · exact ⟨_, Token.offends_of_not_mark (by decide) (by decide) (by decide) (by decide)⟩

/-- If a lexeme can be taken where something offends, something offends behind it. -/
theorem Begins.offends {t : Token} {lex rest : List Char} {reason : Reason}
    (hb : Begins t lex rest) (h : Token.Offends reason (lex ++ rest)) :
    ∃ reason', Token.Offends reason' rest := by
  have hp : lex <+: lex ++ rest := List.prefix_append _ _
  have hcomment := hb.noComment
  generalize he : lex ++ rest = cs at h hp hcomment
  cases h with
  | dashes us => exact absurd ⟨us, rfl⟩ hcomment.1
  | slashStar us => exact absurd ⟨us, rfl⟩ hcomment.2
  | separator us | serverVariable us =>
    obtain ⟨body, -, -, hr⟩ := Token.exists_read_of_spells hb.spells hp
    simp [Token.read] at hr
  | stray _ _ hn => exact absurd hp (hn _ _ hb.spells)
  | @unclosed _ closing content hd =>
    obtain ⟨body, rfl, -, hr⟩ := Token.exists_read_of_spells hb.spells hp
    obtain ⟨inner, hi⟩ := Token.readDelimited_of_read hd hr
    obtain ⟨-, hcontent⟩ := List.cons.inj he
    have hnone := Token.readDelimited_eq_none_iff.2 ⟨content, hcontent⟩
    rw [Token.eq_of_readDelimited hi, List.append_eq, List.append_assoc] at hnone
    obtain ⟨us, rfl, hus⟩ := Token.exists_of_not_closed hnone
    exact offends_of_not_closed hd hus
  | undated hn =>
    obtain ⟨body, rfl, hbody, hr⟩ := Token.exists_read_of_spells hb.spells hp
    simp only [Token.read] at hr
    split at hr
    · rename_i hi
      rw [Token.eq_of_readUpTo hi] at hbody
      exact absurd (hbody.subset (by simp)) hn
    · contradiction

/-- A text does not fall apart where something offends. -/
theorem not_splits_of_offends {offset : Nat} {cs : List Char} {ls : List Lexeme} {reason : Reason}
    (h : Token.Offends reason cs) : ¬Splits offset cs ls [] := by
  intro hs
  generalize hr : ([] : List Char) = rest at hs
  induction hs generalizing reason with
  | done =>
    subst hr
    contradiction
  | space hc _ _ =>
    cases h with
    | stray hsp _ _ => simp_all
    | unclosed _ hd =>
      simp only [Token.delimiters, List.mem_cons, Prod.mk.injEq, List.not_mem_nil, or_false] at hd
      rcases hd with ⟨rfl, rfl⟩ | ⟨rfl, rfl⟩ | ⟨rfl, rfl⟩ <;> contradiction
    | _ => contradiction
  | token hb _ ih =>
    obtain ⟨reason', h'⟩ := hb.offends h
    exact ih h' hr

/-- One longest lexeme begins a text at most. -/
theorem Begins.unique {t t' : Token} {lex lex' rest rest' : List Char} (h : Begins t lex rest)
    (h' : Begins t' lex' rest') (he : lex ++ rest = lex' ++ rest') :
    t = t' ∧ lex = lex' ∧ rest = rest' := by
  have hle := h.longest t' lex' h'.spells (he ▸ List.prefix_append _ _)
  have hle' := h'.longest t lex h.spells (he ▸ List.prefix_append _ _)
  obtain ⟨rfl, rfl⟩ := List.append_inj he (Nat.le_antisymm hle' hle)
  exact ⟨h.spells.unique h'.spells, rfl, rfl⟩

theorem byteCount_append_sub (lex rest : List Char) :
    byteCount (lex ++ rest) - byteCount rest = byteCount lex := by
  rw [byteCount_append]
  omega

/-- A text is read as it falls apart. -/
theorem lexemes_eq_ok_iff {offset : Nat} {cs : List Char} {ls : List Lexeme} :
    lexemes offset cs = .ok ls ↔ Splits offset cs ls [] := by
  constructor
  · intro h
    fun_induction lexemes offset cs generalizing ls with
    | case1 offset =>
      obtain rfl := Except.ok.inj h
      exact .done offset []
    | case2 _ _ _ hsp ih => exact .space hsp (ih h)
    | case3 => contradiction
    | case4 offset c cs _ t rest hread _ ih =>
      obtain ⟨lex, he, hb⟩ := begins_of_read hread
      rw [← he, byteCount_append_sub] at ih h
      cases hr : lexemes (offset + byteCount lex) rest with
      | error f =>
        rw [hr] at h
        contradiction
      | ok ls' =>
        rw [hr] at h
        obtain rfl := Except.ok.inj h
        rw [← he]
        exact .token hb (ih hr)
  · intro h
    generalize hr : ([] : List Char) = rest at h
    induction h with
    | done =>
      subst hr
      rw [lexemes]
    | space hc _ ih => rw [lexemes, if_pos hc, ih hr]
    | @token offset t lex cs rest ls hb hs ih =>
      subst hr
      obtain ⟨c, body, rfl, hsp, -⟩ := Token.read_of_spells hb.spells
      cases hread : Token.read c (body ++ cs) with
      | error reason =>
        obtain ⟨reason', h'⟩ := hb.offends (Token.offends_of_read hsp hread)
        exact absurd hs (not_splits_of_offends h')
      | ok r =>
        obtain ⟨t', rest'⟩ := r
        obtain ⟨lex', he, hb'⟩ := begins_of_read hread
        obtain ⟨rfl, rfl, rfl⟩ := hb.unique hb' he.symm
        have hcount := byteCount_append_sub (c :: body) cs
        rw [List.cons_append] at hcount ⊢
        rw [lexemes_cons hsp hread, hcount, ih rfl]
        rfl

theorem utf8Size_of_isSpace {c : Char} (h : isSpace c = true) : c.utf8Size = 1 := by
  simp only [isSpace, Bool.or_eq_true, beq_iff_eq] at h
  rcases h with (((rfl | rfl) | rfl) | rfl) | rfl <;> rfl

/-- Where a text is not read, something offends at the place that is told, and up to there the text
falls apart. -/
theorem exists_offends_of_lexemes {offset : Nat} {cs : List Char} {f : Fault}
    (h : lexemes offset cs = .error f) :
    ∃ front rest ls, cs = front ++ rest ∧ Splits offset cs ls rest ∧
      f.place = .byte (offset + byteCount front) ∧ Token.Offends f.reason rest := by
  fun_induction lexemes offset cs with
  | case1 => contradiction
  | case2 offset c cs hsp ih =>
    obtain ⟨front, rest, ls, rfl, hs, hp, ho⟩ := ih h
    refine ⟨c :: front, rest, ls, rfl, .space hsp hs, ?_, ho⟩
    rw [hp, byteCount_cons, utf8Size_of_isSpace hsp, Nat.add_assoc]
  | case3 offset c cs hsp reason hread =>
    obtain rfl := Except.error.inj h
    exact ⟨[], c :: cs, [], rfl, .done _ _, rfl,
      Token.offends_of_read (by simpa using hsp) hread⟩
  | case4 offset c cs _ t rest hread _ ih =>
    obtain ⟨lex, he, hb⟩ := begins_of_read hread
    rw [← he, byteCount_append_sub] at ih h
    cases hr : lexemes (offset + byteCount lex) rest with
    | ok ls =>
      rw [hr] at h
      contradiction
    | error f' =>
      rw [hr] at h
      obtain rfl := Except.error.inj h
      obtain ⟨front, rest', ls, rfl, hs, hp, ho⟩ := ih hr
      refine ⟨lex ++ front, rest', ⟨t, offset⟩ :: ls, ?_, ?_, ?_, ho⟩
      · rw [← he, List.append_assoc]
      · rw [← he]
        exact .token hb hs
      · rw [hp, byteCount_append, Nat.add_assoc]

theorem Token.Spells.byteCount_pos {t : Token} {lex : List Char} (h : t.Spells lex) :
    0 < byteCount lex := by
  obtain ⟨c, cs, rfl, -, -⟩ := Token.read_of_spells h
  have := c.utf8Size_pos
  rw [byteCount_cons]
  omega

/-- Where a lexeme stands. -/
theorem Splits.exists_begins {offset : Nat} {cs rest : List Char} {ls : List Lexeme}
    (h : Splits offset cs ls rest) {l : Lexeme} (hl : l ∈ ls) :
    ∃ front lex us, cs = front ++ (lex ++ us) ∧ l.offset = offset + byteCount front ∧
      Begins l.token lex us := by
  induction h with
  | done => contradiction
  | @space offset c cs _ _ hc _ ih =>
    obtain ⟨front, lex, us, rfl, ho, hb⟩ := ih hl
    refine ⟨c :: front, lex, us, rfl, ?_, hb⟩
    rw [ho, byteCount_cons, utf8Size_of_isSpace hc, Nat.add_assoc]
  | @token offset t lex cs _ _ hb _ ih =>
    rcases List.mem_cons.1 hl with rfl | hl
    · exact ⟨[], lex, cs, rfl, rfl, hb⟩
    · obtain ⟨front, lex', us, rfl, ho, hb'⟩ := ih hl
      refine ⟨lex ++ front, lex', us, by simp, ?_, hb'⟩
      rw [ho, byteCount_append, Nat.add_assoc]

/-- The lexemes stand one behind the other. -/
theorem Splits.increasing {offset : Nat} {cs rest : List Char} {ls : List Lexeme}
    (h : Splits offset cs ls rest) :
    (∀ l ∈ ls, offset ≤ l.offset) ∧ ls.Pairwise (·.offset < ·.offset) := by
  induction h with
  | done => simp
  | space _ _ ih => exact ⟨fun l hl => Nat.le_of_succ_le (ih.1 l hl), ih.2⟩
  | token hb _ ih =>
    have hpos := hb.spells.byteCount_pos
    refine ⟨List.forall_mem_cons.2 ⟨Nat.le_refl _, fun l hl => ?_⟩,
      List.pairwise_cons.2 ⟨fun l hl => ?_, ih.2⟩⟩
    · exact Nat.le_trans (Nat.le_add_right _ _) (ih.1 l hl)
    · have := ih.1 l hl
      dsimp only
      omega

end MetricBoard.Expression
