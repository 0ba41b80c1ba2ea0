import Mathlib.Data.List.TakeWhile
import MetricBoard.Connection.FileDatabase

/-!
# Reading a connection string

A connection string is a list of attributes, each a keyword and a value, with semicolons between
them. A value that begins with a brace runs to its closing brace, where a closing brace that is
written twice is one of the value; any other value runs to the next semicolon
(`FileDatabase.attributes?`).

The password is written in braces with its closing braces doubled, so it is always read back
(`bracedValue?_doubled`). The driver stands in braces as it is, and the path stands bare: the
string says what the parameters say if and only if the driver has no closing brace and the path
can stand bare (`attributes?_connectionString_iff`).
-/

namespace MetricBoard.FileDatabase

/-! ## Attributes -/

/-- The value that goes on behind an opening brace, and what follows its closing brace. -/
def bracedValue? : List Char → Option (List Char × List Char)
  | [] => none
  | '\x7d' :: '\x7d' :: cs => (bracedValue? cs).map fun r => ('\x7d' :: r.1, r.2)
  | '\x7d' :: cs => some ([], cs)
  | c :: cs => (bracedValue? cs).map fun r => (c :: r.1, r.2)

/-- The value that a text begins with, and what follows it. -/
def value? : List Char → Option (List Char × List Char)
  | '\x7b' :: cs => bracedValue? cs
  | cs => some (cs.takeWhile (· != ';'), cs.dropWhile (· != ';'))

/-- Whether a character can stand in a keyword. -/
def inKeyword (c : Char) : Bool := c != '=' && c != ';'

/-- The attribute that a text begins with, and what follows it. -/
def attribute? (cs : List Char) : Option ((String × String) × List Char) :=
  match cs.dropWhile inKeyword with
  | '=' :: rest => (value? rest).map fun r =>
    ((String.ofList (cs.takeWhile inKeyword), String.ofList r.1), r.2)
  | _ => none

section

variable {cs vs rest : List Char}

theorem length_bracedValue? (h : bracedValue? cs = some (vs, rest)) : rest.length < cs.length := by
  fun_induction bracedValue? cs generalizing vs with
  | case1 => contradiction
  | case2 cs ih =>
    obtain ⟨⟨vs', rest'⟩, hr, heq⟩ := Option.map_eq_some_iff.1 h
    obtain ⟨rfl, rfl⟩ := Prod.mk.inj heq
    exact (ih hr).trans ((Nat.lt_succ_self _).trans (Nat.lt_succ_self _))
  | case3 cs =>
    obtain ⟨rfl, rfl⟩ := Prod.mk.inj (Option.some.inj h)
    exact Nat.lt_succ_self _
  | case4 c cs _ _ ih =>
    obtain ⟨⟨vs', rest'⟩, hr, heq⟩ := Option.map_eq_some_iff.1 h
    obtain ⟨rfl, rfl⟩ := Prod.mk.inj heq
    exact (ih hr).trans (Nat.lt_succ_self _)

theorem length_value? (h : value? cs = some (vs, rest)) : rest.length ≤ cs.length := by
  unfold value? at h
  split at h
  · exact (length_bracedValue? h).le.trans (Nat.le_succ _)
  · obtain ⟨rfl, rfl⟩ := Prod.mk.inj (Option.some.inj h)
    exact List.length_dropWhile_le _ _

theorem length_attribute? {a : String × String} (h : attribute? cs = some (a, rest)) :
    rest.length < cs.length := by
  unfold attribute? at h
  split at h
  · rename_i vs hvs
    obtain ⟨⟨v, r⟩, hv, heq⟩ := Option.map_eq_some_iff.1 h
    obtain ⟨rfl, rfl⟩ := Prod.mk.inj heq
    have hvalue : r.length ≤ vs.length := length_value? hv
    have hkeyword := List.length_dropWhile_le inKeyword cs
    rw [hvs, List.length_cons] at hkeyword
    exact Nat.lt_of_le_of_lt hvalue hkeyword
  · contradiction

end

/-- The attributes of a text. -/
def attributes? (cs : List Char) : Option (List (String × String)) :=
  if cs = [] then some []
  else
    match _h : attribute? cs with
    | some (a, []) => some [a]
    | some (a, ';' :: rest) => (attributes? rest).map (a :: ·)
    | _ => none
termination_by cs.length
decreasing_by
  have hlt : (';' :: rest).length < cs.length := length_attribute? ‹_›
  exact (Nat.lt_succ_self _).trans hlt

/-- The attributes behind one that has been read. -/
def others? : List Char → Option (List (String × String))
  | [] => some []
  | ';' :: cs => attributes? cs
  | _ => none

/-- What the parameters say. -/
def attributes (p : FileParameters) : List (String × String) :=
  [("Driver", p.odbcDriver), ("DBQ", p.path)] ++ p.password.toList.map ("PWD", ·)

/-! ## Values -/

/-- A text with its closing braces doubled. -/
def doubled (cs : List Char) : List Char :=
  cs.flatMap fun c => if c = '\x7d' then [c, c] else [c]

section

variable {cs vs rest tail : List Char}

@[simp] theorem doubled_nil : doubled [] = [] := rfl

@[simp] theorem doubled_brace (cs : List Char) :
    doubled ('\x7d' :: cs) = '\x7d' :: '\x7d' :: doubled cs := rfl

theorem doubled_cons {c : Char} (h : c ≠ '\x7d') (cs : List Char) :
    doubled (c :: cs) = c :: doubled cs := by
  simp [doubled, h]

theorem doubled_eq_self (h : '\x7d' ∉ cs) : doubled cs = cs := by
  induction cs with
  | nil => rfl
  | cons c cs ih =>
    obtain ⟨hc, hcs⟩ := not_or.1 (List.mem_cons.not.1 h)
    rw [doubled_cons (Ne.symm hc), ih hcs]

theorem bracedValue?_cons {c : Char} (h : c ≠ '\x7d') (cs : List Char) :
    bracedValue? (c :: cs) = (bracedValue? cs).map fun r => (c :: r.1, r.2) := by
  rw [bracedValue?]
  · exact fun _ heq _ => h heq
  · exact fun heq => h heq

/-- **A value whose closing braces are doubled is read back.** -/
theorem bracedValue?_doubled (cs : List Char) (h : rest.head? ≠ some '\x7d') :
    bracedValue? (doubled cs ++ '\x7d' :: rest) = some (cs, rest) := by
  induction cs with
  | nil =>
    rw [doubled_nil, List.nil_append, bracedValue?]
    rintro _ rfl
    exact h rfl
  | cons c cs ih =>
    by_cases hc : c = '\x7d'
    · subst hc
      rw [doubled_brace, List.cons_append, List.cons_append, bracedValue?, ih, Option.map_some]
    · rw [doubled_cons hc, List.cons_append, bracedValue?_cons hc, ih, Option.map_some]

/-- Whatever is read in braces is written with its closing braces doubled. -/
theorem eq_of_bracedValue? (h : bracedValue? cs = some (vs, rest)) :
    cs = doubled vs ++ '\x7d' :: rest := by
  fun_induction bracedValue? cs generalizing vs with
  | case1 => contradiction
  | case2 cs ih =>
    obtain ⟨⟨vs', rest'⟩, hr, heq⟩ := Option.map_eq_some_iff.1 h
    obtain ⟨rfl, rfl⟩ := Prod.mk.inj heq
    rw [ih hr, doubled_brace]
    rfl
  | case3 cs =>
    obtain ⟨rfl, rfl⟩ := Prod.mk.inj (Option.some.inj h)
    rfl
  | case4 c cs htwo hone ih =>
    obtain ⟨⟨vs', rest'⟩, hr, heq⟩ := Option.map_eq_some_iff.1 h
    obtain ⟨rfl, rfl⟩ := Prod.mk.inj heq
    have hc : c ≠ '\x7d' := by
      rintro rfl
      exact hone rfl
    rw [ih hr, doubled_cons hc]
    rfl

/-- Behind a closing brace the doubled text is ahead of the text by one brace or more, and at the
end of the text one is missing. -/
theorem head?_eq_of_ahead {k : Nat} (h : cs ++ '\x7d' :: tail =
    List.replicate (k + 1) '\x7d' ++ (doubled cs ++ '\x7d' :: rest)) :
    tail.head? = some '\x7d' := by
  induction cs generalizing k with
  | nil =>
    rw [List.replicate_succ, List.cons_append, List.nil_append] at h
    rw [List.tail_eq_of_cons_eq h]
    cases k <;> rfl
  | cons c cs ih =>
    rw [List.replicate_succ, List.cons_append, List.cons_append] at h
    obtain ⟨rfl, h⟩ := List.cons.inj h
    refine ih (k := k + 1) (h.trans ?_)
    simp [List.replicate_succ']

theorem not_mem_of_doubled (htail : tail.head? ≠ some '\x7d')
    (h : cs ++ '\x7d' :: tail = doubled cs ++ '\x7d' :: rest) : '\x7d' ∉ cs := by
  induction cs with
  | nil => exact List.not_mem_nil
  | cons c cs ih =>
    by_cases hc : c = '\x7d'
    · subst hc
      exact absurd (head?_eq_of_ahead (k := 0) (List.tail_eq_of_cons_eq h)) htail
    · rw [doubled_cons hc] at h
      exact List.not_mem_cons_of_ne_of_not_mem (Ne.symm hc) (ih (List.tail_eq_of_cons_eq h))

/-- A text in braces is read back if and only if it has no closing brace. -/
theorem bracedValue?_eq_some_iff (htail : tail.head? ≠ some '\x7d') :
    bracedValue? (cs ++ '\x7d' :: tail) = some (cs, rest) ↔ '\x7d' ∉ cs ∧ rest = tail := by
  constructor
  · intro h
    have hcs := not_mem_of_doubled htail (eq_of_bracedValue? h)
    have hread := bracedValue?_doubled cs htail
    rw [doubled_eq_self hcs, h] at hread
    exact ⟨hcs, (Prod.mk.inj (Option.some.inj hread)).2⟩
  · rintro ⟨hcs, rfl⟩
    have hread := bracedValue?_doubled cs htail
    rwa [doubled_eq_self hcs] at hread

/-- A text that begins with a brace is behind by one character when it is read without it. -/
theorem append_ne_of_ahead : cs ++ ';' :: tail ≠ '\x7b' :: (doubled cs ++ rest) := by
  induction cs with
  | nil => simp
  | cons c cs ih =>
    intro h
    obtain ⟨rfl, h⟩ := List.cons.inj h
    rw [doubled_cons (by decide)] at h
    exact ih h

theorem takeWhile_eq_self_iff : (cs ++ ';' :: tail).takeWhile (· != ';') = cs ↔ ';' ∉ cs := by
  constructor
  · intro h hmem
    have := List.mem_takeWhile_imp (h ▸ hmem)
    simp at this
  · intro h
    exact Text.takeWhile_append_eq (fun c hc => bne_iff_ne.2 fun heq => h (heq ▸ hc)) (by simp)

/-- A bare text is read back if and only if it has no semicolon and does not begin with a brace. -/
theorem value?_eq_some_iff : value? (cs ++ ';' :: tail) = some (cs, rest) ↔
    (';' ∉ cs ∧ cs.head? ≠ some '\x7b') ∧ rest = ';' :: tail := by
  by_cases hbrace : cs.head? = some '\x7b'
  · obtain ⟨cs, rfl⟩ := List.head?_eq_some_iff.1 hbrace
    refine iff_of_false (fun h => ?_) (by simp)
    have hread := eq_of_bracedValue? h
    rw [doubled_cons (by decide)] at hread
    exact append_ne_of_ahead hread
  · have hvalue : value? (cs ++ ';' :: tail) = some ((cs ++ ';' :: tail).takeWhile (· != ';'),
        (cs ++ ';' :: tail).dropWhile (· != ';')) := by
      rw [value?]
      rintro vs heq
      cases cs with
      | nil => simp at heq
      | cons c cs => exact hbrace (by rw [List.head?_cons, List.head_eq_of_cons_eq heq])
    have hsplit := List.takeWhile_append_dropWhile (p := (· != ';')) (l := cs ++ ';' :: tail)
    rw [hvalue, Option.some.injEq, Prod.mk.injEq, takeWhile_eq_self_iff]
    constructor
    · rintro ⟨hcs, rfl⟩
      rw [takeWhile_eq_self_iff.2 hcs] at hsplit
      exact ⟨⟨hcs, hbrace⟩, List.append_cancel_left hsplit⟩
    · rintro ⟨⟨hcs, -⟩, rfl⟩
      rw [takeWhile_eq_self_iff.2 hcs] at hsplit
      exact ⟨hcs, List.append_cancel_left hsplit⟩

end

/-! ## The string and the parameters -/

section

variable {keyword value : String} {cs : List Char} {as : List (String × String)}

theorem attributes?_eq_bind (h : cs ≠ []) :
    attributes? cs = (attribute? cs).bind fun r => (others? r.2).map (r.1 :: ·) := by
  rw [attributes?, if_neg h]
  split
  case h_1 a ha => rw [ha]; rfl
  case h_2 a rest ha => rw [ha]; rfl
  case h_3 hnil hmore =>
    cases ha : attribute? cs with
    | none => rfl
    | some r =>
      obtain ⟨a, rest⟩ := r
      rw [Option.bind_some, others?]
      · rfl
      · rintro rfl
        exact hnil a ha
      · rintro rest rfl
        exact hmore a rest ha

/-- An attribute is read behind its keyword, and then the others. -/
theorem attributes?_eq_some_iff (h : keyword.toList.all inKeyword = true) :
    attributes? (keyword.toList ++ '=' :: cs) = some ((keyword, value) :: as) ↔
      ∃ rest, value? cs = some (value.toList, rest) ∧ others? rest = some as := by
  have hall := List.all_eq_true.1 h
  have hattribute : attribute? (keyword.toList ++ '=' :: cs) =
      (value? cs).map fun r => ((keyword, String.ofList r.1), r.2) := by
    rw [attribute?, List.dropWhile_append_of_pos hall, List.takeWhile_append_of_pos hall]
    simp [inKeyword]
  rw [attributes?_eq_bind (by simp), hattribute]
  constructor
  · intro hread
    obtain ⟨r, hr, has⟩ := Option.bind_eq_some_iff.1 hread
    obtain ⟨⟨vs, rest⟩, hv, rfl⟩ := Option.map_eq_some_iff.1 hr
    obtain ⟨as', hothers, heq⟩ := Option.map_eq_some_iff.1 has
    obtain ⟨hattr, rfl⟩ := List.cons.inj heq
    obtain rfl : String.ofList vs = value := (Prod.mk.inj hattr).2
    exact ⟨rest, by rwa [String.toList_ofList], hothers⟩
  · rintro ⟨rest, hv, has⟩
    simp [hv, has]

/-- The attribute of a password. -/
def passwordText : Option String → List Char
  | none => []
  | some s => "PWD".toList ++ '=' :: '\x7b' :: (doubled s.toList ++ ['\x7d', ';'])

theorem toList_connectionString (p : FileParameters) :
    (connectionString p).toList = "Driver".toList ++ '=' ::
      '\x7b' :: (p.odbcDriver.toList ++ '\x7d' :: ';' :: ("DBQ".toList ++ '=' ::
        (p.path.toList ++ ';' :: passwordText p.password))) := by
  obtain ⟨path, driver, password⟩ := p
  cases password <;> simp [connectionString, passwordText, braced, doubled]

/-- The password is always read back. -/
theorem attributes?_passwordText (password : Option String) :
    attributes? (passwordText password) = some (password.toList.map ("PWD", ·)) := by
  cases password with
  | none => rw [passwordText, attributes?, if_pos rfl]; rfl
  | some s =>
    refine (attributes?_eq_some_iff (by decide)).2 ⟨[';'], bracedValue?_doubled _ (by decide), ?_⟩
    rw [others?, attributes?, if_pos rfl]
    rfl

/-- A driver in braces and a bare path are read back if and only if they can stand there. -/
theorem attributes?_driver_path_iff {driver path : String} (h : attributes? cs = some as) :
    attributes? ("Driver".toList ++ '=' :: '\x7b' :: (driver.toList ++ '\x7d' :: ';' ::
      ("DBQ".toList ++ '=' :: (path.toList ++ ';' :: cs)))) =
        some (("Driver", driver) :: ("DBQ", path) :: as) ↔
      '\x7d' ∉ driver.toList ∧ ';' ∉ path.toList ∧ path.toList.head? ≠ some '\x7b' := by
  have hdriver (tail rest : List Char) :
      value? ('\x7b' :: (driver.toList ++ '\x7d' :: ';' :: tail)) = some (driver.toList, rest) ↔
        '\x7d' ∉ driver.toList ∧ rest = ';' :: tail := bracedValue?_eq_some_iff (by simp)
  have hothers (cs : List Char) : others? (';' :: cs) = attributes? cs := rfl
  rw [attributes?_eq_some_iff (by decide)]
  simp only [hdriver, and_assoc, exists_and_left, exists_eq_left, hothers]
  rw [attributes?_eq_some_iff (by decide)]
  simp only [value?_eq_some_iff, and_assoc, exists_and_left, exists_eq_left, hothers, h, and_true]

end

/-- **What the string says.** It has the attributes of the parameters and no others if and only if
the driver has no closing brace, and the path no semicolon and no brace at its beginning. -/
theorem attributes?_connectionString_iff (p : FileParameters) :
    attributes? (connectionString p).toList = some (attributes p) ↔
      '\x7d' ∉ p.odbcDriver.toList ∧ ';' ∉ p.path.toList ∧
        p.path.toList.head? ≠ some '\x7b' := by
  rw [toList_connectionString]
  exact attributes?_driver_path_iff (attributes?_passwordText p.password)

/-- A path that goes on behind a semicolon is cut off there. -/
theorem attributes?_connectionString_ne :
    attributes? (connectionString ⟨"C:/a;b.mdb", "Access", none⟩).toList ≠
      some [("Driver", "Access"), ("DBQ", "C:/a;b.mdb")] := by
  rw [toList_connectionString]
  intro h
  obtain ⟨-, hpath, -⟩ := (attributes?_driver_path_iff (attributes?_passwordText none)).1 h
  exact hpath (by decide)

end MetricBoard.FileDatabase
