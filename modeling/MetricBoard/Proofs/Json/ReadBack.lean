import Mathlib.Data.List.Forall2
import MetricBoard.Proofs.Json.Numerals

/-!
# Written JSON is read back

`parse?` after `toText` gives the value back (`parse?_toText`), for every value whose texts are
texts and whose numerals are proper: any text survives its escapes, and any nesting its brackets.
The induction is on the value, with what follows it left open; only a numeral asks what that is.
-/

namespace MetricBoard.Json

/-! ## Texts -/

/-- A unit stands for a character: it is the character, or the number of one that is written by
number. -/
def IsUnitOf (u : Char ⊕ Nat) (c : Char) : Prop := u = .inl c ∨ u = .inr c.toNat ∧ c.toNat < 0x20

theorem hexWord?_digits {n : Nat} (h : n < 0x20) :
    hexWord? '0' '0' (Nat.digitChar (n / 16)) (Nat.digitChar (n % 16)) = some n := by
  revert n
  decide

theorem units?_escape (c : Char) {cs rest : List Char} {us : List (Char ⊕ Nat)}
    (h : units? cs = some (us, rest)) :
    ∃ u, IsUnitOf u c ∧ units? (escape c ++ cs) = some (u :: us, rest) := by
  unfold escape
  split
  case h_8 hquote hslash _ _ _ _ _ =>
    split <;> rename_i hsmall
    · refine ⟨.inr c.toNat, Or.inr ⟨rfl, hsmall⟩, ?_⟩
      simp only [List.cons_append, List.nil_append, units?, hexWord?_digits hsmall, h]
      rfl
    · refine ⟨.inl c, Or.inl rfl, ?_⟩
      rw [List.singleton_append, units?]
      · simp [hsmall, h]
      · exact hquote
      · intro _ _ _ _ _ heq
        exact (hslash heq).elim
      · intro _ _ heq
        exact (hslash heq).elim
  all_goals
    refine ⟨.inl _, Or.inl rfl, ?_⟩
    simp [units?, escaped?, h]

theorem joinUnits?_number {n : Nat} (h : n < 0x20) (us : List (Char ⊕ Nat)) :
    joinUnits? (.inr n :: us) = (joinUnits? us).map (Char.ofNat n :: ·) := by
  have hlow : ¬ 0xd800 ≤ n := by omega
  have hhigh : ¬ 0xdc00 ≤ n := by omega
  cases us with
  | nil => simp [joinUnits?, hlow]
  | cons u us => cases u <;> simp [joinUnits?, hlow, hhigh]

theorem joinUnits?_eq_some {us : List (Char ⊕ Nat)} {cs : List Char}
    (h : List.Forall₂ IsUnitOf us cs) : joinUnits? us = some cs := by
  induction h with
  | nil => rfl
  | @cons u c us cs hu _ ih =>
    obtain rfl | ⟨rfl, hsmall⟩ := hu
    · rw [joinUnits?, ih, Option.map_some]
    · rw [joinUnits?_number hsmall, ih, Option.map_some, Char.ofNat_toNat]

theorem exists_units?_quote (cs rest : List Char) :
    ∃ us, List.Forall₂ IsUnitOf us cs ∧
      units? (cs.flatMap escape ++ '"' :: rest) = some (us, rest) := by
  induction cs with
  | nil => exact ⟨[], .nil, rfl⟩
  | cons c cs ih =>
    obtain ⟨us, hcs, hus⟩ := ih
    obtain ⟨u, hu, hread⟩ := units?_escape c hus
    rw [List.flatMap_cons, List.append_assoc]
    exact ⟨u :: us, .cons hu hcs, hread⟩

/-! ## What is read -/

/-- A reader has taken a value and left some characters. -/
def Reads {α : Type} {n : Nat} (x : Option (Taken α n)) (a : α) (rest : List Char) : Prop :=
  ∃ h, x = some ⟨a, rest, h⟩

theorem readText_quote (s : String) (rest : List Char) :
    Reads (readText (s.toList.flatMap escape ++ '"' :: rest)) (some s) rest := by
  obtain ⟨us, hs, hus⟩ := exists_units?_quote s.toList rest
  rw [readText]
  split
  · rename_i us' rest' h
    obtain ⟨rfl, rfl⟩ := Prod.mk.inj (Option.some.inj (h.symm.trans hus))
    simp only [joinUnits?_eq_some hs, Option.map_some, String.ofList_toList]
    exact ⟨_, rfl⟩
  · rename_i h
    rw [hus] at h
    cases h

/-! ## Values -/

/-- A value that is written as it is: its texts are texts, and its numerals are proper. -/
inductive IsProper : Json → Prop
  | null : IsProper .null
  | bool (b : Bool) : IsProper (.bool b)
  | number {n : Numeral} : n.IsProper → IsProper (.number n)
  | text (s : String) : IsProper (.text s)
  | array {items : List Json} : (∀ v ∈ items, IsProper v) → IsProper (.array items)
  | object {members : List (String × Json)} : (∀ m ∈ members, IsProper m.2) →
    IsProper (.ofMembers members)

theorem skipGaps_cons {c : Char} (h : isGap c = false) (cs : List Char) :
    skipGaps (c :: cs) = c :: cs := by
  rw [skipGaps, if_neg (by simp [h])]

theorem isGap_of_text {c : Char} (h : c = '-' ∨ c.isDigit = true) : isGap c = false := by
  by_contra hgap
  simp only [isGap, Bool.not_eq_false, Bool.or_eq_true, beq_iff_eq] at hgap
  obtain ((rfl | rfl) | rfl) | rfl := hgap <;> simp at h

/-- What is written begins with no space, and with no mark that stands between values. -/
theorem exists_render {v : Json} (h : v.IsProper) :
    ∃ c cs, v.render = c :: cs ∧ isGap c = false ∧ c ≠ ']' := by
  cases h with
  | null => exact ⟨_, _, rfl, by decide⟩
  | bool b => cases b <;> exact ⟨_, _, rfl, by decide⟩
  | number hn =>
    obtain ⟨c, cs, hcs, hc⟩ := exists_text hn
    exact ⟨c, cs, hcs, isGap_of_text hc, fun heq => by simp [heq] at hc⟩
  | text s => exact ⟨_, _, rfl, by decide⟩
  | array => exact ⟨_, _, rfl, by decide⟩
  | object => exact ⟨_, _, rfl, by decide⟩

/-- The characters spell a value and what follows it, where the readers of its parts take them. -/
inductive Spells : List Char → Json → List Char → Prop
  | null (rest : List Char) : Spells ('n' :: 'u' :: 'l' :: 'l' :: rest) .null rest
  | true (rest : List Char) : Spells ('t' :: 'r' :: 'u' :: 'e' :: rest) (.bool .true) rest
  | false (rest : List Char) : Spells ('f' :: 'a' :: 'l' :: 's' :: 'e' :: rest) (.bool .false) rest
  | number {n : Numeral} {rest : List Char} : n.IsProper → EndsNumeral rest →
    Spells (n.text ++ rest) (.number n) rest
  | string {us : List Char} {s : Option String} {rest : List Char} : Reads (readText us) s rest →
    Spells ('"' :: us) (.string s) rest
  | array_nil (rest : List Char) : Spells ('[' :: ']' :: rest) (.array []) rest
  | array {us : List Char} {items : List Json} {rest : List Char} :
    (skipGaps us).head? ≠ some ']' → Reads (readItems us) items rest →
    Spells ('[' :: us) (.array items) rest
  | object_nil (rest : List Char) : Spells ('\x7b' :: '\x7d' :: rest) (.object []) rest
  | object {us : List Char} {members : List (Option String × Json)} {rest : List Char} :
    (skipGaps us).head? ≠ some '\x7d' → Reads (readMembers us) members rest →
    Spells ('\x7b' :: us) (.object members) rest

/-- What stands behind a part of a list: its closing mark, or a comma and the rest of it. -/
inductive Ends {α : Type} (close : Char)
    (read : (cs : List Char) → Option (Taken (List α) cs.length)) :
    List Char → List α → List Char → Prop
  | closed (rest : List Char) : Ends close read (close :: rest) [] rest
  | more {us : List Char} {as : List α} {rest : List Char} : Reads (read us) as rest →
    Ends close read (',' :: us) as rest

variable {cs us ws rest : List Char} {v : Json}

theorem Spells.skipGaps_eq (h : Spells cs v rest) : skipGaps cs = cs := by
  cases h with
  | @number n rest hn =>
    obtain ⟨c, ds, hcs, hc⟩ := exists_text hn
    rw [hcs]
    exact skipGaps_cons (isGap_of_text hc) _
  | _ => exact skipGaps_cons rfl _

/-- What spells a value is read as that value. -/
theorem readValue_of_spells (h : Spells cs v rest) : Reads (readValue cs) v rest := by
  have hskip := h.skipGaps_eq
  rw [readValue]
  cases h with
  | null | true | false =>
    split <;> rename_i heq <;> rw [hskip] at heq <;> simp at heq
    · subst heq
      exact ⟨_, rfl⟩
    · obtain ⟨rfl, rfl⟩ := heq
      simp_all
  | number hn hrest =>
    rename_i m
    have hread := readNumeral_append hn hrest
    obtain ⟨c, ds, hcs, hc⟩ := exists_text hn
    rw [hcs, List.cons_append] at hread hskip
    split <;> rename_i heq <;> rw [hcs, List.cons_append, hskip] at heq <;> simp at heq <;>
      obtain ⟨hce, htail⟩ := heq
    all_goals first
      | simp [hce] at hc; done
      | skip
    subst hce htail
    rw [hread]
    simp only [List.length_cons, Nat.add_sub_cancel, List.drop_left]
    exact ⟨_, rfl⟩
  | string hus =>
    obtain ⟨_, hus⟩ := hus
    split <;> rename_i heq <;> rw [hskip] at heq <;> simp at heq
    · subst heq
      rw [hus]
      exact ⟨_, rfl⟩
    · obtain ⟨rfl, rfl⟩ := heq
      simp_all
  | array_nil | object_nil =>
    split <;> rename_i heq <;> rw [hskip] at heq <;> simp at heq
    · subst heq
      simp only [skipGaps_cons (c := ']') rfl, skipGaps_cons (c := '\x7d') rfl]
      exact ⟨_, rfl⟩
    · obtain ⟨rfl, rfl⟩ := heq
      simp_all
  | array hne hus | object hne hus =>
    obtain ⟨_, hus⟩ := hus
    split <;> rename_i heq <;> rw [hskip] at heq <;> simp at heq
    · subst heq
      rw [if_neg hne, hus]
      exact ⟨_, rfl⟩
    · obtain ⟨rfl, rfl⟩ := heq
      simp_all

/-- An item is read, and then what ends the list. -/
theorem readItems_cons {vs : List Json} (hcs : Reads (readValue cs) v us)
    (hus : Ends ']' readItems us vs rest) : Reads (readItems cs) (v :: vs) rest := by
  obtain ⟨_, hcs⟩ := hcs
  rw [readItems, hcs]
  simp only [bind, Option.bind]
  cases hus with
  | closed =>
    have hskip : skipGaps (']' :: rest) = ']' :: rest := skipGaps_cons rfl _
    split <;> rename_i heq <;> rw [hskip] at heq <;> simp at heq
    subst heq
    exact ⟨_, rfl⟩
  | @more ws _ _ hws =>
    obtain ⟨_, hws⟩ := hws
    have hskip : skipGaps (',' :: ws) = ',' :: ws := skipGaps_cons rfl _
    split <;> rename_i heq <;> rw [hskip] at heq <;> simp at heq
    · subst heq
      rw [hws]
      exact ⟨_, rfl⟩
    · simp_all

/-- A key and its value are read, and then what ends the list. -/
theorem readMembers_cons {key : Option String} {ms : List (Option String × Json)}
    (hkey : Reads (readText cs) key (':' :: us)) (hus : Reads (readValue us) v ws)
    (hws : Ends '\x7d' readMembers ws ms rest) :
    Reads (readMembers ('"' :: cs)) ((key, v) :: ms) rest := by
  obtain ⟨_, hkey⟩ := hkey
  obtain ⟨_, hus⟩ := hus
  have hquote : skipGaps ('"' :: cs) = '"' :: cs := skipGaps_cons rfl _
  have hcolon : skipGaps (':' :: us) = ':' :: us := skipGaps_cons rfl _
  rw [readMembers]
  split <;> rename_i heq <;> rw [hquote] at heq <;> simp at heq
  subst heq
  rw [hkey]
  simp only [bind, Option.bind]
  split <;> rename_i heq <;> rw [hcolon] at heq <;> simp at heq
  subst heq
  rw [hus]
  dsimp only
  cases hws with
  | closed =>
    have hbrace : skipGaps ('\x7d' :: rest) = '\x7d' :: rest := skipGaps_cons rfl _
    split <;> rename_i heq <;> rw [hbrace] at heq <;> simp at heq
    subst heq
    exact ⟨_, rfl⟩
  | @more xs _ _ hxs =>
    obtain ⟨_, hxs⟩ := hxs
    have hcomma : skipGaps (',' :: xs) = ',' :: xs := skipGaps_cons rfl _
    split <;> rename_i heq <;> rw [hcomma] at heq <;> simp at heq
    · subst heq
      rw [hxs]
      exact ⟨_, rfl⟩
    · simp_all

/-! ## Reading back -/

theorem endsNumeral_cons {c : Char} (h : c = ',' ∨ c = ']' ∨ c = '\x7d') (cs : List Char) :
    EndsNumeral (c :: cs) := by
  intro d hd
  obtain rfl : c = d := by simpa using hd
  obtain rfl | rfl | rfl := h <;> decide

/-- Items that are each read back are read back together. -/
theorem readItems_render {v : Json} {vs : List Json}
    (h : ∀ w ∈ v :: vs, ∀ rest, EndsNumeral rest → Reads (readValue (w.render ++ rest)) w rest)
    (rest : List Char) :
    Reads (readItems (joined (renderItems (v :: vs)) ++ ']' :: rest)) (v :: vs) rest := by
  induction vs generalizing v with
  | nil =>
    exact readItems_cons (h v List.mem_cons_self _ (endsNumeral_cons (by decide) _)) (.closed _)
  | cons w vs ih =>
    rw [show joined (renderItems (v :: w :: vs)) ++ ']' :: rest =
      v.render ++ ',' :: (joined (renderItems (w :: vs)) ++ ']' :: rest) by
        simp [renderItems_cons, joined]]
    exact readItems_cons (h v List.mem_cons_self _ (endsNumeral_cons (by decide) _))
      (.more (ih fun x hx => h x (List.mem_cons_of_mem _ hx)))

/-- Members whose values are each read back are read back together. -/
theorem readMembers_render {m : String × Json} {ms : List (String × Json)}
    (h : ∀ x ∈ m :: ms, ∀ rest, EndsNumeral rest → Reads (readValue (x.2.render ++ rest)) x.2 rest)
    (rest : List Char) :
    Reads (readMembers (joined (renderMembers ((m :: ms).map fun x => (some x.1, x.2))) ++
      '\x7d' :: rest)) ((m :: ms).map fun x => (some x.1, x.2)) rest := by
  induction ms generalizing m with
  | nil =>
    rw [show joined (renderMembers ([m].map fun x => (some x.1, x.2))) ++ '\x7d' :: rest =
      '"' :: (m.1.toList.flatMap escape ++ '"' :: (':' :: (m.2.render ++ '\x7d' :: rest))) by
        simp [renderMembers_cons, joined, quote]]
    exact readMembers_cons (readText_quote _ _)
      (h m List.mem_cons_self _ (endsNumeral_cons (by decide) _)) (.closed _)
  | cons n ms ih =>
    rw [show joined (renderMembers ((m :: n :: ms).map fun x => (some x.1, x.2))) ++
      '\x7d' :: rest = '"' :: (m.1.toList.flatMap escape ++ '"' :: (':' :: (m.2.render ++
        ',' :: (joined (renderMembers ((n :: ms).map fun x => (some x.1, x.2))) ++
          '\x7d' :: rest)))) by simp [renderMembers_cons, joined, quote]]
    exact readMembers_cons (readText_quote _ _)
      (h m List.mem_cons_self _ (endsNumeral_cons (by decide) _))
      (.more (ih fun x hx => h x (List.mem_cons_of_mem _ hx)))

/-- A value that is written spells itself, and what follows it is left. -/
theorem spells_render {v : Json} (h : v.IsProper) :
    ∀ rest, EndsNumeral rest → Spells (v.render ++ rest) v rest := by
  induction h with
  | null => exact fun rest _ => .null rest
  | bool b =>
    intro rest _
    cases b
    · exact .false rest
    · exact .true rest
  | number hn => exact fun rest hrest => .number hn hrest
  | text s =>
    intro rest _
    rw [show (text s).render ++ rest = '"' :: (s.toList.flatMap escape ++ '"' :: rest) by
      simp [text, quote]]
    exact .string (readText_quote s rest)
  | array hitems ih =>
    rename_i items
    intro rest _
    cases items with
    | nil => exact .array_nil rest
    | cons v vs =>
      obtain ⟨c, cs, hcs, hgap, hbracket⟩ := exists_render (hitems v List.mem_cons_self)
      have hhead : ∃ ds, joined (renderItems (v :: vs)) ++ ']' :: rest = c :: ds := by
        cases vs <;> simp [renderItems_cons, joined, hcs]
      have hread := readItems_render (fun w hw us hus => readValue_of_spells (ih w hw us hus)) rest
      rw [show (array (v :: vs)).render ++ rest =
        '[' :: (joined (renderItems (v :: vs)) ++ ']' :: rest) by simp]
      refine .array ?_ hread
      obtain ⟨ds, hds⟩ := hhead
      simp [hds, skipGaps_cons hgap, hbracket]
  | object hmembers ih =>
    rename_i members
    intro rest _
    cases members with
    | nil => exact .object_nil rest
    | cons m ms =>
      have hhead : ∃ ds, joined (renderMembers ((m :: ms).map fun x => (some x.1, x.2))) ++
          '\x7d' :: rest = '"' :: ds := by
        cases ms <;> simp [renderMembers_cons, joined, quote]
      have hread := readMembers_render
        (fun x hx us hus => readValue_of_spells (ih x hx us hus)) rest
      rw [show (ofMembers (m :: ms)).render ++ rest =
        '\x7b' :: (joined (renderMembers ((m :: ms).map fun x => (some x.1, x.2))) ++
          '\x7d' :: rest) by simp [ofMembers]]
      refine .object ?_ hread
      obtain ⟨ds, hds⟩ := hhead
      rw [hds, skipGaps_cons rfl]
      simp

/-- **Read-back.** A value that is written as it is comes back from its text. -/
theorem parse?_toText {v : Json} (h : v.IsProper) : parse? v.toText = some v := by
  have hread : Reads (readValue v.toText.toList) v [] := by
    rw [toText, String.toList_ofList, ← List.append_nil v.render]
    exact readValue_of_spells (spells_render h [] (by simp [EndsNumeral]))
  obtain ⟨_, hread⟩ := hread
  rw [parse?, hread]
  rfl

end MetricBoard.Json
