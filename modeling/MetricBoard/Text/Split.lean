/-!
# Splitting texts

A text is cut at every separator, and the parts between separators are kept, empty ones too.
Joining the parts with the separator gives the text back (`join_split`).
-/

namespace MetricBoard.Text

/-- The parts of a text between separators, the empty ones too. -/
def split (separator : Char) : List Char → List (List Char)
  | [] => [[]]
  | c :: cs =>
    if c = separator then [] :: split separator cs
    else match split separator cs with
      | s :: ss => (c :: s) :: ss
      | [] => [[c]]

/-- Parts with a separator between any two. -/
def join (separator : List Char) : List (List Char) → List Char
  | [] => []
  | [s] => s
  | s :: ss => s ++ separator ++ join separator ss

/-- A text has at least one part. -/
theorem split_ne_nil (separator : Char) (cs : List Char) : split separator cs ≠ [] := by
  cases cs with
  | nil => simp [split]
  | cons c cs =>
    rw [split]
    split
    · simp
    · split <;> simp

/-- No character is lost: the parts, joined again, are the text. -/
theorem join_split (separator : Char) (cs : List Char) :
    join [separator] (split separator cs) = cs := by
  induction cs with
  | nil => rfl
  | cons c cs ih =>
    rw [split]
    split
    · rename_i hc
      cases hs : split separator cs with
      | nil => exact absurd hs (split_ne_nil separator cs)
      | cons s ss => rw [hs] at ih; simp [join, ih, hc]
    · cases hs : split separator cs with
      | nil => exact absurd hs (split_ne_nil separator cs)
      | cons s ss =>
        rw [hs] at ih
        cases ss with
        | nil => simpa [join] using ih
        | cons t ss => simpa [join] using ih

end MetricBoard.Text
