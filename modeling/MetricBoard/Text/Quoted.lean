import MetricBoard.Text.Unprintable

/-!
# Quoted text

A text between double quotes, with the characters that would not show as themselves escaped. In
the quoted form of a path a single quote is escaped too.
-/

namespace MetricBoard.Text

/-- The digits of a number in base 16. -/
def hexDigits (n : Nat) : String := String.ofList (Nat.toDigits 16 n)

/-- A character within quotes. -/
def escaped (c : Char) : String :=
  match c with
  | '"' => "\\\""
  | '\\' => "\\\\"
  | '\t' => "\\t"
  | '\n' => "\\n"
  | '\r' => "\\r"
  | '\x00' => "\\0"
  | c => if isUnprintable c then "\\u\x7b" ++ hexDigits c.toNat ++ "\x7d" else c.toString

/-- A text in quotes. -/
def quoted (s : String) : String := "\"" ++ String.join (s.toList.map escaped) ++ "\""

/-- A path in quotes. -/
def quotedPath (s : String) : String :=
  "\"" ++ String.join (s.toList.map fun c => if c = '\'' then "\\'" else escaped c) ++ "\""

end MetricBoard.Text
