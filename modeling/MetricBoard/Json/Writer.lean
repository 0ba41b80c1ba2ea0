import MetricBoard.Json.Value

/-!
# Writing JSON

A value is written without spaces. In a text the quote, the backslash and the control characters
are escaped, the usual ones by a letter and the others by four hexadecimal digits.
-/

namespace MetricBoard.Json

/-- How a character stands in a text. -/
def escape (c : Char) : List Char :=
  match c with
  | '"' => ['\\', '"']
  | '\\' => ['\\', '\\']
  | '\x08' => ['\\', 'b']
  | '\x0c' => ['\\', 'f']
  | '\n' => ['\\', 'n']
  | '\r' => ['\\', 'r']
  | '\t' => ['\\', 't']
  | c =>
    if c.toNat < 0x20 then
      ['\\', 'u', '0', '0'] ++ [Nat.digitChar (c.toNat / 16), Nat.digitChar (c.toNat % 16)]
    else [c]

/-- A text in quotes. -/
def quote (s : String) : List Char := '"' :: s.toList.flatMap escape ++ ['"']

end MetricBoard.Json

namespace MetricBoard

/-- How a numeral is written. -/
def Numeral.text (n : Numeral) : List Char :=
  (if n.negative then ['-'] else []) ++ n.whole ++
    (if n.fraction = [] then [] else '.' :: n.fraction) ++
    match n.exponent with
    | none => []
    | some (down, ds) => 'e' :: (if down then ['-'] else []) ++ ds

end MetricBoard

namespace MetricBoard.Json

/-- Texts with commas between them. -/
def joined : List (List Char) → List Char
  | [] => []
  | [cs] => cs
  | cs :: rest => cs ++ ',' :: joined rest

mutual

/-- How a value is written. A text or a key that is no text is written empty. -/
def render : Json → List Char
  | null => "null".toList
  | bool true => "true".toList
  | bool false => "false".toList
  | number n => n.text
  | string s => quote (s.getD "")
  | array items => '[' :: joined (renderItems items) ++ [']']
  | object members => '\x7b' :: joined (renderMembers members) ++ ['\x7d']

/-- How each item of an array is written. -/
def renderItems : List Json → List (List Char)
  | [] => []
  | v :: vs => render v :: renderItems vs

/-- How each member of an object is written. -/
def renderMembers : List (Option String × Json) → List (List Char)
  | [] => []
  | (key, v) :: ms => (quote (key.getD "") ++ ':' :: render v) :: renderMembers ms

end

@[simp] theorem render_true : render (bool true) = ['t', 'r', 'u', 'e'] := rfl

@[simp] theorem render_false : render (bool false) = ['f', 'a', 'l', 's', 'e'] := rfl

@[simp] theorem render_string (s : Option String) : render (string s) = quote (s.getD "") := rfl

@[simp] theorem render_array (items : List Json) :
    render (array items) = '[' :: joined (renderItems items) ++ [']'] := rfl

@[simp] theorem render_object (members : List (Option String × Json)) :
    render (object members) = '\x7b' :: joined (renderMembers members) ++ ['\x7d'] := rfl

@[simp] theorem renderItems_nil : renderItems [] = [] := rfl

theorem renderItems_cons (v : Json) (vs : List Json) :
    renderItems (v :: vs) = render v :: renderItems vs := rfl

@[simp] theorem renderMembers_nil : renderMembers [] = [] := rfl

theorem renderMembers_cons (m : Option String × Json) (ms : List (Option String × Json)) :
    renderMembers (m :: ms) = (quote (m.1.getD "") ++ ':' :: render m.2) :: renderMembers ms := rfl

/-- The text of a value. -/
def toText (v : Json) : String := String.ofList v.render

end MetricBoard.Json
