/-!
# Tokens of an expression

The words, literals and marks that an expression is written with. A `Lexeme` is a token with the
byte offset of its first character in the source.
-/

namespace MetricBoard.Expression

/-- A token. Delimited tokens hold their content, with doubled closing delimiters undone. -/
inductive Token where
  | word (text : String)
  /-- A name in brackets or double quotes. -/
  | quoted (name : String)
  | number (digits : String)
  | text (content : String)
  /-- A date between number signs. -/
  | date (content : String)
  | lparen
  | rparen
  | comma
  | dot
  | star
  | plus
  | minus
  | slash
  | percent
  | eq
  | ne
  | lt
  | le
  | gt
  | ge
  deriving DecidableEq, Repr

/-- A token and the byte offset at which it starts. -/
structure Lexeme where
  token : Token
  offset : Nat
  deriving DecidableEq, Repr

namespace Token

/-- A delimited text: the closing delimiter is written twice inside it. -/
def delimited (opening closing : Char) (content : String) : List Char :=
  opening :: (content.toList.flatMap fun c => if c = closing then [c, c] else [c]) ++ [closing]

/-- How a token is written. A quoted name goes into brackets, and `<>` is the sign for unequal. -/
def spelling : Token → List Char
  | word w => w.toList
  | quoted name => delimited '[' ']' name
  | number n => n.toList
  | text s => delimited '\'' '\'' s
  | date d => '#' :: d.toList ++ ['#']
  | lparen => ['(']
  | rparen => [')']
  | comma => [',']
  | dot => ['.']
  | star => ['*']
  | plus => ['+']
  | minus => ['-']
  | slash => ['/']
  | percent => ['%']
  | eq => ['=']
  | ne => ['<', '>']
  | lt => ['<']
  | le => ['<', '=']
  | gt => ['>']
  | ge => ['>', '=']

end Token

end MetricBoard.Expression
