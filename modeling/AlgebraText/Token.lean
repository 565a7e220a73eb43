import AlgebraText.Span

/-!
# Tokens

A token is a piece of source text with its kind and its place. The kinds are the two sorts of
blank space, the five operators, the two bracket pairs, names, the two sorts of number, the lone
point, and `symbol` for any character that nothing else claims.

## What this module delivers

* `TokenKind`, with the name each kind goes by in messages (`TokenKind.label`);
* `Token`, with `Token.isBlank` for the tokens that the grammar skips.
-/

set_option autoImplicit false

namespace AlgebraText

/-- The kinds of token. -/
inductive TokenKind where
  /-- A run of spaces and tabs. -/
  | whitespace
  /-- A run of carriage returns and line feeds. -/
  | newLine
  /-- The sign `+`. -/
  | add
  /-- The sign `-`. -/
  | sub
  /-- The sign `*`. -/
  | mul
  /-- The sign `/`. -/
  | div
  /-- The sign `^`. -/
  | exp
  /-- An opening parenthesis. -/
  | openParen
  /-- A closing parenthesis. -/
  | closeParen
  /-- An opening square bracket. -/
  | openSquare
  /-- A closing square bracket. -/
  | closeSquare
  /-- A letter followed by letters, digits and underscores. -/
  | name
  /-- A run of digits. -/
  | int
  /-- Two runs of digits with a point between them. -/
  | float
  /-- A point that is not part of a number. -/
  | dot
  /-- Any other single character. -/
  | symbol
deriving DecidableEq, Repr, Inhabited

namespace TokenKind

/-- The name of a kind, as messages spell it. -/
def label : TokenKind → String
  | whitespace => "Whitespace"
  | newLine => "NewLine"
  | add => "Add"
  | sub => "Sub"
  | mul => "Mul"
  | div => "Div"
  | exp => "Exp"
  | openParen => "OpenParen"
  | closeParen => "CloseParen"
  | openSquare => "OpenSquare"
  | closeSquare => "CloseSquare"
  | name => "Name"
  | int => "Int"
  | float => "Float"
  | dot => "Dot"
  | symbol => "Symbol"

/-- All kinds, in the order of their declaration. -/
def all : List TokenKind :=
  [whitespace, newLine, add, sub, mul, div, exp, openParen, closeParen, openSquare, closeSquare,
    name, int, float, dot, symbol]

/-- The kind with a given name. -/
def ofLabel? (text : String) : Option TokenKind :=
  all.find? fun kind => kind.label == text

/-- Blank kinds separate other tokens and mean nothing themselves. -/
def isBlank : TokenKind → Bool
  | whitespace | newLine => true
  | _ => false

end TokenKind

/-- A piece of source text. -/
structure Token where
  /-- What sort of token it is. -/
  kind : TokenKind
  /-- The text of the token. -/
  lexeme : String
  /-- Where the token stands in the source. -/
  span : Span
deriving DecidableEq, Repr, Inhabited

namespace Token

/-- The grammar skips blank tokens. -/
def isBlank (token : Token) : Bool := token.kind.isBlank

end Token

end AlgebraText
