import AlgebraText.Token

/-!
# Cutting text into tokens

The lexer cuts a text into tokens from left to right. At each point it takes the longest lexeme
that starts there; a character that starts no longer lexeme is a token of its own, so every text
can be cut and no character is lost.

## What this module delivers

* `Cut` and `munch`: the first lexeme of a non-empty text, and what remains;
* `tokensFrom` and `tokenize`: all tokens of a text, with their byte spans;
* `munch_append`: a cut loses nothing, which is also why the lexer ends.
-/

set_option autoImplicit false

namespace AlgebraText

/-! ## Classes of characters -/

/-- Blanks within a line. -/
def isSpace (c : Char) : Bool := c == ' ' || c == '\t'

/-- Characters that end a line. -/
def isLineBreak (c : Char) : Bool := c == '\r' || c == '\n'

/-- Characters that may follow the first letter of a name: ASCII letters, digits, underscore. -/
def isNamePart (c : Char) : Bool := c.isAlphanum || c == '_'

/-- The kind of a character that is a token of its own. -/
def markKind : Char → TokenKind
  | '+' => .add
  | '-' => .sub
  | '*' => .mul
  | '/' => .div
  | '^' => .exp
  | '(' => .openParen
  | ')' => .closeParen
  | '[' => .openSquare
  | ']' => .closeSquare
  | '.' => .dot
  | _ => .symbol

/-! ## One lexeme -/

/-- The first lexeme of a text, given without its first character. -/
structure Cut where
  /-- The kind of the lexeme. -/
  kind : TokenKind
  /-- The characters of the lexeme after the first. -/
  more : List Char
  /-- The text after the lexeme. -/
  rest : List Char

/-- A lexeme that goes on for as long as its characters are in a class. -/
def Cut.run (kind : TokenKind) (inClass : Char → Bool) (cs : List Char) : Cut :=
  ⟨kind, cs.takeWhile inClass, cs.dropWhile inClass⟩

/-- A number whose first digit has been read. It takes in a point only if a digit follows it, so
`2.5` is one lexeme while `2.` and `2..5` begin with the lexeme `2`. -/
def Cut.number (cs : List Char) : Cut :=
  match cs.dropWhile Char.isDigit with
  | '.' :: d :: rest =>
    if d.isDigit then
      ⟨.float, cs.takeWhile Char.isDigit ++ '.' :: d :: rest.takeWhile Char.isDigit,
        rest.dropWhile Char.isDigit⟩
    else
      ⟨.int, cs.takeWhile Char.isDigit, '.' :: d :: rest⟩
  | rest => ⟨.int, cs.takeWhile Char.isDigit, rest⟩

/-- The first lexeme of the text `c :: cs`. -/
def munch (c : Char) (cs : List Char) : Cut :=
  if isSpace c then Cut.run .whitespace isSpace cs
  else if isLineBreak c then Cut.run .newLine isLineBreak cs
  else if c.isAlpha then Cut.run .name isNamePart cs
  else if c.isDigit then Cut.number cs
  else ⟨markKind c, [], cs⟩

theorem Cut.run_append (kind : TokenKind) (inClass : Char → Bool) (cs : List Char) :
    (Cut.run kind inClass cs).more ++ (Cut.run kind inClass cs).rest = cs :=
  List.takeWhile_append_dropWhile

theorem Cut.number_append (cs : List Char) :
    (Cut.number cs).more ++ (Cut.number cs).rest = cs := by
  have whole : cs.takeWhile Char.isDigit ++ cs.dropWhile Char.isDigit = cs :=
    List.takeWhile_append_dropWhile
  unfold Cut.number
  split
  · rename_i d rest shape
    have tail : rest.takeWhile Char.isDigit ++ rest.dropWhile Char.isDigit = rest :=
      List.takeWhile_append_dropWhile
    rw [shape] at whole
    split
    · simpa [tail] using whole
    · exact whole
  · exact whole

/-- A cut loses nothing. The lexeme and the rest together are the text. -/
theorem munch_append (c : Char) (cs : List Char) :
    (munch c cs).more ++ (munch c cs).rest = cs := by
  unfold munch
  split
  · exact Cut.run_append ..
  split
  · exact Cut.run_append ..
  split
  · exact Cut.run_append ..
  split
  · exact Cut.number_append cs
  · rfl

/-- What remains after a cut is no longer than what followed the first character. -/
theorem munch_rest_length_le (c : Char) (cs : List Char) :
    (munch c cs).rest.length ≤ cs.length := by
  have whole := congrArg List.length (munch_append c cs)
  rw [List.length_append] at whole
  omega

/-! ## All lexemes -/

/-- The tokens of a text whose first byte stands at `offset`. -/
def tokensFrom (offset : Nat) : List Char → List Token
  | [] => []
  | c :: cs =>
    let lexeme := c :: (munch c cs).more
    let stop := offset + byteSize lexeme
    ⟨(munch c cs).kind, String.ofList lexeme, ⟨offset, stop⟩⟩ :: tokensFrom stop (munch c cs).rest
termination_by cs => cs.length
decreasing_by
  have shorter := munch_rest_length_le c cs
  simp only [List.length_cons]
  omega

/-- The tokens of a text, blank ones included. -/
def tokenize (text : String) : List Token := tokensFrom 0 text.toList

@[simp]
theorem tokensFrom_nil (offset : Nat) : tokensFrom offset [] = [] := by
  rw [tokensFrom]

/-- The first token of a text, followed by the tokens of the rest. -/
theorem tokensFrom_cons (offset : Nat) (c : Char) (cs : List Char) :
    tokensFrom offset (c :: cs) =
      ⟨(munch c cs).kind, String.ofList (c :: (munch c cs).more),
        ⟨offset, offset + byteSize (c :: (munch c cs).more)⟩⟩ ::
        tokensFrom (offset + byteSize (c :: (munch c cs).more)) (munch c cs).rest := by
  rw [tokensFrom]

end AlgebraText
