import AlgebraText.Event
import AlgebraText.Parser.Failure
import AlgebraText.Token.Lexer

/-!
# The parser's cursor

The parser reads a fixed list of tokens. Its state is a cursor between two tokens, kept as the
tokens already passed and the tokens ahead, together with the log of the run. Going back is a
matter of restoring the cursor; the log is never taken back.

Blank tokens are skipped when the next token is asked for, not before, so the token directly ahead
can still be inspected.

## What this module delivers

* `Cursor`, with the views `Cursor.buffer` and `Cursor.position`;
* `Parser`, a state-passing function that keeps its state on failure;
* the steps that grammars are made of: `Parser.next`, `Parser.expect`, `Parser.accept`,
  `Parser.rewinding`, `Parser.fatally`, `Parser.firstOf`;
* `Parser.recurse`, which ties a recursive rule. Each turn must find fewer tokens ahead than the
  turn before it, and this is what ends the recursion (`Cursor.ahead_length_lt_of_next?`).
-/

set_option autoImplicit false

namespace AlgebraText

/-- The state of the parser. -/
structure Cursor where
  /-- The tokens passed, the latest first. -/
  behind : List Token
  /-- The tokens not yet passed. -/
  ahead : List Token
  /-- The events so far, the latest first. -/
  log : List Event
deriving DecidableEq, Repr

namespace Cursor

/-- The cursor before the first of a list of tokens, with an empty log. -/
def ofTokens (tokens : List Token) : Cursor := ⟨[], tokens, []⟩

/-- The cursor at the start of a text. -/
def ofText (text : String) : Cursor := ofTokens (tokenize text)

/-- All tokens, those passed and those ahead. -/
def buffer (cursor : Cursor) : List Token := cursor.behind.reverse ++ cursor.ahead

/-- The number of tokens passed. -/
def position (cursor : Cursor) : Nat := cursor.behind.length

/-- The events of the run in order. -/
def events (cursor : Cursor) : List Event := cursor.log.reverse

/-- The token directly ahead, blank or not. -/
def current? (cursor : Cursor) : Option Token := cursor.ahead.head?

/-- The tokens from the next significant one on. -/
def significant (cursor : Cursor) : List Token := cursor.ahead.dropWhile Token.isBlank

/-- The next significant token. -/
def peek? (cursor : Cursor) : Option Token := cursor.significant.head?

/-- The end of the last token. -/
def endOffset (cursor : Cursor) : Nat :=
  match cursor.ahead.getLast?, cursor.behind with
  | some token, _ => token.span.stop
  | none, token :: _ => token.span.stop
  | none, [] => 0

/-- The empty span just past the last token. -/
def endSpan (cursor : Cursor) : Span := Span.point cursor.endOffset

/-- The span of the next significant token, or the end of the text. -/
def span (cursor : Cursor) : Span :=
  match cursor.peek? with
  | some token => token.span
  | none => cursor.endSpan

/-- The next significant token and the cursor after it. -/
def next? (cursor : Cursor) : Option (Token × Cursor) :=
  match cursor.significant with
  | [] => none
  | token :: rest =>
    some (token,
      { cursor with
        behind := token :: ((cursor.ahead.takeWhile Token.isBlank).reverse ++ cursor.behind)
        ahead := rest })

/-- Taking a token leaves fewer tokens ahead. -/
theorem ahead_length_lt_of_next? {cursor later : Cursor} {token : Token}
    (h : cursor.next? = some (token, later)) : later.ahead.length < cursor.ahead.length := by
  have whole : cursor.ahead.takeWhile Token.isBlank ++ cursor.significant = cursor.ahead :=
    List.takeWhile_append_dropWhile
  unfold next? at h
  split at h
  · cases h
  · rename_i first rest shape
    cases h
    have lengths := congrArg List.length whole
    rw [shape, List.length_append, List.length_cons] at lengths
    show rest.length < cursor.ahead.length
    omega

/-- The cursor of `earlier` with the log of `cursor`. -/
def rewoundTo (cursor earlier : Cursor) : Cursor :=
  { cursor with behind := earlier.behind, ahead := earlier.ahead }

/-- A failure at the next significant token after which alternatives may be tried. -/
def failure (cursor : Cursor) (rule : Rule) (cause : ParseCause) : ParseFailure :=
  ⟨rule, [cursor.span], false, cause⟩

/-- A fatal failure at the next significant token. -/
def fatalFailure (cursor : Cursor) (rule : Rule) (cause : ParseCause) : ParseFailure :=
  ⟨rule, [cursor.span], true, cause⟩

end Cursor

/-- A parser takes a cursor to a result and a later cursor, or to a failure and the cursor at which
it failed. -/
abbrev Parser (α : Type) : Type := EStateM ParseFailure Cursor α

namespace Parser

variable {α : Type}

/-- Notes an event. -/
def record (event : Event) : Parser Unit := fun cursor =>
  .ok () { cursor with log := event :: cursor.log }

/-- Notes an event about the place of the next significant token. -/
def recordHere (event : Span → Event) : Parser Unit := fun cursor =>
  record (event cursor.span) cursor

/-- Consumes the next significant token. -/
def next (rule : Rule) : Parser Token := fun cursor =>
  match cursor.next? with
  | some (token, later) => .ok token later
  | none => .error (cursor.failure rule .unexpectedEof) cursor

/-- Consumes the next significant token if it is of one of the given kinds; otherwise fails and
stays. -/
def expect (rule : Rule) (kinds : List TokenKind) : Parser Token := fun cursor =>
  match cursor.next? with
  | some (token, later) =>
    if token.kind ∈ kinds then .ok token later
    else .error ⟨rule, [token.span], false, .unexpectedToken kinds token.kind⟩ cursor
  | none => .error (cursor.failure rule .unexpectedEof) cursor

/-- Consumes the next significant token if it is of one of the given kinds; otherwise stays. -/
def accept (rule : Rule) (kinds : List TokenKind) : Parser (Option Token) := fun cursor =>
  match expect rule kinds cursor with
  | .ok token later => .ok (some token) later
  | .error _ stayed => .ok none stayed

/-- Runs a parser and, if it fails, goes back to where it started. The log is kept. -/
def rewinding (parser : Parser α) : Parser α := fun cursor =>
  match parser cursor with
  | .ok value later => .ok value later
  | .error failure later => .error failure (later.rewoundTo cursor)

/-- Makes every failure of a parser fatal. -/
def fatally (parser : Parser α) : Parser α := fun cursor =>
  match parser cursor with
  | .ok value later => .ok value later
  | .error failure later => .error failure.intoFatal later

/-- Runs alternatives in order until one succeeds or fails fatally; if all fail otherwise, runs the
last resort. -/
def firstOf : List (Parser α) → Parser α → Parser α
  | [], lastResort => lastResort
  | parser :: parsers, lastResort => fun cursor =>
    match parser cursor with
    | .ok value later => .ok value later
    | .error failure later =>
      if failure.fatal then .error failure later else firstOf parsers lastResort later

/-- A recursive parser. The body receives the parser itself and may call it where fewer tokens are
ahead than at the start of the turn; a call elsewhere would never end and fails. -/
def recurse (body : Parser α → Parser α) (cursor : Cursor) :
    EStateM.Result ParseFailure Cursor α :=
  body (fun later =>
    if later.ahead.length < cursor.ahead.length then recurse body later
    else .error (later.failure .expression .unexpectedEof) later) cursor
termination_by cursor.ahead.length

end Parser

end AlgebraText
