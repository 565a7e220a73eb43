import AlgebraText.Parser.Grammar

/-!
# Scripts of parser steps

A parser can be driven step by step: look ahead, consume a token, run a rule, try rules in turn,
or run a group of steps that is taken back if it fails. A script is a list of such steps; running
it from a cursor gives the reply to each step and the offset of the token that is then directly
ahead.

## What this module delivers

* `Step` and `Reply`;
* `Step.perform` and `Step.runAll`, the meaning of a step and of a script.
-/

set_option autoImplicit false

namespace AlgebraText

/-- How a failure is raised by hand. -/
inductive Raise where
  /-- As a failure that leaves room for alternatives. -/
  | soft
  /-- As a fatal failure. -/
  | fatal
  /-- As a failure that is made fatal afterwards. -/
  | softThenFatal
deriving DecidableEq, Repr

/-- One step of a script. -/
inductive Step where
  /-- Run a rule and go back if it fails. -/
  | attempt (goal : Nonterminal)
  /-- Run a rule and stay where it fails. -/
  | run (goal : Nonterminal)
  /-- Read an expression followed by nothing but blanks. -/
  | whole
  /-- Attempt rules in turn until one succeeds or fails fatally. -/
  | firstOf (goals : List Nonterminal)
  /-- Look at the next significant token. -/
  | peek
  /-- Look at the token directly ahead. -/
  | current
  /-- Ask for the span of the next significant token. -/
  | span
  /-- Ask for the span of the end of the text. -/
  | endSpan
  /-- Consume the next significant token. -/
  | next (rule : Rule)
  /-- Consume the next significant token if it is of one of the kinds. -/
  | expect (rule : Rule) (kinds : List TokenKind)
  /-- Make a failure at the next significant token, without failing. -/
  | raise (how : Raise) (rule : Rule) (cause : ParseCause)
  /-- Run steps, then fail if told so, which takes the steps back. -/
  | group (steps : List Step) (fails : Bool)

/-- What a step answers. -/
inductive Reply where
  /-- The match of a rule. -/
  | tree (tree : ParseTree)
  /-- A token that was expected. -/
  | token (token : Token)
  /-- A token that was looked at or taken, or the end of the text. -/
  | look (token : Option Token)
  /-- A span. -/
  | span (span : Span)
  /-- A failure. -/
  | failure (failure : ParseFailure)
  /-- The replies of a group, each with the offset of the token then directly ahead, and the
  failure that took the group back. -/
  | group (replies : List (Reply × Option Nat)) (failure : Option ParseFailure)

namespace Step

/-- The reply to a parser's outcome, with the cursor it leaves. -/
def reply {α : Type} (wrap : α → Reply) :
    EStateM.Result ParseFailure Cursor α → Reply × Cursor
  | .ok value cursor => (wrap value, cursor)
  | .error failure cursor => (.failure failure, cursor)

/-- The failure that is raised by hand at a cursor. -/
def raised (how : Raise) (rule : Rule) (cause : ParseCause) (cursor : Cursor) : ParseFailure :=
  match how with
  | .soft => cursor.failure rule cause
  | .fatal => cursor.fatalFailure rule cause
  | .softThenFatal => (cursor.failure rule cause).intoFatal

/-- The rules tried in turn, each taken back if it fails. -/
def alternatives (goals : List Nonterminal) : Parser ParseTree :=
  Parser.firstOf (goals.map fun goal => Parser.rewinding goal.parser) fun cursor =>
    .error (cursor.failure .expression .unexpectedEof) cursor

/-- The offset of the token directly ahead. -/
def offsetAhead (cursor : Cursor) : Option Nat := cursor.current?.map fun token => token.span.start

mutual

/-- The reply to a step, and the cursor after it. -/
def perform (cursor : Cursor) : Step → Reply × Cursor
  | .attempt goal => reply .tree (Parser.rewinding goal.parser cursor)
  | .run goal => reply .tree (goal.parser cursor)
  | .whole => reply .tree (Parser.wholeExpression cursor)
  | .firstOf goals => reply .tree (alternatives goals cursor)
  | .peek => (.look cursor.peek?, cursor)
  | .current => (.look cursor.current?, cursor)
  | .span => (.span cursor.span, cursor)
  | .endSpan => (.span cursor.endSpan, cursor)
  | .next rule => reply (fun token => .look (some token)) (Parser.next rule cursor)
  | .expect rule kinds => reply .token (Parser.expect rule kinds cursor)
  | .raise how rule cause => (.failure (raised how rule cause cursor), cursor)
  | .group steps fails =>
    let (replies, later) := runAll cursor steps
    if fails then
      (.group replies (some (later.failure .expression .expectedEof)), later.rewoundTo cursor)
    else (.group replies none, later)

/-- The replies to the steps of a script, each with the offset of the token then directly ahead,
and the cursor after the last step. -/
def runAll (cursor : Cursor) : List Step → List (Reply × Option Nat) × Cursor
  | [] => ([], cursor)
  | step :: steps =>
    let (answer, later) := step.perform cursor
    let (answers, last) := runAll later steps
    ((answer, offsetAhead later) :: answers, last)

end

end Step

end AlgebraText
