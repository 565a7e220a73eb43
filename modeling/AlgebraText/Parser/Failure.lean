import AlgebraText.Report
import AlgebraText.Rule

/-!
# Parse failures

A parse failure names the rule that failed, the spans it points at, and the cause. A failure is
fatal if no other reading of the text may be tried after it; otherwise a rule with alternatives
goes on to the next one.

## What this module delivers

* `ParseCause`, the seven causes, with their description and their notice;
* `ParseFailure`, with its offset, message and report.
-/

set_option autoImplicit false

namespace AlgebraText

/-- Why a text does not match the grammar. -/
inductive ParseCause where
  /-- The text ended where a rule still needed tokens. -/
  | unexpectedEof
  /-- A whole expression was read and text remains. -/
  | expectedEof
  /-- The next token is of none of the expected kinds. -/
  | unexpectedToken (expected : List TokenKind) (found : TokenKind)
  /-- The next token starts no operand. -/
  | expectedExpr (found : TokenKind)
  /-- A parenthesis is not closed. -/
  | unclosedParenthesis
  /-- The bracket of a function application is not closed. -/
  | unclosedBracket
  /-- A point lacks digits on one side. -/
  | malformedDecimal
deriving DecidableEq, Repr

namespace ParseCause

/-- Names of kinds with commas between them. -/
def listKinds (kinds : List TokenKind) : String :=
  ", ".intercalate (kinds.map TokenKind.label)

/-- The name of a cause with its fields. -/
def description : ParseCause → String
  | unexpectedEof => "UnexpectedEof"
  | expectedEof => "ExpectedEof"
  | unexpectedToken expected found =>
    "UnexpectedToken \x7b expected: [" ++ listKinds expected ++ "], found: " ++ found.label ++
      " \x7d"
  | expectedExpr found => "ExpectedExpr \x7b found: " ++ found.label ++ " \x7d"
  | unclosedParenthesis => "UnclosedParenthesis"
  | unclosedBracket => "UnclosedBracket"
  | malformedDecimal => "MalformedDecimal"

/-- The cause with a given name, among the causes without fields. -/
def ofLabel? (text : String) : Option ParseCause :=
  [unexpectedEof, expectedEof, unclosedParenthesis, unclosedBracket, malformedDecimal].find?
    fun cause => cause.description == text

/-- What each cause has to say. -/
def notice : ParseCause → Notice
  | unexpectedEof =>
    { message := "unexpected end of input"
      labels := ["an " ++ highlight "operand" ++ " should follow here"] }
  | expectedEof =>
    { message := "expected end of input"
      labels := ["this " ++ highlight "text" ++ " is not part of the expression"] }
  | unexpectedToken expected found =>
    { message := "unexpected token"
      labels := ["expected one of: " ++ listKinds expected]
      help := some ("found " ++ found.label) }
  | expectedExpr found =>
    { message := "expected an expression"
      labels := ["no " ++ highlight "operand" ++ " starts here"]
      help := some ("found " ++ found.label ++
        "; an operand is a number, a variable, a function like " ++ highlight "f[x]" ++
        ", or a parenthesized expression") }
  | unclosedParenthesis =>
    { message := "unclosed parenthesis"
      labels := ["this parenthesis is not closed", "expected `)` here"]
      help := some "add a closing parenthesis `)` somewhere after this" }
  | unclosedBracket =>
    { message := "unclosed function bracket"
      labels := ["this bracket is not closed", "expected `]` here"]
      help := some ("function applications are written as " ++ highlight "name[expression]") }
  | malformedDecimal =>
    { message := "malformed decimal literal"
      labels := ["this number is not a valid decimal"]
      help := some ("decimals need digits on both sides of the point, as in " ++
        highlight "2.5") }

end ParseCause

/-- A failure of the parser. -/
structure ParseFailure where
  /-- The rule that failed. -/
  rule : Rule
  /-- The places in the text that the failure points at. -/
  spans : List Span
  /-- After a fatal failure no alternative is tried. -/
  fatal : Bool
  /-- Why the rule failed. -/
  cause : ParseCause
deriving DecidableEq, Repr

namespace ParseFailure

/-- Where the failure points first; the start of the text if it points nowhere. -/
def offset (failure : ParseFailure) : Nat :=
  match failure.spans with
  | [] => 0
  | span :: _ => span.start

/-- The same failure, fatal. -/
def intoFatal (failure : ParseFailure) : ParseFailure := { failure with fatal := true }

/-- The one-line message of a failure. -/
def message (failure : ParseFailure) : String :=
  "failed to parse " ++ failure.rule.phrase ++ " at offset " ++ toString failure.offset

/-- The report of a failure. -/
def report (failure : ParseFailure) : Report := failure.cause.notice.report failure.spans

end ParseFailure

end AlgebraText
