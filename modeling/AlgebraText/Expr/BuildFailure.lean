import AlgebraText.Report
import AlgebraText.Rule

/-!
# Build failures

A parse tree that no text has, such as a chain with two operators in a row, cannot be turned into
an expression. The failure names the rule of the offending node, the span it points at, and the
cause.

## What this module delivers

* `quoted`, a text in quotation marks with escapes;
* `BuildCause` and `BuildFailure`, with description, message and report.
-/

set_option autoImplicit false

namespace AlgebraText

/-- How a character is written inside quotation marks. The marks themselves, backslashes and
control characters are escaped. -/
def escaped (c : Char) : String :=
  match c with
  | '"' => "\\\""
  | '\\' => "\\\\"
  | '\n' => "\\n"
  | '\r' => "\\r"
  | '\t' => "\\t"
  | '\x00' => "\\0"
  | _ =>
    if c.toNat < 0x20 ∨ c.toNat = 0x7F then
      "\\u\x7b" ++ String.ofList (Nat.toDigits 16 c.toNat) ++ "\x7d"
    else c.toString

/-- A text in quotation marks. -/
def quoted (text : String) : String :=
  "\"" ++ String.join (text.toList.map escaped) ++ "\""

/-- Why a parse tree is no expression. -/
inductive BuildCause where
  /-- A node lacks the children that its rule produces. -/
  | unexpectedShape (rule : Rule) (expected : String)
  /-- An operator stands in a chain of another level. -/
  | unknownOperator (rule : Rule) (lexeme : String)
  /-- The text of a literal denotes no value. -/
  | invalidLiteral (lexeme : String)
deriving DecidableEq, Repr

namespace BuildCause

/-- The name of a cause with its fields. -/
def description : BuildCause → String
  | unexpectedShape rule expected =>
    "UnexpectedShape \x7b rule: " ++ rule.label ++ ", expected: " ++ quoted expected ++ " \x7d"
  | unknownOperator rule lexeme =>
    "UnknownOperator \x7b rule: " ++ rule.label ++ ", lexeme: " ++ quoted lexeme ++ " \x7d"
  | invalidLiteral lexeme => "InvalidLiteral \x7b lexeme: " ++ quoted lexeme ++ " \x7d"

/-- What each cause has to say. -/
def notice : BuildCause → Notice
  | unexpectedShape rule expected =>
    { message := "malformed " ++ rule.phrase ++ " node in the parse tree"
      labels := ["expected " ++ highlight expected ++ " here"]
      help := some ("the parse tree was not produced by this crate's grammar, " ++
        "or was modified after parsing") }
  | unknownOperator rule lexeme =>
    { message := "operator `" ++ lexeme ++ "` does not belong in a " ++ rule.phrase
      labels := ["this operator"] }
  | invalidLiteral lexeme =>
    { message := "invalid literal `" ++ lexeme ++ "`"
      labels := ["this literal"] }

end BuildCause

/-- A failure to build an expression. -/
structure BuildFailure where
  /-- The rule of the node that could not be built. -/
  rule : Rule
  /-- The region of the source that the failure points at. -/
  span : Span
  /-- Why the node could not be built. -/
  cause : BuildCause
deriving DecidableEq, Repr

namespace BuildFailure

/-- The one-line message of a failure. -/
def message (failure : BuildFailure) : String :=
  "cannot build an expression from the " ++ failure.rule.phrase ++ " at offset " ++
    toString failure.span.start

/-- The report of a failure. -/
def report (failure : BuildFailure) : Report := failure.cause.notice.report [failure.span]

end BuildFailure

end AlgebraText
