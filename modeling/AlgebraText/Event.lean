import AlgebraText.NodeKind
import AlgebraText.Rule

/-!
# Events of a run

Reading a text leaves a log: the parser notes each rule it enters, the builder each node it turns
into an expression, and the end of a successful run is noted once.

## What this module delivers

* `Event`, one constructor for each thing that is noted;
* `Event.level` and `Event.message`, its severity and its wording.
-/

set_option autoImplicit false

namespace AlgebraText

/-- How detailed an event is. -/
inductive Level where
  /-- A step of the parser or of the builder. -/
  | trace
  /-- A summary of a whole run. -/
  | debug
deriving DecidableEq, Repr

/-- The name of a level. -/
def Level.label : Level → String
  | trace => "TRACE"
  | debug => "DEBUG"

/-- What can be noted while a text is read. -/
inductive Event where
  /-- An expression is tried at a span. -/
  | expression (span : Span)
  /-- A chain consumed one of its operators. -/
  | operator (rule : Rule) (lexeme : String) (span : Span)
  /-- An operand is tried at a span. -/
  | single (span : Span)
  /-- An opening parenthesis was consumed. -/
  | paren (span : Span)
  /-- The name and the opening bracket of a function application were consumed. -/
  | function (name : String) (span : Span)
  /-- A variable was consumed. -/
  | var (name : String) (span : Span)
  /-- The digits of a number were consumed. -/
  | number (digits : String) (span : Span)
  /-- A node of a parse tree is turned into an expression. -/
  | building (rule : Rule) (span : Span)
  /-- A text of the given length in bytes was read. -/
  | parsed (bytes : Nat) (kind : NodeKind)
deriving DecidableEq, Repr

namespace Event

/-- The level at which an event is noted. -/
def level : Event → Level
  | parsed .. => .debug
  | _ => .trace

/-- The wording of an event. -/
def message : Event → String
  | expression span => "expression at " ++ span.text
  | operator rule lexeme span =>
    rule.phrase ++ " operator `" ++ lexeme ++ "` at " ++ span.text
  | single span => "single at " ++ span.text
  | paren span => "paren at " ++ span.text
  | function name span => "function `" ++ name ++ "` at " ++ span.text
  | var name span => "variable `" ++ name ++ "` at " ++ span.text
  | number digits span => "number `" ++ digits ++ "` at " ++ span.text
  | building rule span => "building " ++ rule.phrase ++ " at " ++ span.text
  | parsed bytes kind => "parsed " ++ toString bytes ++ " bytes into a " ++ kind.word

end Event

end AlgebraText
