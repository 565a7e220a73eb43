import AlgebraText.Expr
import AlgebraText.Json

/-!
# Stored spans, names and origins

## What this module delivers

* writers and readers of spans, rules, token kinds, operators and origins.

A span is a closed record: unlike other records it takes no entries besides its fields.
-/

set_option autoImplicit false

namespace AlgebraText

namespace Span

/-- The fields of a stored span. -/
def fields : List String := ["start", "end"]

/-- The stored form of a span. -/
def toJson (span : Span) : Json :=
  .object [("start", .integer span.start), ("end", .integer span.stop)]

/-- The span of a stored form. -/
def ofJson? (json : Json) : Option Span := do
  let start ← (json.field? fields "start").bind Json.natural?
  let stop ← (json.field? fields "end").bind Json.natural?
  if json.isClosed fields then some ⟨start, stop⟩ else none

end Span

/-- The stored form of a rule. -/
def Rule.toJson (rule : Rule) : Json := .string rule.label

/-- The rule of a stored form. -/
def Rule.ofJson? (json : Json) : Option Rule := json.unit?.bind Rule.ofLabel?

/-- The stored form of a kind of token. -/
def TokenKind.toJson (kind : TokenKind) : Json := .string kind.label

/-- The kind of token of a stored form. -/
def TokenKind.ofJson? (json : Json) : Option TokenKind := json.unit?.bind TokenKind.ofLabel?

/-- The stored form of an operator. -/
def Method.toJson (method : Method) : Json := .string method.label

/-- The operator of a stored form. -/
def Method.ofJson? (json : Json) : Option Method := json.unit?.bind Method.ofLabel?

namespace Origin

/-- The fields of a stored origin. -/
def fields : List String := ["rule", "span"]

/-- The stored form of an origin. -/
def toJson (origin : Origin) : Json :=
  .object [("rule", origin.rule.toJson), ("span", origin.span.toJson)]

/-- The origin of a stored form. -/
def ofJson? (json : Json) : Option Origin := do
  let rule ← (json.field? fields "rule").bind Rule.ofJson?
  let span ← (json.field? fields "span").bind Span.ofJson?
  some ⟨rule, span⟩

end Origin

/-- The stored form of a value that may be absent. -/
def Json.ofOption {α : Type} (write : α → Json) : Option α → Json
  | none => .null
  | some value => write value

end AlgebraText
