import AlgebraText.Json.Origin
import AlgebraText.ParseTree

/-!
# Stored parse trees

A node is stored as a record of its rule, its span and its children; a child is a choice between a
node and a token.

## What this module delivers

* `ParseTree.toJson` and `ParseTree.ofJson?`.
-/

set_option autoImplicit false
set_option linter.unusedVariables false

namespace AlgebraText

/-! ## Writing -/

/-- The stored form of a token. -/
def Token.toJson (token : Token) : Json :=
  .object [("kind", token.kind.toJson), ("lexeme", .string token.lexeme),
    ("span", token.span.toJson)]

mutual

/-- The stored form of a parse tree. -/
def ParseTree.toJson : ParseTree → Json
  | ⟨rule, span, children⟩ =>
    .object [("rule", rule.toJson), ("span", span.toJson),
      ("children", .array (Element.toJsonList children))]

/-- The stored form of a child. -/
def Element.toJson : Element → Json
  | .node tree => .object [("Node", tree.toJson)]
  | .token token => .object [("Token", token.toJson)]

/-- The stored forms of children. -/
def Element.toJsonList : List Element → List Json
  | [] => []
  | child :: rest => child.toJson :: Element.toJsonList rest

end

/-! ## Reading -/

/-- The fields of a stored token. -/
def tokenFields : List String := ["kind", "lexeme", "span"]

/-- The fields of a stored parse tree. -/
def treeFields : List String := ["rule", "span", "children"]

/-- The token of a stored form. -/
def Token.ofJson? (json : Json) : Option Token := do
  let kind ← (json.field? tokenFields "kind").bind TokenKind.ofJson?
  let lexeme ← (json.field? tokenFields "lexeme").bind Json.text?
  let span ← (json.field? tokenFields "span").bind Span.ofJson?
  some ⟨kind, lexeme, span⟩

namespace Json

mutual

/-- The parse tree of a stored form. -/
def tree? (json : Json) : Option ParseTree :=
  match h : json.field? treeFields "children" with
  | some (.array items) => do
    let rule ← (json.field? treeFields "rule").bind Rule.ofJson?
    let span ← (json.field? treeFields "span").bind Span.ofJson?
    let children ← elements? items
    some ⟨rule, span, children⟩
  | _ => none
termination_by sizeOf json
decreasing_by
  have inner := sizeOf_field?_lt h
  simp only [array.sizeOf_spec] at inner
  omega

/-- The child of a stored form. -/
def element? (json : Json) : Option Element :=
  match h : json.tagged? with
  | none => none
  | some (tag, data) =>
    if tag = "Node" then data.tree?.map Element.node
    else if tag = "Token" then (Token.ofJson? data).map Element.token
    else none
termination_by sizeOf json
decreasing_by exact sizeOf_tagged?_lt h

/-- The children of stored forms. -/
def elements? (items : List Json) : Option (List Element) :=
  match items with
  | [] => some []
  | item :: rest => do
    let first ← item.element?
    let others ← elements? rest
    some (first :: others)
termination_by sizeOf items
decreasing_by
  · simp only [List.cons.sizeOf_spec]
    omega
  · simp only [List.cons.sizeOf_spec]
    omega

end

end Json

/-- The parse tree of a stored form. -/
def ParseTree.ofJson? (json : Json) : Option ParseTree := json.tree?

end AlgebraText
