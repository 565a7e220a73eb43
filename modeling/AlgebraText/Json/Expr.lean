import AlgebraText.Json.Origin

/-!
# Stored expressions

An expression is stored as a choice with data, named for its kind. All fields are written; an
absent operator or origin is `null`. A reader takes any order of the fields and fills in absent
operators and origins.

## What this module delivers

* `Expr.toJson` and `Expr.ofJson?`;
* `Expr.reread?`, what reading the text of the stored form gives.
-/

set_option autoImplicit false
set_option linter.unusedVariables false

namespace AlgebraText

/-! ## Writing -/

/-- The last field of every node. -/
def originField (origin : Option Origin) : String × Json :=
  ("provenance", .ofOption Origin.toJson origin)

mutual

/-- The stored form of an expression. -/
def Expr.toJson : Expr → Json
  | .integer value origin =>
    .object [("Integer", .object [("value", .string value), originField origin])]
  | .decimal value origin =>
    .object [("Decimal", .object [("value", .ofNumber value), originField origin])]
  | .var name origin =>
    .object [("Variable", .object [("name", .string name), originField origin])]
  | .app name body origin =>
    .object [("Function",
      .object [("name", .string name), ("body", body.toJson), originField origin])]
  | .neg body origin =>
    .object [("Negation", .object [("body", body.toJson), originField origin])]
  | .seq operations origin =>
    .object [("Sequence",
      .object [("operations", .array (Operation.toJsonList operations)), originField origin])]

/-- The stored form of an operation. -/
def Operation.toJson : Operation → Json
  | ⟨method, operand, origin⟩ =>
    .object [("method", .ofOption Method.toJson method), ("operand", operand.toJson),
      originField origin]

/-- The stored forms of operations. -/
def Operation.toJsonList : List Operation → List Json
  | [] => []
  | operation :: rest => operation.toJson :: Operation.toJsonList rest

end

/-! ## Reading -/

/-- The fields of a stored number. -/
def numberFields : List String := ["value", "provenance"]

/-- The fields of a stored variable. -/
def varFields : List String := ["name", "provenance"]

/-- The fields of a stored function application. -/
def appFields : List String := ["name", "body", "provenance"]

/-- The fields of a stored negation. -/
def negFields : List String := ["body", "provenance"]

/-- The fields of a stored operation. -/
def operationFields : List String := ["method", "operand", "provenance"]

/-- The fields of a stored sequence. -/
def seqFields : List String := ["operations", "provenance"]

namespace Json

/-- The origin of a node with the given fields. -/
def origin? (fields : List String) (data : Json) : Option (Option Origin) :=
  optional Origin.ofJson? (data.field? fields "provenance")

/-- The integer of a stored form. -/
def integer? (data : Json) : Option Expr := do
  let value ← (data.field? numberFields "value").bind text?
  let origin ← data.origin? numberFields
  some (.integer value origin)

/-- The decimal of a stored form. -/
def decimal? (data : Json) : Option Expr := do
  let value ← (data.field? numberFields "value").bind number?
  let origin ← data.origin? numberFields
  some (.decimal value origin)

/-- The variable of a stored form. -/
def var? (data : Json) : Option Expr := do
  let name ← (data.field? varFields "name").bind text?
  let origin ← data.origin? varFields
  some (.var name origin)

mutual

/-- The expression of a stored form. -/
def expr? (json : Json) : Option Expr :=
  match h : json.tagged? with
  | none => none
  | some (tag, data) =>
    if tag = "Integer" then data.integer?
    else if tag = "Decimal" then data.decimal?
    else if tag = "Variable" then data.var?
    else if tag = "Function" then
      match hb : data.field? appFields "body" with
      | none => none
      | some body => do
        let name ← (data.field? appFields "name").bind text?
        let argument ← body.expr?
        let origin ← data.origin? appFields
        some (.app name argument origin)
    else if tag = "Negation" then
      match hb : data.field? negFields "body" with
      | none => none
      | some body => do
        let negated ← body.expr?
        let origin ← data.origin? negFields
        some (.neg negated origin)
    else if tag = "Sequence" then
      match ho : data.field? seqFields "operations" with
      | some (.array items) => do
        let operations ← operations? items
        let origin ← data.origin? seqFields
        some (.seq operations origin)
      | _ => none
    else none
termination_by sizeOf json
decreasing_by
  · have outer := sizeOf_tagged?_lt h
    have inner := sizeOf_field?_lt hb
    omega
  · have outer := sizeOf_tagged?_lt h
    have inner := sizeOf_field?_lt hb
    omega
  · have outer := sizeOf_tagged?_lt h
    have inner := sizeOf_field?_lt ho
    simp only [array.sizeOf_spec] at inner
    omega

/-- The operation of a stored form. -/
def operation? (json : Json) : Option Operation :=
  match h : json.field? operationFields "operand" with
  | none => none
  | some operandJson => do
    let method ← optional Method.ofJson? (json.field? operationFields "method")
    let operand ← operandJson.expr?
    let origin ← json.origin? operationFields
    some ⟨method, operand, origin⟩
termination_by sizeOf json
decreasing_by exact sizeOf_field?_lt h

/-- The operations of stored forms. -/
def operations? (items : List Json) : Option (List Operation) :=
  match items with
  | [] => some []
  | item :: rest => do
    let first ← item.operation?
    let others ← operations? rest
    some (first :: others)
termination_by sizeOf items
decreasing_by
  · simp only [List.cons.sizeOf_spec]
    omega
  · simp only [List.cons.sizeOf_spec]
    omega

end

end Json

/-- The expression of a stored form. -/
def Expr.ofJson? (json : Json) : Option Expr := json.expr?

/-- What reading the text of an expression's stored form gives. -/
def Expr.reread? (e : Expr) : Option Expr := e.toJson.throughText?.bind Expr.ofJson?

end AlgebraText
