import AlgebraText.Binary64
import AlgebraText.Method
import AlgebraText.NodeKind

/-!
# Expressions

An expression is a number, a variable, a function application, a negation, or a sequence: a chain
of operands joined by operators from left to right. Each link of a sequence is an operation, which
holds the operator and the operand to its right; the first operation of a well-formed sequence has
no operator. Numbers carry no sign, so `-2` is the negation of `2`.

Every node remembers the part of a parse tree that it was built from, if there is one. This origin
serves diagnostics only and takes no part in equality or printing.

## What this module delivers

* `Expr`, `Operation` and `Origin`;
* `Node`, a view of any expression or operation, with its kind, its origin and its children.
-/

set_option autoImplicit false

namespace AlgebraText

/-- The part of a parse tree that a node was built from. -/
structure Origin where
  /-- The rule that matched. -/
  rule : Rule
  /-- The region of the source that it covers. -/
  span : Span
deriving DecidableEq, Repr

mutual

/-- An expression. -/
inductive Expr where
  /-- A number without a point, given by its decimal digits. -/
  | integer (value : String) (origin : Option Origin)
  /-- A number with a point. -/
  | decimal (value : Binary64) (origin : Option Origin)
  /-- A variable. -/
  | var (name : String) (origin : Option Origin)
  /-- A function applied to an argument. -/
  | app (name : String) (body : Expr) (origin : Option Origin)
  /-- The negation of an expression. -/
  | neg (body : Expr) (origin : Option Origin)
  /-- A chain of operations. -/
  | seq (operations : List Operation) (origin : Option Origin)

/-- One link of a sequence. -/
structure Operation where
  /-- The operator; the first link of a sequence has none. -/
  method : Option Method
  /-- The operand to the right of the operator. -/
  operand : Expr
  /-- The part of the parse tree that the link was built from. -/
  origin : Option Origin

end

instance : Inhabited Expr := ⟨.var "" none⟩

namespace Expr

/-- The kind of an expression. -/
def kind : Expr → NodeKind
  | integer .. => .integer
  | decimal .. => .decimal
  | var .. => .var
  | app .. => .app
  | neg .. => .neg
  | seq .. => .seq

/-- Where an expression was built from. -/
def origin : Expr → Option Origin
  | integer _ origin => origin
  | decimal _ origin => origin
  | var _ origin => origin
  | app _ _ origin => origin
  | neg _ origin => origin
  | seq _ origin => origin

/-- The sequence of a first operand and further operands, each with the operator before it. -/
def chain (first : Expr) (rest : List (Method × Expr)) : Expr :=
  .seq (⟨none, first, none⟩ :: rest.map fun (method, operand) => ⟨some method, operand, none⟩) none

end Expr

/-- The operators of a list of operations, in order. -/
def Operation.methods (operations : List Operation) : List Method :=
  operations.filterMap Operation.method

/-! ## Nodes -/

/-- A node of an expression: an expression, or an operation inside a sequence. -/
inductive Node where
  /-- An expression. -/
  | expr (expr : Expr)
  /-- A link of a sequence. -/
  | operation (operation : Operation)

namespace Node

/-- The kind of a node. -/
def kind : Node → NodeKind
  | expr e => e.kind
  | operation _ => .operation

/-- Where a node was built from. -/
def origin : Node → Option Origin
  | expr e => e.origin
  | operation o => o.origin

/-- The nodes directly below a node, in order. -/
def children : Node → List Node
  | expr (.app _ body _) => [expr body]
  | expr (.neg body _) => [expr body]
  | expr (.seq operations _) => operations.map operation
  | expr _ => []
  | operation o => [expr o.operand]

end Node

end AlgebraText
