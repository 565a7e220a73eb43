import AlgebraText.Expr

/-!
# Transforming a tree

A transformer rebuilds a tree from the leaves up. At each node it receives the node and the
transformation of what is below it, and decides what stands in its place; it need not transform the
children. Its hooks run in a monad, so they may carry a state, which they see from left to right.

## What this module delivers

* `Transformer`, with defaults that rebuild each node as it was, origins included;
* `Expr.transform`.
-/

set_option autoImplicit false

namespace AlgebraText

/-- What becomes of each kind of node. -/
structure Transformer (m : Type → Type) [Monad m] where
  /-- What becomes of an integer. -/
  integer : String → Option Origin → m Expr := fun value origin => pure (.integer value origin)
  /-- What becomes of a decimal. -/
  decimal : Binary64 → Option Origin → m Expr := fun value origin => pure (.decimal value origin)
  /-- What becomes of a variable. -/
  var : String → Option Origin → m Expr := fun name origin => pure (.var name origin)
  /-- What becomes of a function application, given the transformation of its argument. -/
  app : String → Expr → Option Origin → m Expr → m Expr := fun name _ origin descend => do
    let body ← descend
    pure (.app name body origin)
  /-- What becomes of a negation, given the transformation of its body. -/
  neg : Expr → Option Origin → m Expr → m Expr := fun _ origin descend => do
    let body ← descend
    pure (.neg body origin)
  /-- What becomes of an operation, given the transformation of its operand. -/
  operation : Operation → m Expr → m Operation := fun o descend => do
    let operand ← descend
    pure ⟨o.method, operand, o.origin⟩
  /-- What becomes of a sequence, given the transformation of its operations. -/
  seq : List Operation → Option Origin → m (List Operation) → m Expr := fun _ origin descend => do
    let operations ← descend
    pure (.seq operations origin)

variable {m : Type → Type} [Monad m]

mutual

/-- What a transformer makes of an expression. -/
def Expr.transform (transformer : Transformer m) : Expr → m Expr
  | .integer value origin => transformer.integer value origin
  | .decimal value origin => transformer.decimal value origin
  | .var name origin => transformer.var name origin
  | .app name body origin => transformer.app name body origin (body.transform transformer)
  | .neg body origin => transformer.neg body origin (body.transform transformer)
  | .seq operations origin =>
    transformer.seq operations origin (Operation.transformList transformer operations)

/-- What a transformer makes of an operation. -/
def Operation.transform (transformer : Transformer m) : Operation → m Operation
  | ⟨method, operand, origin⟩ =>
    transformer.operation ⟨method, operand, origin⟩ (operand.transform transformer)

/-- What a transformer makes of operations, from left to right. -/
def Operation.transformList (transformer : Transformer m) : List Operation → m (List Operation)
  | [] => pure []
  | operation :: rest => do
    let first ← operation.transform transformer
    let others ← Operation.transformList transformer rest
    pure (first :: others)

end

end AlgebraText
