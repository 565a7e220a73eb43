import AlgebraText.Expr

/-!
# Equality of expressions

Two expressions are equal if they have the same shape, names, digits and operators, and numerically
equal decimals. Where they came from does not matter.

## What this module delivers

* `Expr.equal`, `Operation.equal` and `Node.equal`.
-/

set_option autoImplicit false

namespace AlgebraText

mutual

/-- Equality of expressions, blind to their origins. -/
def Expr.equal : Expr → Expr → Bool
  | .integer value₁ _, .integer value₂ _ => value₁ == value₂
  | .decimal value₁ _, .decimal value₂ _ => value₁.equal value₂
  | .var name₁ _, .var name₂ _ => name₁ == name₂
  | .app name₁ body₁ _, .app name₂ body₂ _ => name₁ == name₂ && body₁.equal body₂
  | .neg body₁ _, .neg body₂ _ => body₁.equal body₂
  | .seq operations₁ _, .seq operations₂ _ => Operation.equalList operations₁ operations₂
  | _, _ => false

/-- Equality of operations, blind to their origins. -/
def Operation.equal : Operation → Operation → Bool
  | ⟨method₁, operand₁, _⟩, ⟨method₂, operand₂, _⟩ =>
    method₁ == method₂ && operand₁.equal operand₂

/-- Equality of lists of operations. -/
def Operation.equalList : List Operation → List Operation → Bool
  | [], [] => true
  | operation₁ :: rest₁, operation₂ :: rest₂ =>
    operation₁.equal operation₂ && Operation.equalList rest₁ rest₂
  | _, _ => false

end

/-- Equality of nodes. An operation equals no expression. -/
def Node.equal : Node → Node → Bool
  | .expr a, .expr b => a.equal b
  | .operation a, .operation b => a.equal b
  | _, _ => false

end AlgebraText
