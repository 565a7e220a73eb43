import AlgebraText.Binary64.Shortest
import AlgebraText.Expr

/-!
# Printing expressions

Expressions are printed with the parentheses that their reading needs and no others. Parentheses
are derived from the priorities of the operators, not remembered from a source: an operand that is
a sequence is parenthesized if its loosest operator binds no tighter than the loosest operator of
the sequence around it. A negated negation and a negated sequence are parenthesized as well.

## What this module delivers

* `Operation.priority?` and `Expr.priority?`, the binding strength of a sequence;
* `Expr.needsParens`, whether an operand is parenthesized;
* `Expr.print`, `Operation.print` and `Node.print`.
-/

set_option autoImplicit false

namespace AlgebraText

/-- The priority of the loosest operator among operations. -/
def Operation.loosest? (operations : List Operation) : Option Nat :=
  ((Operation.methods operations).map Method.priority).min?

mutual

/-- The priority of an expression that is a sequence; other expressions have none. -/
def Expr.priority? : Expr → Option Nat
  | .seq operations _ => Operation.priority? operations
  | _ => none

/-- The priority of the sequence of some operations: that of its loosest operator. A sequence
without operators groups nothing itself and has the priority of its first operand. -/
def Operation.priority? : List Operation → Option Nat
  | [] => none
  | ⟨method, operand, origin⟩ :: rest =>
    (Operation.loosest? (⟨method, operand, origin⟩ :: rest)).or operand.priority?

end

namespace Expr

/-- Whether an expression is parenthesized as an operand of a sequence whose loosest operator has
the given priority. -/
def needsParens (enclosing : Option Nat) (e : Expr) : Bool :=
  match e.priority?, enclosing with
  | some inner, some outer => inner ≤ outer
  | _, _ => false

/-- Whether the body of a negation is parenthesized. A minus sign binds to the first operand of a
sequence only, and two signs in a row cannot be read. -/
def needsParensNegated : Expr → Bool
  | neg .. => true
  | seq .. => true
  | _ => false

end Expr

/-- A text in parentheses, if they are needed. -/
def parenthesized (needed : Bool) (text : String) : String :=
  if needed then "(" ++ text ++ ")" else text

mutual

/-- The text of an expression. -/
def Expr.print : Expr → String
  | .integer value _ => value
  | .decimal value _ => value.literal
  | .var name _ => name
  | .app name body _ => name ++ "[" ++ body.print ++ "]"
  | .neg body _ => "-" ++ parenthesized body.needsParensNegated body.print
  | .seq operations _ => Operation.printList (Operation.loosest? operations) operations

/-- The text of an operation inside a sequence whose loosest operator has the given priority. -/
def Operation.printWithin (enclosing : Option Nat) : Operation → String
  | ⟨method, operand, _⟩ =>
    (method.map Method.between).getD "" ++
      parenthesized (operand.needsParens enclosing) operand.print

/-- The text of operations inside such a sequence. -/
def Operation.printList (enclosing : Option Nat) : List Operation → String
  | [] => ""
  | operation :: rest => operation.printWithin enclosing ++ Operation.printList enclosing rest

end

/-- The text of an operation on its own, as if its operator were the loosest around it. -/
def Operation.print (operation : Operation) : String :=
  operation.printWithin (operation.method.map Method.priority)

/-- The text of a node. -/
def Node.print : Node → String
  | .expr e => e.print
  | .operation o => o.print

end AlgebraText
