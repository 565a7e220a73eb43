import AlgebraText.Rule

/-!
# Operators

The five binary operators. An operator of higher priority binds its operands more tightly; addition
and subtraction share one level, and every other operator has a level of its own.

## What this module delivers

* `Method`, with its priority, its symbol and the chain rule it belongs to;
* `Method.ofToken?`, the operator that a token stands for;
* `Method.between`, the operator as it is written between two operands.
-/

set_option autoImplicit false

namespace AlgebraText

/-- The binary operators. -/
inductive Method where
  /-- Raising to a power. -/
  | power
  /-- Division. -/
  | divide
  /-- Multiplication. -/
  | multiply
  /-- Addition. -/
  | add
  /-- Subtraction. -/
  | subtract
deriving DecidableEq, Repr, Inhabited

namespace Method

/-- The binding strength of an operator. -/
def priority : Method → Nat
  | power => 5
  | divide => 4
  | multiply => 3
  | add | subtract => 2

/-- The sign of an operator. -/
def symbol : Method → String
  | power => "^"
  | divide => "/"
  | multiply => "*"
  | add => "+"
  | subtract => "-"

/-- The name of an operator. -/
def label : Method → String
  | power => "Power"
  | divide => "Divide"
  | multiply => "Multiply"
  | add => "Add"
  | subtract => "Subtract"

/-- All operators, the tightest first. -/
def all : List Method := [power, divide, multiply, add, subtract]

/-- The operator with a given name. -/
def ofLabel? (text : String) : Option Method :=
  all.find? fun method => method.label == text

/-- The operator that a token of a kind stands for. -/
def ofToken? : TokenKind → Option Method
  | .exp => some power
  | .div => some divide
  | .mul => some multiply
  | .add => some add
  | .sub => some subtract
  | _ => none

/-- The chain rule that consumes an operator. -/
def rule : Method → Rule
  | power => .power
  | divide => .divide
  | multiply => .multiply
  | add | subtract => .additive

/-- The operator as it is written between two operands: the tightest one without spaces, the others
with a space on either side. -/
def between : Method → String
  | power => "^"
  | method => " " ++ method.symbol ++ " "

end Method

end AlgebraText
