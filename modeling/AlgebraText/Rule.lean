import AlgebraText.Token

/-!
# Grammar rules

The rules of the grammar, from the loosest to the atoms:

```text
expression = additive
additive   = multiply ( ("+" | "-") multiply )*
multiply   = divide ( "*" divide )*
divide     = power ( "/" power )*
power      = single ( "^" single )*
single     = "-"? ( paren | function | variable | number )
paren      = "(" expression ")"
function   = name "[" expression "]"
```

A chain rule joins operands of the next tighter level by its own operators.

## What this module delivers

* `Rule`, with the phrase each rule goes by in messages (`Rule.phrase`) and its name
  (`Rule.label`);
* `Rule.operators` and `Rule.isChain`.
-/

set_option autoImplicit false

namespace AlgebraText

/-- The grammar rules. A number is an `integer` or a `decimal`. -/
inductive Rule where
  /-- A whole expression. No node of a parse tree carries this rule. -/
  | expression
  /-- A chain of additions and subtractions. -/
  | additive
  /-- A chain of multiplications. -/
  | multiply
  /-- A chain of divisions. -/
  | divide
  /-- A chain of powers. -/
  | power
  /-- An operand with an optional minus sign before it. -/
  | single
  /-- An expression in parentheses. -/
  | paren
  /-- A function applied to an expression in square brackets. -/
  | function
  /-- A name that stands for a value. -/
  | var
  /-- A number without a point. -/
  | integer
  /-- A number with a point. -/
  | decimal
deriving DecidableEq, Repr, Inhabited

namespace Rule

/-- The phrase for a rule in messages. -/
def phrase : Rule → String
  | expression => "expression"
  | additive => "additive chain"
  | multiply => "multiplication chain"
  | divide => "division chain"
  | power => "power chain"
  | single => "operand"
  | paren => "parenthesized expression"
  | function => "function application"
  | var => "variable"
  | integer => "integer"
  | decimal => "decimal"

/-- The name of a rule in descriptions and in stored trees. -/
def label : Rule → String
  | expression => "Expression"
  | additive => "Additive"
  | multiply => "Multiply"
  | divide => "Divide"
  | power => "Power"
  | single => "Single"
  | paren => "Paren"
  | function => "Function"
  | var => "Variable"
  | integer => "Integer"
  | decimal => "Decimal"

/-- All rules, in the order of their declaration. -/
def all : List Rule :=
  [expression, additive, multiply, divide, power, single, paren, function, var, integer, decimal]

/-- The rule with a given name. -/
def ofLabel? (text : String) : Option Rule :=
  all.find? fun rule => rule.label == text

/-- The operators that a chain rule consumes between its operands; none for the other rules. -/
def operators : Rule → List TokenKind
  | additive => [.add, .sub]
  | multiply => [.mul]
  | divide => [.div]
  | power => [.exp]
  | _ => []

/-- Chain rules are the rules with operators. -/
def isChain (rule : Rule) : Bool := !rule.operators.isEmpty

end Rule

end AlgebraText
