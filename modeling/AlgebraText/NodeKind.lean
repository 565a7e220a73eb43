/-!
# Kinds of node

The nodes of an expression come in seven kinds: three sorts of leaf, function applications,
negations, sequences, and the operations that sequences consist of.

## What this module delivers

* `NodeKind`, with its word in messages (`NodeKind.word`) and its name (`NodeKind.label`).
-/

set_option autoImplicit false

namespace AlgebraText

/-- The seven kinds of node. -/
inductive NodeKind where
  /-- A number without a point. -/
  | integer
  /-- A number with a point. -/
  | decimal
  /-- A variable. -/
  | var
  /-- A function application. -/
  | app
  /-- A negation. -/
  | neg
  /-- One link of a sequence: an operator and the operand to its right. -/
  | operation
  /-- A chain of operations. -/
  | seq
deriving DecidableEq, Repr, Inhabited

namespace NodeKind

/-- The word for a kind in messages. -/
def word : NodeKind → String
  | integer => "integer"
  | decimal => "decimal"
  | var => "variable"
  | app => "function"
  | neg => "negation"
  | operation => "operation"
  | seq => "sequence"

/-- The name of a kind. -/
def label : NodeKind → String
  | integer => "Integer"
  | decimal => "Decimal"
  | var => "Variable"
  | app => "Function"
  | neg => "Negation"
  | operation => "Operation"
  | seq => "Sequence"

/-- All kinds, leaves first. -/
def all : List NodeKind := [integer, decimal, var, app, neg, operation, seq]

/-- The kind with a given name. -/
def ofLabel? (text : String) : Option NodeKind :=
  all.find? fun kind => kind.label == text

end NodeKind

end AlgebraText
