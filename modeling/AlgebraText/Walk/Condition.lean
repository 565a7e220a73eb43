import AlgebraText.Expr.Printer
import AlgebraText.Walk.Query

/-!
# Conditions on nodes

Conditions that a query can be run with. Some of them look at the node, others only count how often
they have been asked.

## What this module delivers

* `Condition`, and `Condition.holds` for a node and the number of the call;
* `Condition.counting`, a condition as a predicate whose state is the number of calls so far.
-/

set_option autoImplicit false

namespace AlgebraText

/-- A condition on nodes. -/
inductive Condition where
  /-- Every node. -/
  | any
  /-- No node. -/
  | none
  /-- Nodes with the given text. -/
  | print (text : String)
  /-- Nodes whose text contains the given one. -/
  | contains (text : String)
  /-- Variables and functions of a name. -/
  | name (name : String)
  /-- Operations with the given operator, or without one. -/
  | method (method : Option Method)
  /-- Nodes of a kind. -/
  | kind (kind : NodeKind)
  /-- Every call whose number is a multiple of the given one. -/
  | every (period : Nat)
  /-- The call of the given number. -/
  | call (number : Nat)
  /-- Nodes that were built from a parse tree. -/
  | hasOrigin
  /-- Nodes with the given number of children. -/
  | children (count : Nat)

/-- Whether a list of characters occurs in another. -/
def occursIn (part : List Char) : List Char → Bool
  | [] => part.isEmpty
  | c :: cs => part.isPrefixOf (c :: cs) || occursIn part cs

namespace Node

/-- The name of a variable or of a function. -/
def name? : Node → Option String
  | expr (.var name _) => some name
  | expr (.app name _ _) => some name
  | _ => none

/-- The operator of an operation, which may be missing. -/
def method? : Node → Option (Option Method)
  | operation o => some o.method
  | _ => none

end Node

namespace Condition

/-- Whether a condition holds of a node at the call of the given number, counted from one. -/
def holds (node : Node) (call : Nat) : Condition → Bool
  | any => true
  | none => false
  | print text => node.print == text
  | contains text => occursIn text.toList node.print.toList
  | name n => node.name? == some n
  | method m => node.method? == some m
  | kind k => node.kind == k
  | every period => call % period == 0
  | .call number => call == number
  | hasOrigin => node.origin.isSome
  | children count => node.children.length == count

/-- A condition as a predicate that counts its calls. -/
def counting (condition : Condition) (located : Located) : StateM Nat Bool := fun calls =>
  (condition.holds located.node (calls + 1), calls + 1)

end Condition

/-- Breaks off with the text of the first node of which a condition holds. -/
def Located.firstText (start : Located) (condition : Condition) : StateM Nat (Option String) :=
  start.tryForAll fun located calls =>
    let (found, calls) := condition.counting located calls
    (if found then some located.node.print else none, calls)

end AlgebraText
