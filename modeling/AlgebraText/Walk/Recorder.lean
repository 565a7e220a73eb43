import AlgebraText.Expr.Printer
import AlgebraText.Walk.Visitor

/-!
# Recording a walk

## What this module delivers

* `Visit`, a call that a visitor received, and `recorder`, the visitor that notes its calls and
  leaves out what is below nodes of some kinds;
* `shallowVariables`, which counts the variables outside of functions.
-/

set_option autoImplicit false

namespace AlgebraText

/-- A call that a visitor received. -/
inductive Visit where
  /-- The call for any node. -/
  | node (located : Located)
  /-- The call for the kind of a node. -/
  | hook (located : Located)

/-- Notes every call, the latest first, and descends except below nodes of the given kinds. -/
def recorder (skipped : List NodeKind) : Visitor (List Visit) where
  onNode located visits := .node located :: visits
  onKind located descend visits :=
    if located.kind ∈ skipped then .hook located :: visits
    else descend (.hook located :: visits)

/-- The calls that a walk makes, in order. -/
def Located.visits (start : Located) (skipped : List NodeKind) : List Visit :=
  (start.walk (recorder skipped) []).reverse

/-- Counts variables and does not look inside functions. -/
def variableCounter : Visitor Nat where
  onKind located descend count :=
    match located.kind with
    | .var => count + 1
    | .app => count
    | _ => descend count

/-- The number of variables outside of functions. -/
def Located.shallowVariables (start : Located) : Nat := start.walk variableCounter 0

end AlgebraText
