import AlgebraText.Walk.Place

/-!
# Visiting a tree

A visitor carries a state through a tree. At each node it is called twice: once for any node, and
then once for the kind of the node. The second call receives the descent into the children and
decides whether to take it, so a visitor can leave out a subtree.

## What this module delivers

* `Visitor`, with defaults that change nothing and always descend;
* `Located.walk`, the walk from a node;
* `Located.walk_eq`: a walk calls the visitor at the node and hands it the walks of the children.
-/

set_option autoImplicit false

namespace AlgebraText

/-- What is done at each node of a tree. -/
structure Visitor (σ : Type) where
  /-- Called at every node, before the call for its kind. -/
  onNode : Located → σ → σ := fun _ state => state
  /-- Called for the kind of the node, with the descent into its children. -/
  onKind : Located → (σ → σ) → σ → σ := fun _ descend state => descend state

variable {σ : Type}

/-- The two calls at one node. -/
def Visitor.visit (visitor : Visitor σ) (located : Located) (descend : σ → σ) (state : σ) : σ :=
  visitor.onKind located descend (visitor.onNode located state)

mutual

/-- The walk over an expression at a place. -/
def Expr.walkAt (visitor : Visitor σ) (place : Place) : Expr → σ → σ
  | .integer value origin => visitor.visit ⟨place, .expr (.integer value origin)⟩ id
  | .decimal value origin => visitor.visit ⟨place, .expr (.decimal value origin)⟩ id
  | .var name origin => visitor.visit ⟨place, .expr (.var name origin)⟩ id
  | .app name body origin =>
    visitor.visit ⟨place, .expr (.app name body origin)⟩ (body.walkAt visitor (place.child 0))
  | .neg body origin =>
    visitor.visit ⟨place, .expr (.neg body origin)⟩ (body.walkAt visitor (place.child 0))
  | .seq operations origin =>
    visitor.visit ⟨place, .expr (.seq operations origin)⟩
      (Operation.walkAtList visitor place 0 operations)

/-- The walk over an operation at a place. -/
def Operation.walkAt (visitor : Visitor σ) (place : Place) : Operation → σ → σ
  | ⟨method, operand, origin⟩ =>
    visitor.visit ⟨place, .operation ⟨method, operand, origin⟩⟩
      (operand.walkAt visitor (place.child 0))

/-- The walk over operations that stand side by side below a place. -/
def Operation.walkAtList (visitor : Visitor σ) (place : Place) (position : Nat) :
    List Operation → σ → σ
  | [], state => state
  | operation :: rest, state =>
    Operation.walkAtList visitor place (position + 1) rest
      (operation.walkAt visitor (place.child position) state)

end

/-- The walk from a node. -/
def Located.walk (visitor : Visitor σ) (located : Located) : σ → σ :=
  match located.node with
  | .expr e => e.walkAt visitor located.place
  | .operation o => o.walkAt visitor located.place

/-- Walks one after the other. -/
def Located.walkAll (visitor : Visitor σ) (nodes : List Located) (state : σ) : σ :=
  nodes.foldl (fun state located => located.walk visitor state) state

/-- Operations side by side are walked one after the other. -/
theorem Operation.walkAtList_eq (visitor : Visitor σ) (place : Place) (position : Nat)
    (operations : List Operation) (state : σ) :
    Operation.walkAtList visitor place position operations state =
      Located.walkAll visitor
        (Located.siblings place position (operations.map Node.operation)) state := by
  induction operations generalizing position state with
  | nil => simp [Operation.walkAtList, Located.siblings, Located.walkAll]
  | cons operation rest ih =>
    simp [Operation.walkAtList, Located.siblings, Located.walkAll, Located.walk, ih]

/-- A walk visits the node, and its descent walks the children in order. -/
theorem Located.walk_eq (visitor : Visitor σ) (located : Located) :
    located.walk visitor =
      visitor.visit located (Located.walkAll visitor located.children) := by
  obtain ⟨place, node⟩ := located
  cases node with
  | operation o =>
    obtain ⟨method, operand, origin⟩ := o
    funext state
    simp only [Located.walk, Operation.walkAt, Located.children, Node.children, Located.siblings]
    rfl
  | expr e =>
    funext state
    cases e with
    | seq operations origin =>
      simp only [Located.walk, Expr.walkAt, Located.children, Node.children]
      congr 1
      funext later
      exact Operation.walkAtList_eq visitor place 0 operations later
    | _ =>
      simp only [Located.walk, Expr.walkAt, Located.children, Node.children, Located.siblings]
      rfl

end AlgebraText
