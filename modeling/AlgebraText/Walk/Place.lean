import AlgebraText.Expr

/-!
# Places in a tree

Two nodes of a tree may look alike, so a node is identified by its place: the tree it belongs to,
and the path that leads to it. A located node is a node together with its place.

## What this module delivers

* `Place` and `Located`, with `Located.children`;
* `Located.preorder`, the nodes from a start on, each before the nodes below it;
* `Located.preorder_eq`: a node is followed by the lists of its children in order.
-/

set_option autoImplicit false

namespace AlgebraText

/-- Where a node stands. -/
structure Place where
  /-- The number of the tree. -/
  tree : Nat
  /-- The positions among siblings on the way to the node, the last one first. -/
  path : List Nat
deriving DecidableEq, Repr

namespace Place

/-- The place of the root of a tree. -/
def root (tree : Nat) : Place := ⟨tree, []⟩

/-- The place of a child. -/
def child (place : Place) (position : Nat) : Place := ⟨place.tree, position :: place.path⟩

/-- How far a place is from the root of its tree. -/
def depth (place : Place) : Nat := place.path.length

end Place

/-- A node with its place. -/
structure Located where
  /-- Where the node stands. -/
  place : Place
  /-- The node. -/
  node : Node

namespace Located

/-- The root of the tree of an expression. -/
def root (tree : Nat) (e : Expr) : Located := ⟨Place.root tree, .expr e⟩

/-- Nodes that stand side by side below a place, the first one at a given position. -/
def siblings (place : Place) : Nat → List Node → List Located
  | _, [] => []
  | position, node :: rest => ⟨place.child position, node⟩ :: siblings place (position + 1) rest

/-- The nodes directly below a node, in order. -/
def children (located : Located) : List Located := siblings located.place 0 located.node.children

/-- The kind of a located node. -/
def kind (located : Located) : NodeKind := located.node.kind

end Located

mutual

/-- The nodes of an expression at a place, each before the nodes below it. -/
def Expr.preorderAt (place : Place) : Expr → List Located
  | .integer value origin => [⟨place, .expr (.integer value origin)⟩]
  | .decimal value origin => [⟨place, .expr (.decimal value origin)⟩]
  | .var name origin => [⟨place, .expr (.var name origin)⟩]
  | .app name body origin =>
    ⟨place, .expr (.app name body origin)⟩ :: body.preorderAt (place.child 0)
  | .neg body origin => ⟨place, .expr (.neg body origin)⟩ :: body.preorderAt (place.child 0)
  | .seq operations origin =>
    ⟨place, .expr (.seq operations origin)⟩ :: Operation.preorderAtList place 0 operations

/-- The nodes of an operation at a place. -/
def Operation.preorderAt (place : Place) : Operation → List Located
  | ⟨method, operand, origin⟩ =>
    ⟨place, .operation ⟨method, operand, origin⟩⟩ :: operand.preorderAt (place.child 0)

/-- The nodes of operations that stand side by side below a place. -/
def Operation.preorderAtList (place : Place) (position : Nat) : List Operation → List Located
  | [] => []
  | operation :: rest =>
    operation.preorderAt (place.child position) ++
      Operation.preorderAtList place (position + 1) rest

end

/-- The nodes from a start on, each before the nodes below it. -/
def Located.preorder (located : Located) : List Located :=
  match located.node with
  | .expr e => e.preorderAt located.place
  | .operation o => o.preorderAt located.place

/-- Operations side by side are listed one after the other. -/
theorem Operation.preorderAtList_eq (place : Place) (position : Nat) (operations : List Operation) :
    Operation.preorderAtList place position operations =
      (Located.siblings place position (operations.map Node.operation)).flatMap
        Located.preorder := by
  induction operations generalizing position with
  | nil => simp [Operation.preorderAtList, Located.siblings]
  | cons operation rest ih =>
    simp [Operation.preorderAtList, Located.siblings, Located.preorder, ih]

/-- A node comes first, then the nodes of each of its children in order. -/
theorem Located.preorder_eq (located : Located) :
    located.preorder = located :: located.children.flatMap Located.preorder := by
  obtain ⟨place, node⟩ := located
  cases node with
  | operation o =>
    obtain ⟨method, operand, origin⟩ := o
    simp [Located.preorder, Operation.preorderAt, Located.children, Node.children,
      Located.siblings]
  | expr e =>
    cases e <;>
      simp [Located.preorder, Expr.preorderAt, Located.children, Node.children,
        Located.siblings, Operation.preorderAtList_eq]

end AlgebraText
