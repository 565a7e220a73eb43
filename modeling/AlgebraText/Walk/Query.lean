import AlgebraText.Walk.Visitor

/-!
# Queries

A query walks a tree and collects or acts as it goes. The predicates and actions of a query may
carry a state of their own, which they see in the order of the walk.

## What this module delivers

* `Located.forAll`, an action on every node;
* `Located.tryForAll`, an action that may break off;
* `Located.findAll`, the nodes that a selection and a predicate accept, with `Located.ofKind?` for
  the nodes of one kind, and `Located.findKind` with the kind chosen at run time.
-/

set_option autoImplicit false

namespace AlgebraText

namespace Located

variable {σ α β : Type}

/-- Acts on every node from a start on. -/
def forAll (start : Located) (action : Located → σ → σ) : σ → σ :=
  start.walk { onNode := action }

/-- Acts on nodes until the action breaks off with a value. The walk goes on to the end without
acting. -/
def tryForAll (start : Located) (action : Located → StateM σ (Option β)) :
    StateM σ (Option β) := fun state =>
  start.forAll
    (fun located (broken, state) =>
      match broken with
      | some value => (some value, state)
      | none => action located state)
    (none, state)

/-- The values that a selection finds among the nodes and that a predicate accepts, in the order of
the walk. The predicate is called on selected values only. -/
def findAll (start : Located) (select : Located → Option α) (predicate : α → StateM σ Bool) :
    StateM σ (List α) := fun state =>
  let (found, state) := start.forAll
    (fun located (found, state) =>
      match select located with
      | none => (found, state)
      | some value =>
        match predicate value state with
        | (true, state) => (value :: found, state)
        | (false, state) => (found, state))
    ([], state)
  (found.reverse, state)

/-- The located nodes of one kind. -/
abbrev OfKind (kind : NodeKind) : Type := { located : Located // located.kind = kind }

/-- Selects the nodes of one kind. -/
def ofKind? (kind : NodeKind) (located : Located) : Option (OfKind kind) :=
  if h : located.kind = kind then some ⟨located, h⟩ else none

/-- The nodes of a kind, or of any kind, that a predicate accepts. The predicate is called on nodes
of the kind only. -/
def findKind (start : Located) (kind : Option NodeKind) (predicate : Located → StateM σ Bool) :
    StateM σ (List Located) :=
  start.findAll some fun located =>
    if kind.all (located.kind == ·) then predicate located else pure false

/-- How many nodes of each kind there are, leaves first. -/
def countKinds (start : Located) : List Nat :=
  NodeKind.all.map fun kind => start.preorder.countP fun located => located.kind == kind

end Located

end AlgebraText
