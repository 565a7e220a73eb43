import AlgebraText.Walk.Query

/-!
# Parents

Nodes do not know what they stand in. A table of parents, filled by one walk, answers the question
for every node below its start; the start itself, nodes elsewhere in the tree and nodes of other
trees have no parent in it.

## What this module delivers

* `Parents` and `Parents.ofStart`;
* `Parents.parent?` and `Parents.ancestors`.
-/

set_option autoImplicit false

namespace AlgebraText

/-- A table from places to the nodes directly above them. -/
structure Parents where
  /-- The entries, the latest first; the first entry for a place counts. -/
  entries : List (Place × Located)

namespace Parents

/-- Enters the parent of a place. -/
def insert (parents : Parents) (place : Place) (parent : Located) : Parents :=
  ⟨(place, parent) :: parents.entries⟩

/-- Enters a node as the parent of each of its children. -/
def insertChildren (located : Located) (parents : Parents) : Parents :=
  located.children.foldl (fun table child => table.insert child.place located) parents

/-- The table of the nodes from a start on. -/
def ofStart (start : Located) : Parents := start.forAll insertChildren ⟨[]⟩

/-- The node directly above a place. -/
def parent? (parents : Parents) (place : Place) : Option Located := parents.entries.lookup place

/-- The nodes above a place, from its parent upwards. A parent is nearer to the root than its
child, so the way up ends. -/
def ancestors (parents : Parents) (place : Place) : List Located :=
  match parents.parent? place with
  | none => []
  | some parent =>
    if parent.place.depth < place.depth then parent :: parents.ancestors parent.place
    else [parent]
termination_by place.depth

end Parents

end AlgebraText
