import AlgebraText.Walk.Place
import Mathlib.Logic.Relation

/-!
# Places below a start

Nodes are told apart by their places. Siblings stand at different positions, and a child stands one
step further from the root than its parent, so the nodes from a start on are all at different
places. Two consequences are used throughout: a node has only one parent, and siblings have nothing
below them in common.

## What this module delivers

* `Located.induction`, from the children of a node to the node;
* `Located.Below` and `Located.Above`, descent in any number of steps and in at least one;
* `Located.Below.eq_of_place_eq`: the place of a node below a start determines the node;
* `Located.Below.parent_unique` and `Located.Below.child_unique`: one parent, and one child on the
  way down;
* `Located.mem_preorder_iff` and `Located.pairwise_place_preorder`: the nodes from a start on are
  those below it, each at a place of its own.
-/

set_option autoImplicit false

namespace AlgebraText

theorem Node.sizeOf_of_mem_children {parent child : Node} (h : child ∈ parent.children) :
    sizeOf child < sizeOf parent := by
  match parent, h with
  | .operation ⟨method, operand, origin⟩, h =>
      obtain rfl := List.mem_singleton.1 h
      simp only [Node.expr.sizeOf_spec, Node.operation.sizeOf_spec, Operation.mk.sizeOf_spec]
      omega
  | .expr (.app name body origin), h =>
      obtain rfl := List.mem_singleton.1 h
      simp only [Node.expr.sizeOf_spec, Expr.app.sizeOf_spec]
      omega
  | .expr (.neg body origin), h =>
      obtain rfl := List.mem_singleton.1 h
      simp only [Node.expr.sizeOf_spec, Expr.neg.sizeOf_spec]
      omega
  | .expr (.seq operations origin), h =>
      obtain ⟨operation, hoperation, rfl⟩ := List.mem_map.1 h
      have hlt := List.sizeOf_lt_of_mem hoperation
      simp only [Node.expr.sizeOf_spec, Node.operation.sizeOf_spec, Expr.seq.sizeOf_spec]
      omega
  | .expr (.integer ..), h => cases h
  | .expr (.decimal ..), h => cases h
  | .expr (.var ..), h => cases h

namespace Place

theorem child_inj {place place' : Place} {position position' : Nat}
    (h : place.child position = place'.child position') :
    place = place' ∧ position = position' := by
  obtain ⟨tree, path⟩ := place
  obtain ⟨tree', path'⟩ := place'
  rw [child, child, mk.injEq, List.cons.injEq] at h
  obtain ⟨rfl, rfl, rfl⟩ := h
  exact ⟨rfl, rfl⟩

@[simp]
theorem depth_child (place : Place) (position : Nat) :
    (place.child position).depth = place.depth + 1 := rfl

end Place

namespace Located

/-! ## Children -/

/-- Siblings are nodes of the list, each at the place of its position. -/
theorem place_of_mem_siblings {place : Place} {position : Nat} {nodes : List Node}
    {located : Located} (h : located ∈ siblings place position nodes) :
    ∃ i, nodes[i]? = some located.node ∧ located.place = place.child (position + i) := by
  induction nodes generalizing position with
  | nil => cases h
  | cons node rest ih =>
      rw [siblings, List.mem_cons] at h
      rcases h with rfl | h
      · exact ⟨0, rfl, rfl⟩
      · obtain ⟨i, hnode, hplace⟩ := ih h
        refine ⟨i + 1, hnode, ?_⟩
        rw [hplace, Nat.add_right_comm, Nat.add_assoc]

theorem pairwise_place_siblings (place : Place) (position : Nat) (nodes : List Node) :
    (siblings place position nodes).Pairwise fun a b => a.place ≠ b.place := by
  induction nodes generalizing position with
  | nil => exact .nil
  | cons node rest ih =>
      rw [siblings, List.pairwise_cons]
      refine ⟨?_, ih (position + 1)⟩
      intro later hlater heq
      obtain ⟨i, -, hplace⟩ := place_of_mem_siblings hlater
      have hposition := (Place.child_inj (heq.trans hplace)).2
      omega

theorem exists_place_of_mem_children {parent child : Located} (h : child ∈ parent.children) :
    ∃ i, parent.node.children[i]? = some child.node ∧ child.place = parent.place.child i := by
  obtain ⟨i, hnode, hplace⟩ := place_of_mem_siblings h
  rw [Nat.zero_add] at hplace
  exact ⟨i, hnode, hplace⟩

/-- A child is one step further from the root than its parent. -/
theorem depth_of_mem_children {parent child : Located} (h : child ∈ parent.children) :
    child.place.depth = parent.place.depth + 1 := by
  obtain ⟨i, -, hplace⟩ := exists_place_of_mem_children h
  rw [hplace, Place.depth_child]

/-- Children at one place have parents at one place. -/
theorem parent_place_eq {parent parent' child child' : Located} (h : child ∈ parent.children)
    (h' : child' ∈ parent'.children) (hplace : child.place = child'.place) :
    parent.place = parent'.place := by
  obtain ⟨i, -, hi⟩ := exists_place_of_mem_children h
  obtain ⟨j, -, hj⟩ := exists_place_of_mem_children h'
  rw [hi, hj] at hplace
  exact (Place.child_inj hplace).1

/-- Different children of a node stand at different places. -/
theorem child_eq_of_place_eq {parent child child' : Located} (h : child ∈ parent.children)
    (h' : child' ∈ parent.children) (hplace : child.place = child'.place) : child = child' := by
  obtain ⟨i, hnode, hi⟩ := exists_place_of_mem_children h
  obtain ⟨j, hnode', hj⟩ := exists_place_of_mem_children h'
  obtain ⟨place, node⟩ := child
  obtain ⟨place', node'⟩ := child'
  obtain rfl : place = place' := hplace
  obtain rfl : i = j := (Place.child_inj (hi.symm.trans hj)).2
  obtain rfl : node = node' := Option.some.inj (hnode.symm.trans hnode')
  rfl

/-- A child is a smaller tree than its parent. -/
theorem sizeOf_of_mem_children {parent child : Located} (h : child ∈ parent.children) :
    sizeOf child.node < sizeOf parent.node := by
  obtain ⟨i, hnode, -⟩ := exists_place_of_mem_children h
  exact Node.sizeOf_of_mem_children (List.mem_of_getElem? hnode)

/-- What holds of a node whenever it holds of its children holds of every node. -/
theorem induction {motive : Located → Prop}
    (step : ∀ node, (∀ child ∈ node.children, motive child) → motive node) (node : Located) :
    motive node :=
  step node fun child _hchild => induction step child
termination_by sizeOf node.node
decreasing_by exact sizeOf_of_mem_children _hchild

/-! ## Descent -/

/-- A node is below a start if steps from nodes to their children lead to it, or it is the start. -/
def Below : Located → Located → Prop :=
  Relation.ReflTransGen fun parent child => child ∈ parent.children

/-- A node is above another if at least one such step leads from it to the other. -/
def Above : Located → Located → Prop :=
  Relation.TransGen fun parent child => child ∈ parent.children

theorem below_iff {start node : Located} :
    start.Below node ↔ node = start ∨ ∃ child ∈ start.children, child.Below node := by
  rw [Below, Relation.ReflTransGen.cases_head_iff, eq_comm]

theorem above_iff {above node : Located} :
    above.Above node ↔ ∃ child ∈ above.children, child.Below node := by
  rw [Above, Relation.TransGen.head'_iff]
  rfl

theorem above_iff_parent {above node : Located} :
    above.Above node ↔ ∃ parent, above.Below parent ∧ node ∈ parent.children := by
  rw [Above, Relation.TransGen.tail'_iff]
  rfl

theorem Above.below {above node : Located} (h : above.Above node) : above.Below node :=
  Relation.TransGen.to_reflTransGen h

theorem Below.trans {start middle node : Located} (h : start.Below middle)
    (h' : middle.Below node) : start.Below node :=
  Relation.ReflTransGen.trans h h'

/-- A node below a start is the start, or has its parent below the start. -/
theorem Below.cases_parent {start node : Located} (h : start.Below node) :
    node = start ∨ ∃ parent, start.Below parent ∧ node ∈ parent.children :=
  Relation.ReflTransGen.cases_tail h

/-- The way to a node below a start continues the way to the start. -/
theorem Below.exists_path {start node : Located} (h : start.Below node) :
    ∃ steps, node.place = ⟨start.place.tree, steps ++ start.place.path⟩ := by
  induction h with
  | refl => exact ⟨[], rfl⟩
  | @tail parent child _ hchild ih =>
      obtain ⟨steps, hparent⟩ := ih
      obtain ⟨i, -, hplace⟩ := exists_place_of_mem_children hchild
      refine ⟨i :: steps, ?_⟩
      rw [hplace, hparent]
      rfl

theorem Below.depth_le {start node : Located} (h : start.Below node) :
    start.place.depth ≤ node.place.depth := by
  obtain ⟨steps, hplace⟩ := h.exists_path
  rw [hplace, Place.depth, Place.depth, List.length_append]
  omega

theorem Above.depth_lt {above node : Located} (h : above.Above node) :
    above.place.depth < node.place.depth := by
  obtain ⟨child, hchild, hbelow⟩ := above_iff.1 h
  have hdepth := depth_of_mem_children hchild
  have hle := hbelow.depth_le
  omega

/-- **The place of a node below a start determines the node.** -/
theorem Below.eq_of_place_eq {start a b : Located} (ha : start.Below a) (hb : start.Below b)
    (h : a.place = b.place) : a = b := by
  induction ha generalizing b with
  | refl =>
      rcases hb.cases_parent with rfl | hparent
      · rfl
      · have hlt := (above_iff_parent.2 hparent).depth_lt
        rw [h] at hlt
        exact absurd hlt (Nat.lt_irrefl _)
  | @tail parent a hparent ha ih =>
      rcases hb.cases_parent with rfl | ⟨parent', hparent', hb⟩
      · have hlt := (above_iff_parent.2 ⟨parent, hparent, ha⟩).depth_lt
        rw [h] at hlt
        exact absurd hlt (Nat.lt_irrefl _)
      · obtain rfl : parent = parent' := ih hparent' (parent_place_eq ha hb h)
        exact child_eq_of_place_eq ha hb h

/-- A node has one parent below a start. -/
theorem Below.parent_unique {start parent parent' node : Located} (h : start.Below parent)
    (h' : start.Below parent') (hnode : node ∈ parent.children) (hnode' : node ∈ parent'.children) :
    parent = parent' :=
  h.eq_of_place_eq h' (parent_place_eq hnode hnode' rfl)

/-- Children with a place below them in common are one child. -/
theorem Below.child_unique {parent child child' a b : Located} (h : child ∈ parent.children)
    (h' : child' ∈ parent.children) (ha : child.Below a) (hb : child'.Below b)
    (hplace : a.place = b.place) : child = child' := by
  apply child_eq_of_place_eq h h'
  obtain ⟨steps, hsteps⟩ := ha.exists_path
  obtain ⟨steps', hsteps'⟩ := hb.exists_path
  obtain ⟨i, -, hi⟩ := exists_place_of_mem_children h
  obtain ⟨j, -, hj⟩ := exists_place_of_mem_children h'
  rw [hi] at hsteps
  rw [hj] at hsteps'
  rw [hsteps, hsteps', Place.mk.injEq] at hplace
  -- both ways end with the way to the child, and these are equally long
  have hpath := (List.append_inj' hplace.2 rfl).2
  rw [hi, hj, (List.cons.inj hpath).1]

/-! ## The list of the nodes -/

theorem mem_preorder {start node : Located} :
    node ∈ start.preorder ↔ node = start ∨ ∃ child ∈ start.children, node ∈ child.preorder := by
  rw [preorder_eq, List.mem_cons, List.mem_flatMap]

/-- The nodes from a start on are the nodes below it. -/
theorem mem_preorder_iff {start node : Located} : node ∈ start.preorder ↔ start.Below node := by
  induction start using induction with
  | step start ih =>
      rw [mem_preorder, below_iff]
      apply or_congr_right
      apply exists_congr
      intro child
      apply and_congr_right
      exact ih child

/-- **No two nodes from a start on are at one place.** -/
theorem pairwise_place_preorder (start : Located) :
    start.preorder.Pairwise fun a b => a.place ≠ b.place := by
  induction start using induction with
  | step start ih =>
      rw [preorder_eq, List.pairwise_cons, List.pairwise_flatMap]
      refine ⟨?_, ih, ?_⟩
      · intro node hnode hplace
        obtain ⟨child, hchild, hnode⟩ := List.mem_flatMap.1 hnode
        have hlt := (above_iff.2 ⟨child, hchild, mem_preorder_iff.1 hnode⟩).depth_lt
        rw [hplace] at hlt
        exact Nat.lt_irrefl _ hlt
      · refine (pairwise_place_siblings _ _ _).imp_of_mem ?_
        intro child child' hchild hchild' hne a ha b hb hplace
        apply hne
        rw [Below.child_unique hchild hchild' (mem_preorder_iff.1 ha) (mem_preorder_iff.1 hb)
          hplace]

end Located

end AlgebraText
