import AlgebraText.Proofs.Walk.Places
import AlgebraText.Walk.Recorder
import Mathlib.Data.List.Basic
import Mathlib.Data.List.Flatten

/-!
# What a walk reaches

A visitor may leave out what is below some nodes. How its walk goes is then known from a list: the
nodes it reaches, each before the nodes below it. This list can be drawn up without a walk, from the
children of nodes alone, and a visitor that does the same at every node works through it from left
to right.

## What this module delivers

* `Located.reached`, the nodes that a walk reaches, with `Located.mem_reached_iff` and
  `Located.reached_sublist_preorder`;
* `Located.walk_eq_foldl`: a walk works through the nodes that it reaches;
* `visits_eq_preorder`: the calls that a visitor receives, one pair for each node reached.
-/

set_option autoImplicit false

namespace AlgebraText

namespace Located

variable {σ : Type} {skipped : List NodeKind}

/-! ## The nodes reached -/

/-- The nodes that a walk reaches if it leaves out what is below nodes of the given kinds. -/
def reached (skipped : List NodeKind) (start : Located) : List Located :=
  start :: if start.kind ∈ skipped then [] else
    start.children.attach.flatMap fun ⟨child, _⟩ => child.reached skipped
termination_by sizeOf start.node
decreasing_by exact sizeOf_of_mem_children ‹child ∈ start.children›

theorem reached_eq (skipped : List NodeKind) (start : Located) :
    start.reached skipped = start ::
      if start.kind ∈ skipped then [] else start.children.flatMap (reached skipped) := by
  rw [reached, List.flatMap_subtype, List.unattach_attach]
  intro child _
  rfl

/-- A walk that leaves out nothing reaches every node. -/
theorem reached_nil (start : Located) : start.reached [] = start.preorder := by
  induction start using induction with
  | step start ih =>
      rw [reached_eq, if_neg List.not_mem_nil, preorder_eq, List.flatMap_congr ih]

/-- The nodes reached come in the order of all nodes. -/
theorem reached_sublist_preorder (skipped : List NodeKind) (start : Located) :
    (start.reached skipped).Sublist start.preorder := by
  induction start using induction with
  | step start ih =>
      rw [reached_eq, preorder_eq]
      apply List.Sublist.cons_cons
      split
      · exact List.nil_sublist _
      · exact List.Sublist.flatMap_right _ ih

/-- **A node is reached if nothing above it is left out.** -/
theorem mem_reached_iff {start node : Located} :
    node ∈ start.reached skipped ↔ start.Below node ∧
      ∀ above, start.Below above → above.Above node → above.kind ∉ skipped := by
  induction start using induction generalizing node with
  | step start ih =>
      rw [reached_eq, List.mem_cons]
      constructor
      · rintro (rfl | hmem)
        · refine ⟨.refl, ?_⟩
          intro above hbelow habove
          exact absurd hbelow.depth_le (Nat.not_le.2 habove.depth_lt)
        · split at hmem
          · cases hmem
          obtain ⟨child, hchild, hmem⟩ := List.mem_flatMap.1 hmem
          obtain ⟨hnode, hopen⟩ := (ih child hchild).1 hmem
          refine ⟨below_iff.2 (Or.inr ⟨child, hchild, hnode⟩), ?_⟩
          intro above hbelow habove
          rcases below_iff.1 hbelow with rfl | ⟨child', hchild', hbelow⟩
          · assumption
          · -- the child above the node is the one that the node was reached through
            obtain rfl : child' = child :=
              Below.child_unique hchild' hchild (hbelow.trans habove.below) hnode rfl
            exact hopen above hbelow habove
      · rintro ⟨hbelow, hopen⟩
        rcases below_iff.1 hbelow with rfl | ⟨child, hchild, hnode⟩
        · exact Or.inl rfl
        · right
          rw [if_neg (hopen start .refl (above_iff.2 ⟨child, hchild, hnode⟩)), List.mem_flatMap]
          refine ⟨child, hchild, (ih child hchild).2 ⟨hnode, ?_⟩⟩
          intro above habove
          exact hopen above (below_iff.2 (Or.inr ⟨child, hchild, habove⟩))

/-! ## The walk -/

/-- **A walk works through the nodes that it reaches.** The visitor does the same at every node and
then descends, except below nodes of some kinds. -/
theorem walk_eq_foldl (visitor : Visitor σ) (skipped : List NodeKind) (action : Located → σ → σ)
    (hvisit : ∀ node descend state, visitor.visit node descend state =
      if node.kind ∈ skipped then action node state else descend (action node state))
    (start : Located) (state : σ) :
    start.walk visitor state =
      (start.reached skipped).foldl (fun state node => action node state) state := by
  induction start using induction generalizing state with
  | step start ih =>
      rw [walk_eq, hvisit, reached_eq, List.foldl_cons]
      split
      · rfl
      · rw [walkAll, List.foldl_flatMap]
        apply List.foldl_ext
        intro later child hchild
        exact ih child hchild later

end Located

/-! ## The calls of a walk -/

/-- The calls that a visitor receives for a node. -/
def Located.calls (node : Located) : List Visit := [.node node, .hook node]

/-- Calls noted one after another, the latest first. -/
theorem foldl_calls (nodes : List Located) (earlier : List Visit) :
    nodes.foldl (fun visits node => .hook node :: .node node :: visits) earlier =
      (nodes.flatMap Located.calls).reverse ++ earlier := by
  induction nodes generalizing earlier with
  | nil => rfl
  | cons node rest ih =>
      rw [List.foldl_cons, ih, List.flatMap_cons, List.reverse_append, List.append_assoc]
      rfl

/-- **A walk is pre-order and agrees with the children of nodes.** Of the nodes from its start on,
each at a place of its own and listed before the lists of its children, a walk reaches those that
have nothing above them that is left out. It calls the visitor for each of them in this order, once
for any node and directly after that for the kind of the node. -/
theorem visits_eq_preorder (start : Located) (skipped : List NodeKind) :
    start.visits skipped = (start.reached skipped).flatMap Located.calls ∧
      (start.reached skipped).Sublist start.preorder ∧
      (∀ node, node ∈ start.reached skipped ↔ start.Below node ∧
        ∀ above, start.Below above → above.Above node → above.kind ∉ skipped) ∧
      start.preorder.Pairwise (fun a b => a.place ≠ b.place) ∧
      ∀ node : Located, node.preorder = node :: node.children.flatMap Located.preorder := by
  refine ⟨?_, start.reached_sublist_preorder skipped, fun _ => Located.mem_reached_iff,
    start.pairwise_place_preorder, Located.preorder_eq⟩
  have hwalk := Located.walk_eq_foldl (recorder skipped) skipped
    (fun node visits => .hook node :: .node node :: visits) (fun _ _ _ => rfl) start []
  rw [Located.visits, hwalk, foldl_calls, List.append_nil, List.reverse_reverse]

/-- In `x * f[y]` a walk that leaves out what is in functions calls for five nodes. -/
example :
    ((Located.root 0 (.chain (.var "x" none)
        [(.multiply, .app "f" (.var "y" none) none)])).visits [.app]).map
      (fun | .node located => (false, located.kind) | .hook located => (true, located.kind)) =
    [(false, .seq), (true, .seq), (false, .operation), (true, .operation), (false, .var),
      (true, .var), (false, .operation), (true, .operation), (false, .app), (true, .app)] := by
  decide

end AlgebraText
