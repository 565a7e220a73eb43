import AlgebraText.Proofs.Walk.Calls
import AlgebraText.Proofs.Walk.Reach
import AlgebraText.Walk.Query

/-!
# Queries run through the list of nodes

A query is a walk, and its predicate or action may carry a state, so it matters on which nodes and
in which order it is called. All queries are programs on the list of the nodes from a start on: a
filter, a search for the first value, or a pass through the whole list. The state of a predicate
goes through the list in the same way.

## What this module delivers

* `Located.forAll_eq_foldl`: an action on every node is a pass through the list;
* `Located.findAll_eq_filterM` and `Located.tryForAll_eq_findSomeM?`: queries are filters, and
  actions that break off are searches;
* `queries_follow_preorder`: what queries find, and the calls that they make.
-/

set_option autoImplicit false

namespace AlgebraText

namespace Located

variable {σ α β : Type}

/-- **An action on every node passes through the list of nodes.** -/
theorem forAll_eq_foldl (start : Located) (action : Located → σ → σ) (state : σ) :
    start.forAll action state =
      start.preorder.foldl (fun state node => action node state) state := by
  have hwalk := walk_eq_foldl { onNode := action } [] action
    (fun _ _ _ => (if_neg List.not_mem_nil).symm) start state
  rw [reached_nil] at hwalk
  exact hwalk

/-- One step of a query is one step of a filter of what is selected. -/
theorem foldl_find (select : Located → Option α) (predicate : α → StateM σ Bool)
    (nodes : List Located) (found : List α) (state : σ) :
    nodes.foldl
      (fun (found, state) node =>
        match select node with
        | none => (found, state)
        | some value =>
          match predicate value state with
          | (true, state) => (value :: found, state)
          | (false, state) => (found, state))
      (found, state) = List.filterAuxM predicate (nodes.filterMap select) found state := by
  induction nodes generalizing found state with
  | nil => rfl
  | cons node rest ih =>
      rw [List.foldl_cons, List.filterMap_cons]
      cases select node with
      | none => exact ih found state
      | some value =>
          dsimp only
          rw [filterAuxM_cons]
          rcases predicate value state with ⟨accepted, later⟩
          cases accepted with
          | true => exact ih (value :: found) later
          | false => exact ih found later

/-- **A query filters what is selected from the list of nodes.** -/
theorem findAll_eq_filterM (start : Located) (select : Located → Option α)
    (predicate : α → StateM σ Bool) :
    start.findAll select predicate = (start.preorder.filterMap select).filterM predicate := by
  funext state
  rw [filterM_eq_filterAuxM, ← foldl_find, ← forAll_eq_foldl]
  rfl

/-- The nodes of a kind from a start on, or all nodes if no kind is given. -/
def nodesOf (kind : Option NodeKind) (start : Located) : List Located :=
  start.preorder.filter fun node => kind.all (node.kind == ·)

theorem nodesOf_none (start : Located) : start.nodesOf none = start.preorder :=
  List.filter_eq_self.2 fun _ _ => rfl

/-- A query for a kind calls its predicate on the nodes of the kind only. -/
theorem findKind_eq_filterM (start : Located) (kind : Option NodeKind)
    (predicate : Located → StateM σ Bool) :
    start.findKind kind predicate = (start.nodesOf kind).filterM predicate := by
  funext state
  rw [findKind, findAll_eq_filterM, List.filterMap_some, filterM_guarded, nodesOf]

/-- The nodes of a kind, as nodes. -/
theorem map_val_filterMap_ofKind? (kind : NodeKind) (nodes : List Located) :
    (nodes.filterMap (ofKind? kind)).map Subtype.val = nodes.filter (·.kind == kind) := by
  rw [List.map_filterMap, ← List.filterMap_eq_filter]
  apply List.filterMap_congr
  intro node _
  by_cases h : node.kind = kind
  · simp [ofKind?, Option.guard, h]
  · simp [ofKind?, Option.guard, h]

/-- A typed query calls its predicate as the query for the kind does, and finds the same nodes. -/
theorem findAll_ofKind? (start : Located) (kind : NodeKind)
    (predicate : Located → StateM σ Bool) :
    List.map Subtype.val <$> start.findAll (ofKind? kind) (fun found => predicate found.val) =
      start.findKind (some kind) predicate := by
  funext state
  have hmap := filterM_map Subtype.val predicate (start.preorder.filterMap (ofKind? kind)) state
  rw [map_val_filterMap_ofKind?] at hmap
  rw [findKind_eq_filterM, findAll_eq_filterM]
  exact hmap.symm

/-- A query without a kind is a query that selects every node. -/
theorem findAll_some (start : Located) (predicate : Located → StateM σ Bool) :
    start.findAll some predicate = start.findKind none predicate := by
  rw [findKind_eq_filterM, findAll_eq_filterM, List.filterMap_some, nodesOf_none]

/-- Once an action has broken off, it is not called any more. -/
theorem foldl_broken (action : Located → StateM σ (Option β)) (nodes : List Located) (value : β)
    (state : σ) :
    nodes.foldl
      (fun (broken, state) node =>
        match broken with
        | some value => (some value, state)
        | none => action node state)
      (some value, state) = (some value, state) := by
  induction nodes with
  | nil => rfl
  | cons node rest ih => exact ih

/-- **An action that may break off searches the list of nodes.** -/
theorem tryForAll_eq_findSomeM? (start : Located) (action : Located → StateM σ (Option β)) :
    start.tryForAll action = start.preorder.findSomeM? action := by
  funext state
  rw [tryForAll, forAll_eq_foldl]
  generalize start.preorder = nodes
  induction nodes generalizing state with
  | nil => rfl
  | cons node rest ih =>
      rw [List.foldl_cons, findSomeM?_cons]
      dsimp only
      rcases action node state with ⟨answer, later⟩
      cases answer with
      | none => exact ih later
      | some value => exact foldl_broken action rest value later

/-- A pass through a list calls on every element once, in order. -/
theorem foldl_noting (action : Located → σ → σ) (nodes calls : List Located) (state : σ) :
    nodes.foldl (fun (calls, state) node => (calls ++ [node], action node state)) (calls, state) =
      (calls ++ nodes, nodes.foldl (fun state node => action node state) state) := by
  induction nodes generalizing calls state with
  | nil => rw [List.append_nil, List.foldl_nil, List.foldl_nil]
  | cons node rest ih =>
      rw [List.foldl_cons, ih, List.append_assoc, List.singleton_append, List.foldl_cons]

end Located

/-- **Queries follow the list of nodes, whatever state their predicates and actions carry.** A query
for a kind calls its predicate on the nodes of the kind, each once and in the order of the list, and
finds those that it accepts; without a kind these are all nodes. A typed query makes the same calls
and finds the same nodes. An action that may break off is called on the nodes up to the first where
it does, and what it gave there is the result; if it never breaks off, it is called on all nodes, as
an action on every node is. -/
theorem queries_follow_preorder {σ β : Type} (start : Located) (state : σ) :
    (∀ (kind : Option NodeKind) (predicate : Located → StateM σ Bool),
      start.findKind kind predicate = (start.nodesOf kind).filterM predicate ∧
      start.findKind kind (noting predicate) ([], state) =
        (((start.nodesOf kind).filterM predicate state).1, start.nodesOf kind,
          ((start.nodesOf kind).filterM predicate state).2)) ∧
    (∀ (kind : NodeKind) (predicate : Located → StateM σ Bool),
      List.map Subtype.val <$>
          start.findAll (Located.ofKind? kind) (fun found => predicate found.val) =
        start.findKind (some kind) predicate) ∧
    (start.nodesOf none = start.preorder ∧ ∀ predicate : Located → StateM σ Bool,
      start.findAll some predicate = start.findKind none predicate) ∧
    (∀ action : Located → StateM σ (Option β),
      start.tryForAll action = start.preorder.findSomeM? action ∧
      ((∃ final, Passes action start.preorder state final ∧
          start.tryForAll (noting action) ([], state) = (none, start.preorder, final)) ∨
        ∃ front node back middle value final, start.preorder = front ++ node :: back ∧
          Passes action front state middle ∧ action node middle = (some value, final) ∧
          start.tryForAll (noting action) ([], state) = (some value, front ++ [node], final))) ∧
    ∀ action : Located → σ → σ,
      start.forAll (fun node (calls, state) => (calls ++ [node], action node state)) ([], state) =
        (start.preorder, start.preorder.foldl (fun state node => action node state) state) := by
  refine ⟨?_, start.findAll_ofKind?, ⟨start.nodesOf_none, start.findAll_some⟩, ?_, ?_⟩
  · intro kind predicate
    refine ⟨start.findKind_eq_filterM kind predicate, ?_⟩
    rw [Located.findKind_eq_filterM, filterM_noting, List.nil_append]
  · intro action
    refine ⟨start.tryForAll_eq_findSomeM? action, ?_⟩
    rw [Located.tryForAll_eq_findSomeM?]
    exact findSomeM?_noting action start.preorder [] state
  · intro action
    rw [Located.forAll_eq_foldl, Located.foldl_noting, List.nil_append]

/-- In `x * -y` an action that counts its calls and breaks off at the negation is called on five
nodes. -/
example :
    (Located.root 0 (.chain (.var "x" none) [(.multiply, .neg (.var "y" none) none)])).tryForAll
      (fun node calls => (if node.kind = .neg then some node.kind else none, calls + 1)) 0 =
    (some NodeKind.neg, 5) :=
  rfl

end AlgebraText
