import AlgebraText.Rule

/-!
# Parse trees

A parse tree records how the grammar matched a text: each node names the rule that matched, the
span it covers, and every token and sub-node it consumed, in source order. Chain levels without an
operator leave no node, so the operand of such a level stands in its place.

## What this module delivers

* `ParseTree` and its children `Element`, with decidable equality;
* `ParseTree.ofChildren`, the node whose span covers its children;
* `ParseTree.render`, the text of a tree with single spaces inside chains;
* `ParseTree.leaves`, the tokens of a tree from left to right.
-/

set_option autoImplicit false

namespace AlgebraText

mutual

/-- One match of a grammar rule. -/
structure ParseTree where
  /-- The rule that matched. -/
  rule : Rule
  /-- The region of the source that the match covers. -/
  span : Span
  /-- What the rule consumed, in source order. -/
  children : List Element

/-- A child of a node: the match of another rule, or a token. -/
inductive Element where
  /-- A nested match. -/
  | node (tree : ParseTree)
  /-- A token that the rule consumed itself. -/
  | token (token : Token)

end

instance : Inhabited ParseTree := ⟨⟨default, default, []⟩⟩

namespace Element

/-- The span of a child. -/
def span : Element → Span
  | node tree => tree.span
  | token t => t.span

/-- The nested match, if the child is one. -/
def tree? : Element → Option ParseTree
  | node tree => some tree
  | token _ => none

/-- The token, if the child is one. -/
def token? : Element → Option Token
  | node _ => none
  | token t => some t

end Element

namespace ParseTree

/-- The node of a rule whose span runs from the first child to the last. Without children the span
is empty and stands at the start of the text. -/
def ofChildren (rule : Rule) (children : List Element) : ParseTree :=
  match children.head?, children.getLast? with
  | some first, some last => ⟨rule, first.span.through last.span, children⟩
  | _, _ => ⟨rule, Span.point 0, children⟩

/-- The nested matches among the children. -/
def nodes (tree : ParseTree) : List ParseTree := tree.children.filterMap Element.tree?

/-- The tokens among the children. -/
def tokens (tree : ParseTree) : List Token := tree.children.filterMap Element.token?

end ParseTree

/-! ## The text of a tree -/

/-- What stands between two neighbouring children of a node. -/
def Rule.separator (rule : Rule) : String := if rule.isChain then " " else ""

mutual

/-- The text that a tree matched, with single spaces between the parts of a chain and no other
blanks. -/
def ParseTree.render : ParseTree → String
  | ⟨rule, _, children⟩ => Element.renderFirst rule.separator children

/-- The text of one child. -/
def Element.render : Element → String
  | .node tree => tree.render
  | .token t => t.lexeme

/-- The text of a list of children, with a separator between neighbours. -/
def Element.renderFirst (separator : String) : List Element → String
  | [] => ""
  | child :: rest => child.render ++ Element.renderRest separator rest

/-- The text of the children after the first, each with a separator before it. -/
def Element.renderRest (separator : String) : List Element → String
  | [] => ""
  | child :: rest => separator ++ child.render ++ Element.renderRest separator rest

end

/-! ## The leaves and the nodes of a tree -/

mutual

/-- The tokens of a tree, from left to right. -/
def ParseTree.leaves : ParseTree → List Token
  | ⟨_, _, children⟩ => Element.leavesOfList children

/-- The tokens of one child, from left to right. -/
def Element.leaves : Element → List Token
  | .node tree => tree.leaves
  | .token t => [t]

/-- The tokens of a list of children, from left to right. -/
def Element.leavesOfList : List Element → List Token
  | [] => []
  | child :: rest => child.leaves ++ Element.leavesOfList rest

end

mutual

/-- All nodes of a tree, each before the nodes below it. -/
def ParseTree.preorder : ParseTree → List ParseTree
  | ⟨rule, span, children⟩ => ⟨rule, span, children⟩ :: Element.preorderOfList children

/-- All nodes of one child. -/
def Element.preorder : Element → List ParseTree
  | .node tree => tree.preorder
  | .token _ => []

/-- All nodes of a list of children. -/
def Element.preorderOfList : List Element → List ParseTree
  | [] => []
  | child :: rest => child.preorder ++ Element.preorderOfList rest

end

/-! ## Equality is decidable -/

mutual

/-- Decides whether two trees agree in every rule, span and token. -/
def ParseTree.same : ParseTree → ParseTree → Bool
  | ⟨rule₁, span₁, children₁⟩, ⟨rule₂, span₂, children₂⟩ =>
    rule₁ == rule₂ && span₁ == span₂ && Element.sameList children₁ children₂

/-- Decides whether two children agree. -/
def Element.same : Element → Element → Bool
  | .node tree₁, .node tree₂ => tree₁.same tree₂
  | .token t₁, .token t₂ => t₁ == t₂
  | _, _ => false

/-- Decides whether two lists of children agree. -/
def Element.sameList : List Element → List Element → Bool
  | [], [] => true
  | child₁ :: rest₁, child₂ :: rest₂ => child₁.same child₂ && Element.sameList rest₁ rest₂
  | _, _ => false

end

mutual

/-- The decision on trees is equality. -/
theorem ParseTree.same_iff : ∀ a b : ParseTree, a.same b = true ↔ a = b
  | ⟨rule₁, span₁, children₁⟩, ⟨rule₂, span₂, children₂⟩ => by
    have below := Element.sameList_iff children₁ children₂
    simp [ParseTree.same, below, and_assoc]

/-- The decision on children is equality. -/
theorem Element.same_iff : ∀ a b : Element, a.same b = true ↔ a = b
  | .node tree₁, .node tree₂ => by
    have below := ParseTree.same_iff tree₁ tree₂
    simp [Element.same, below]
  | .token t₁, .token t₂ => by simp [Element.same]
  | .node _, .token _ => by simp [Element.same]
  | .token _, .node _ => by simp [Element.same]

/-- The decision on lists of children is equality. -/
theorem Element.sameList_iff : ∀ a b : List Element, Element.sameList a b = true ↔ a = b
  | [], [] => by simp [Element.sameList]
  | child₁ :: rest₁, child₂ :: rest₂ => by
    have first := Element.same_iff child₁ child₂
    have rest := Element.sameList_iff rest₁ rest₂
    simp [Element.sameList, first, rest]
  | [], _ :: _ => by simp [Element.sameList]
  | _ :: _, [] => by simp [Element.sameList]

end

instance : DecidableEq ParseTree := fun a b =>
  decidable_of_iff (a.same b = true) (ParseTree.same_iff a b)

instance : DecidableEq Element := fun a b =>
  decidable_of_iff (a.same b = true) (Element.same_iff a b)

end AlgebraText
