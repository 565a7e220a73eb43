import AlgebraText.Proofs.Expr.Building
import AlgebraText.Proofs.Expr.Occurrence

/-!
# The builder makes no malformed expression

Trees can be made by hand, with any rules, children, lexemes and spans. The builder takes them all,
so nothing can be said about an expression because it came from a text. What can be said is what the
builder checks on its way: it refuses a chain that is not made of operands with operators of its
level in between, and digits that are none. Nothing refused is left out or put right, since every
node below a tree that builds has been built as well.

## What this module delivers

* `ParseTree.Alternates`, the chains that are well formed, with `Built.alternates`;
* `Built.exists_of_mem_preorder`: below a tree that builds, every node builds;
* `Operation.MadeFrom` and `Node.MadeFrom`, what is known of a node from the tree it comes from;
* `build_madeFrom`: what holds of all trees, whoever made them.
-/

set_option autoImplicit false

namespace AlgebraText

/-! ## Chains -/

/-- The children of a chain node are an operand and then operators of the chain, at least one, each
with an operand after it. -/
def ParseTree.Alternates (chain : ParseTree) : Prop :=
  ∃ first links, chain.children = .node first :: Element.ofLinks links ∧ links ≠ [] ∧
    ∀ link ∈ links, link.1.kind ∈ chain.rule.operators

/-- A chain node that builds is well formed. -/
theorem Built.alternates {chain : ParseTree} {e : Expr} (h : Built chain e)
    (hchain : chain.rule.isChain = true) : chain.Alternates := by
  cases h with
  | @chain rule span first operand links _ _ hne hmethods _ =>
      refine ⟨first, links.map BuiltLink.pair, rfl, mt List.map_eq_nil_iff.1 hne, ?_⟩
      intro pair hmem
      obtain ⟨link, hlink, rfl⟩ := List.mem_map.1 hmem
      exact (mem_operators_of_chainMethod? (hmethods link hlink)).1
  | integer | decimal | var | function | paren | plain | negated => cases hchain

/-- The nodes among the children of a tree that builds have been built. -/
theorem Built.exists_of_child {tree : ParseTree} {e : Expr} (h : Built tree e) :
    ∀ child, .node child ∈ tree.children → ∃ part, Built child part := by
  intro child hmem
  cases h with
  | integer | decimal | var => simp at hmem
  | @function _ _ _ _ body argument _ hbody =>
      obtain rfl : child = body := by simpa using hmem
      exact ⟨argument, hbody⟩
  | @paren _ _ _ inner _ hinner =>
      obtain rfl : child = inner := by simpa using hmem
      exact ⟨e, hinner⟩
  | @plain _ operand _ hoperand =>
      obtain rfl : child = operand := by simpa using hmem
      exact ⟨e, hoperand⟩
  | @negated _ _ operand body _ hoperand =>
      obtain rfl : child = operand := by simpa using hmem
      exact ⟨body, hoperand⟩
  | @chain _ _ first operand links _ hfirst _ _ hlinks =>
      rcases List.mem_cons.1 hmem with heq | hmem
      · cases heq
        exact ⟨operand, hfirst⟩
      · obtain ⟨pair, hpair, heq | heq⟩ := Element.mem_ofLinks.1 hmem
        · cases heq
        · cases heq
          obtain ⟨link, hlink, rfl⟩ := List.mem_map.1 hpair
          exact ⟨link.operand, hlinks link hlink⟩

/-- **Every node of a tree that builds has been built.** -/
theorem Built.exists_of_mem_preorder {tree : ParseTree} {e : Expr} (h : Built tree e) :
    ∀ node ∈ tree.preorder, ∃ part, Built node part := by
  induction tree using ParseTree.induction_children generalizing e with
  | step rule span children ih =>
      intro node hmem
      rcases ParseTree.mem_preorder.1 hmem with rfl | ⟨child, hchild, hbelow⟩
      · exact ⟨e, h⟩
      · obtain ⟨part, hpart⟩ := h.exists_of_child child hchild
        exact ih child hchild hpart node hbelow

/-! ## What is made from a tree -/

/-- Operations made from a chain node. -/
structure Operation.MadeFrom (chain : ParseTree) (operations : List Operation) : Prop where
  /-- The node is a chain. -/
  isChain : chain.rule.isChain = true
  /-- There is an operator. -/
  several : 2 ≤ operations.length
  /-- The first operation has no operator, and every other has one of the chain. -/
  methods : ∃ first rest, operations = first :: rest ∧ first.method = none ∧
    ∀ operation ∈ rest, ∃ method, operation.method = some method ∧ method.rule = chain.rule
  /-- The operands are what the nodes among the children build to, in their order. -/
  operands : chain.nodes.map ParseTree.build =
    operations.map fun operation => .ok operation.operand

/-- A node made from a tree. -/
structure Node.MadeFrom (tree : ParseTree) (node : Node) : Prop where
  /-- The node remembers the rule of a node of the tree. -/
  recorded : ∃ source ∈ tree.preorder, ∃ span, node.origin = some ⟨source.rule, span⟩
  /-- Digits are canonical. -/
  canonical : ∀ value origin, node = .expr (.integer value origin) → IsCanonical value.toList
  /-- A sequence is made from a chain node of the tree, and this is what it remembers. -/
  sequence : ∀ operations origin, node = .expr (.seq operations origin) →
    ∃ chain ∈ tree.preorder, origin = some ⟨chain.rule, chain.span⟩ ∧
      Operation.MadeFrom chain operations

namespace Node.MadeFrom

variable {tree : ParseTree} {node : Node}

/-- What is made from a node of a tree is made from the tree. -/
theorem of_child {child : ParseTree} (h : node.MadeFrom child)
    (hchild : .node child ∈ tree.children) : node.MadeFrom tree := by
  have hbelow : ∀ source ∈ child.preorder, source ∈ tree.preorder := fun source hmem =>
    ParseTree.mem_preorder.2 (Or.inr ⟨child, hchild, hmem⟩)
  refine ⟨?_, h.canonical, ?_⟩
  · obtain ⟨source, hmem, hrecorded⟩ := h.recorded
    exact ⟨source, hbelow source hmem, hrecorded⟩
  · intro operations origin hnode
    obtain ⟨chain, hmem, hsequence⟩ := h.sequence operations origin hnode
    exact ⟨chain, hbelow chain hmem, hsequence⟩

/-- A node that remembers the root of the tree, if it is no number without a point and no
sequence. -/
theorem of_root {span : Span} (horigin : node.origin = some ⟨tree.rule, span⟩)
    (hinteger : ∀ value origin, node ≠ .expr (.integer value origin))
    (hsequence : ∀ operations origin, node ≠ .expr (.seq operations origin)) :
    node.MadeFrom tree :=
  ⟨⟨tree, tree.self_mem_preorder, span, horigin⟩,
    fun value origin hnode => absurd hnode (hinteger value origin),
    fun operations origin hnode => absurd hnode (hsequence operations origin)⟩

end Node.MadeFrom

theorem ParseTree.nodes_chain (rule : Rule) (span : Span) (first : ParseTree)
    (links : List (Token × ParseTree)) :
    (⟨rule, span, .node first :: Element.ofLinks links⟩ : ParseTree).nodes =
      first :: links.map Prod.snd := by
  have hlinks : (Element.ofLinks links).filterMap Element.tree? = links.map Prod.snd := by
    induction links with
    | nil => rfl
    | cons link links ih =>
        rw [List.map_cons, ← ih]
        rfl
  rw [← hlinks]
  rfl

/-- The sequence that a chain node builds to. -/
theorem Operation.madeFrom_chain {rule : Rule} {span : Span} {first : ParseTree} {operand : Expr}
    {links : List BuiltLink} (hchain : rule.isChain = true) (hfirst : Built first operand)
    (hne : links ≠ [])
    (hmethods : ∀ link ∈ links, chainMethod? rule link.operator.kind = some link.method)
    (hlinks : ∀ link ∈ links, Built link.node link.operand) :
    Operation.MadeFrom ⟨rule, span, .node first :: Element.ofLinks (links.map BuiltLink.pair)⟩
      (⟨none, operand, some ⟨rule, first.span⟩⟩ :: links.map (BuiltLink.operation rule)) := by
  refine ⟨hchain, ?_, ⟨_, _, rfl, rfl, ?_⟩, ?_⟩
  · have hpositive := List.length_pos_iff.2 hne
    rw [List.length_cons, List.length_map]
    omega
  · refine List.forall_mem_map.2 fun link hmem => ⟨link.method, rfl, ?_⟩
    exact rule_eq_of_chainMethod? (hmethods link hmem)
  · rw [ParseTree.nodes_chain, List.map_cons, List.map_cons, List.map_map, List.map_map,
      List.map_map, ParseTree.build_eq_ok_iff_built.2 hfirst]
    refine congrArg _ (List.map_congr_left fun link hmem => ?_)
    exact ParseTree.build_eq_ok_iff_built.2 (hlinks link hmem)

/-- **Every node of what a tree builds to is made from the tree.** -/
theorem Built.madeFrom {tree : ParseTree} {e : Expr} (h : Built tree e) {node : Node}
    (hbelow : (Node.expr e).Below node) : node.MadeFrom tree := by
  induction h with
  | integer _ hvalue =>
      obtain rfl := hbelow.eq_of_children_eq_nil rfl
      refine ⟨⟨_, ParseTree.self_mem_preorder _, _, rfl⟩, ?_, ?_⟩
      · rintro _ _ ⟨⟩
        exact isCanonical_of_canonicalDigits? hvalue
      · rintro _ _ ⟨⟩
  | decimal | var =>
      obtain rfl := hbelow.eq_of_children_eq_nil rfl
      refine .of_root rfl ?_ ?_ <;> rintro _ _ ⟨⟩
  | function _ _ ih =>
      rcases Node.below_iff.1 hbelow with rfl | ⟨child, hchild, hbelow⟩
      · refine .of_root rfl ?_ ?_ <;> rintro _ _ ⟨⟩
      · obtain rfl := List.mem_singleton.1 hchild
        exact (ih hbelow).of_child (by simp)
  | paren _ ih => exact (ih hbelow).of_child (by simp)
  | plain _ ih => exact (ih hbelow).of_child (by simp)
  | negated _ _ ih =>
      rcases Node.below_iff.1 hbelow with rfl | ⟨child, hchild, hbelow⟩
      · refine .of_root rfl ?_ ?_ <;> rintro _ _ ⟨⟩
      · obtain rfl := List.mem_singleton.1 hchild
        exact (ih hbelow).of_child (by simp)
  | @chain rule span first operand links hchain hfirst hne hmethods hlinks ihfirst ihlinks =>
      rcases Node.below_iff.1 hbelow with rfl | ⟨child, hchild, hbelow⟩
      · refine ⟨⟨_, ParseTree.self_mem_preorder _, _, rfl⟩, ?_, ?_⟩
        · rintro _ _ ⟨⟩
        · rintro _ _ ⟨⟩
          exact ⟨_, ParseTree.self_mem_preorder _, rfl,
            Operation.madeFrom_chain hchain hfirst hne hmethods hlinks⟩
      rw [Node.children, List.map_cons, List.map_map, List.mem_cons, List.mem_map] at hchild
      -- an operation remembers the chain, and what is below it comes from the node of its operand
      rcases hchild with rfl | ⟨link, hlink, rfl⟩
      · rcases Node.below_iff.1 hbelow with rfl | ⟨child, hchild, hbelow⟩
        · refine .of_root rfl ?_ ?_ <;> rintro _ _ ⟨⟩
        · obtain rfl := List.mem_singleton.1 hchild
          exact (ihfirst hbelow).of_child List.mem_cons_self
      · rcases Node.below_iff.1 hbelow with rfl | ⟨child, hchild, hbelow⟩
        · refine .of_root rfl ?_ ?_ <;> rintro _ _ ⟨⟩
        · obtain rfl := List.mem_singleton.1 hchild
          refine (ihlinks link hlink hbelow).of_child (List.mem_cons_of_mem _ ?_)
          exact Element.mem_ofLinks.2 ⟨_, List.mem_map_of_mem hlink, Or.inr rfl⟩

/-! ## All trees -/

/-- **The builder makes no malformed expression, whatever tree it is given.** Every node of what a
tree builds to remembers the rule of a node of the tree. Every sequence comes from a chain node: it
has the operands of the chain in their order, at least two, and between them the operators of the
rule that it remembers. The digits of every number are canonical. And a tree does not build if there
is a chain in it, at any depth, that has anything but operands with its operators in between. -/
theorem build_madeFrom (tree : ParseTree) :
    (∀ e, tree.build = .ok e → ∀ node, (Node.expr e).Below node → node.MadeFrom tree) ∧
      ((∃ chain ∈ tree.preorder, chain.rule.isChain = true ∧ ¬ chain.Alternates) →
        ∃ failure, tree.build = .error failure) := by
  constructor
  · intro e h node hbelow
    exact (tree.built_of_build e h).madeFrom hbelow
  · rintro ⟨chain, hmem, hchain, hmalformed⟩
    cases h : tree.build with
    | error failure => exact ⟨failure, rfl⟩
    | ok e =>
        obtain ⟨part, hpart⟩ := (tree.built_of_build e h).exists_of_mem_preorder chain hmem
        exact absurd (hpart.alternates hchain) hmalformed

/-- A tree with spans and lexemes that no text has, which builds, and a sum with the operator of a
product, which does not. -/
theorem build_madeFrom_handMade :
    (∃ e, ParseTree.build ⟨.additive, ⟨9, 4⟩,
        [.node ⟨.integer, ⟨3, 3⟩, [.token ⟨.int, "007", ⟨0, 0⟩⟩]⟩,
          .token ⟨.sub, "plus", ⟨5, 1⟩⟩,
          .node ⟨.var, ⟨0, 2⟩, [.token ⟨.name, "x y", ⟨1, 1⟩⟩]⟩]⟩ = .ok e ∧
      e = .seq [⟨none, .integer "7" (some ⟨.integer, ⟨3, 3⟩⟩), some ⟨.additive, ⟨3, 3⟩⟩⟩,
        ⟨some .subtract, .var "x y" (some ⟨.var, ⟨0, 2⟩⟩), some ⟨.additive, ⟨5, 2⟩⟩⟩]
        (some ⟨.additive, ⟨9, 4⟩⟩) ∧
      ∀ node, (Node.expr e).Below node → node.MadeFrom ⟨.additive, ⟨9, 4⟩,
        [.node ⟨.integer, ⟨3, 3⟩, [.token ⟨.int, "007", ⟨0, 0⟩⟩]⟩,
          .token ⟨.sub, "plus", ⟨5, 1⟩⟩,
          .node ⟨.var, ⟨0, 2⟩, [.token ⟨.name, "x y", ⟨1, 1⟩⟩]⟩]⟩) ∧
    ∃ failure, ParseTree.build ⟨.single, ⟨0, 5⟩,
        [.node ⟨.additive, ⟨0, 5⟩, [.node ⟨.var, ⟨0, 1⟩, [.token ⟨.name, "a", ⟨0, 1⟩⟩]⟩,
          .token ⟨.mul, "*", ⟨2, 3⟩⟩, .node ⟨.var, ⟨4, 5⟩, [.token ⟨.name, "b", ⟨4, 5⟩⟩]⟩]⟩]⟩ =
      .error failure := by
  refine ⟨⟨_, by cbv, rfl, (build_madeFrom _).1 _ (by cbv)⟩, ?_⟩
  refine (build_madeFrom _).2 ⟨_, ParseTree.mem_preorder.2 (Or.inr ⟨_, List.mem_cons_self,
    ParseTree.self_mem_preorder _⟩), rfl, ?_⟩
  rintro ⟨first, links, hchildren, hne, hoperators⟩
  cases links with
  | nil => exact hne rfl
  | cons link links =>
      rw [Element.ofLinks_cons, List.cons.injEq, List.cons.injEq] at hchildren
      have hoperator := hoperators link List.mem_cons_self
      rw [← Element.token.inj hchildren.2.1] at hoperator
      exact absurd hoperator (by decide)

end AlgebraText
