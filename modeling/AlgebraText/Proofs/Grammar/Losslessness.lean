import AlgebraText.Proofs.Grammar.Exactness
import AlgebraText.Proofs.Token.Slices

/-!
# Parse trees lose nothing

The leaves of a parse tree are the significant tokens of its text, and the spans of its nodes say
where these tokens stand: the span of a node runs from its first leaf to its last, and its children
follow one another inside it. So a text can be put together again from its parse tree, up to blanks.

The span of a node is computed from its children alone, so one lemma about lists of children
(`Element.covers_ofChildren`) carries what holds of tokens over to every node above them.

## What this module delivers

* `Element.Covers`, with `Derivation.covers_collapse`: the span of a node is that of its leaves;
* `ParseTree.Orderly`, with `Derivation.orderly`: what holds of every node of a derivation;
* `parseTree_lossless`: what this says about texts.
-/

set_option autoImplicit false

namespace AlgebraText

/-! ## Children and their tokens -/

/-- A child that has leaves, and whose span is that of its leaves. -/
def Element.Covers (child : Element) : Prop :=
  child.leaves ≠ [] ∧ child.span = hull child.leaves

namespace Element

theorem covers_token (token : Token) : (Element.token token).Covers := ⟨by simp [leaves], rfl⟩

theorem leavesOfList_eq_flatMap (children : List Element) :
    leavesOfList children = children.flatMap leaves := by
  induction children with
  | nil => rfl
  | cons child children ih => rw [leavesOfList, ih, List.flatMap_cons]

theorem mem_ofLinks {child : Element} {links : List (Token × ParseTree)} :
    child ∈ ofLinks links ↔ ∃ link ∈ links, child = .token link.1 ∨ child = .node link.2 := by
  simp [ofLinks]

/-- **A node covers its leaves if its children do.** -/
theorem covers_ofChildren {children : List Element} (rule : Rule) (hne : children ≠ [])
    (h : ∀ child ∈ children, child.Covers) : (Element.node (.ofChildren rule children)).Covers := by
  have hfirst := List.head?_eq_some_head hne
  have hlast := List.getLast?_eq_some_getLast hne
  obtain ⟨rest, hrest⟩ := List.head?_eq_some_iff.1 hfirst
  obtain ⟨front, hfront⟩ := List.getLast?_eq_some_iff.1 hlast
  obtain ⟨hleaves, hstart⟩ := h _ (List.mem_of_head? hfirst)
  obtain ⟨hleaves', hstop⟩ := h _ (List.mem_of_getLast? hlast)
  have hspan : (ParseTree.ofChildren rule children).span =
      (children.head hne).span.through (children.getLast hne).span := by
    rw [ParseTree.ofChildren, hfirst, hlast]
  have hstarts : children.flatMap leaves =
      (children.head hne).leaves ++ rest.flatMap leaves := by
    rw [← List.flatMap_cons, ← hrest]
  have hstops : children.flatMap leaves =
      front.flatMap leaves ++ (children.getLast hne).leaves := by
    rw [← List.flatMap_singleton leaves (children.getLast hne), ← List.flatMap_append, ← hfront]
  -- the hull starts in the first child and stops in the last, where the span of the node does
  have hhull : hull (children.flatMap leaves) =
      (hull (children.head hne).leaves).through (hull (children.getLast hne).leaves) := by
    rw [Span.through, ← start_hull_append hleaves (rest.flatMap leaves), ← hstarts,
      ← stop_hull_append (front.flatMap leaves) hleaves', ← hstops]
  rw [Covers, leaves, span, ParseTree.leaves_ofChildren, leavesOfList_eq_flatMap, hspan, hhull,
    hstart, hstop]
  refine ⟨?_, rfl⟩
  rw [hstarts]
  exact List.append_ne_nil_of_left_ne_nil hleaves _

end Element

namespace Derivation

/-- A node over a single token has nothing to collapse. -/
theorem collapse_literal (rule : Rule) (token : Token) :
    (ParseTree.ofChildren rule [.token token]).collapse = .ofChildren rule [.token token] := by
  rw [ParseTree.collapse_ofChildren (Or.inr (by simp)) (by simp [Element.collapse])]
  rfl

/-- **The span of a derivation is that of its leaves.** -/
theorem covers_collapse {goal : Nonterminal} {full : ParseTree} (h : Derivation goal full) :
    (Element.node full.collapse).Covers := by
  induction h with
  | expression _ ih => exact ih
  | @chain goal operand rule first links hgoal hfirst _ hlinks ihfirst ihlinks =>
      cases links with
      | nil =>
          -- a chain without links collapses to its operand
          rw [Element.ofLinks_nil, ParseTree.collapse_chain_nil first (goal.chain?_facts hgoal).1]
          exact ihfirst
      | cons link links =>
          rw [collapse_chain_cons hfirst hlinks (by simp)]
          refine Element.covers_ofChildren rule (by simp) ?_
          intro child hmem
          rcases List.mem_cons.1 hmem with rfl | hmem
          · exact ihfirst
          · obtain ⟨other, hother, rfl | rfl⟩ := Element.mem_ofLinks.1 hmem
            · exact Element.covers_token _
            · obtain ⟨link', hlink', rfl⟩ := List.mem_map.1 hother
              exact ihlinks link' hlink'
  | plain _ h ih =>
      rw [collapse_plain h]
      exact Element.covers_ofChildren _ (by simp) (by simpa using ih)
  | negated _ _ h ih =>
      rw [collapse_negated h]
      exact Element.covers_ofChildren _ (by simp) (by simpa [Element.covers_token] using ih)
  | paren _ _ _ ih =>
      rw [collapse_paren]
      exact Element.covers_ofChildren _ (by simp) (by simpa [Element.covers_token] using ih)
  | function _ _ _ _ ih =>
      rw [collapse_function]
      exact Element.covers_ofChildren _ (by simp) (by simpa [Element.covers_token] using ih)
  | var | integer | decimal =>
      rw [collapse_literal]
      exact Element.covers_ofChildren _ (by simp) (by simp [Element.covers_token])

end Derivation

/-! ## Every node of a tree -/

/-- A node that covers its leaves, with its children one after another inside it, and that is no
chain without an operator. -/
structure ParseTree.Orderly (node : ParseTree) : Prop where
  /-- The span of the node is that of its leaves. -/
  covers : (Element.node node).Covers
  /-- The children lie inside the node, and none of them is empty. -/
  inside : ∀ child ∈ node.children,
    child.span.Inside node.span ∧ child.span.start < child.span.stop
  /-- The children stand one after another. -/
  ascending : node.children.Pairwise fun earlier later => earlier.span.Before later.span
  /-- No node is labelled as a whole expression. -/
  rule_ne_expression : node.rule ≠ .expression
  /-- A chain has an operator. -/
  operator : node.rule.isChain = true →
    ∃ operator ∈ node.tokens, operator.kind ∈ node.rule.operators

theorem Element.mem_preorderOfList {children : List Element} {node : ParseTree} :
    node ∈ preorderOfList children ↔ ∃ tree, .node tree ∈ children ∧ node ∈ tree.preorder := by
  induction children with
  | nil => simp [preorderOfList]
  | cons child children ih =>
      cases child with
      | node tree => simp [preorderOfList, preorder, ih, or_and_right, exists_or]
      | token token => simp [preorderOfList, preorder, ih]

namespace ParseTree

theorem mem_preorder {tree node : ParseTree} :
    node ∈ tree.preorder ↔
      node = tree ∨ ∃ child, .node child ∈ tree.children ∧ node ∈ child.preorder := by
  obtain ⟨rule, span, children⟩ := tree
  rw [preorder, List.mem_cons, Element.mem_preorderOfList]

theorem self_mem_preorder (tree : ParseTree) : tree ∈ tree.preorder := mem_preorder.2 (Or.inl rfl)

/-- **A node is orderly if the nodes below it are** and its tokens stand one after another. -/
theorem orderly_ofChildren {rule : Rule} {children : List Element} (hne : children ≠ [])
    (hordered : Ordered (Element.leavesOfList children)) (hrule : rule ≠ .expression)
    (hoperator : rule.isChain = true →
      ∃ operator, .token operator ∈ children ∧ operator.kind ∈ rule.operators)
    (hchildren : ∀ tree, .node tree ∈ children → Ordered tree.leaves →
      ∀ node ∈ tree.preorder, node.Orderly) :
    ∀ node ∈ (ofChildren rule children).preorder, node.Orderly := by
  rw [Element.leavesOfList_eq_flatMap] at hordered
  -- the leaves of a child are among all leaves, so they stand one after another as well
  have hpart : ∀ child ∈ children, child.leaves.Sublist (children.flatMap Element.leaves) := by
    intro child hmem
    simpa [List.flatMap_def] using (List.singleton_sublist.2 (List.mem_map_of_mem hmem)).flatten
  have hbelow : ∀ tree, .node tree ∈ children → ∀ node ∈ tree.preorder, node.Orderly :=
    fun tree hmem => hchildren tree hmem (hordered.sublist (hpart _ hmem))
  have hcovers : ∀ child ∈ children, child.Covers := by
    intro child hmem
    cases child with
    | node tree => exact (hbelow tree hmem tree tree.self_mem_preorder).covers
    | token token => exact Element.covers_token token
  have hself := Element.covers_ofChildren rule hne hcovers
  intro node hmem
  rw [mem_preorder, children_ofChildren] at hmem
  rcases hmem with rfl | ⟨tree, htree, hmem⟩
  · refine ⟨hself, ?_, ?_, ?_, ?_⟩
    · intro child hchild
      rw [children_ofChildren] at hchild
      obtain ⟨hleaves, hspan⟩ := hcovers child hchild
      rw [hspan]
      have hnode : (ofChildren rule children).span = hull (children.flatMap Element.leaves) := by
        rw [← Element.leavesOfList_eq_flatMap, ← leaves_ofChildren rule]
        exact hself.2
      rw [hnode]
      exact ⟨hordered.hull_inside_hull (hpart child hchild) hleaves,
        (hordered.sublist (hpart child hchild)).hull_start_lt_stop hleaves⟩
    · rw [children_ofChildren]
      refine (hordered.pairwise_hull fun child hchild => (hcovers child hchild).1).imp_of_mem ?_
      intro earlier later hearlier hlater hbefore
      rwa [(hcovers earlier hearlier).2, (hcovers later hlater).2]
    · rw [rule_ofChildren]
      exact hrule
    · intro hchain
      rw [rule_ofChildren] at hchain ⊢
      obtain ⟨operator, hmem, hkind⟩ := hoperator hchain
      refine ⟨operator, ?_, hkind⟩
      rw [tokens, children_ofChildren]
      exact List.mem_filterMap.2 ⟨_, hmem, rfl⟩
  · exact hbelow tree htree node hmem

end ParseTree

theorem Rule.ne_expression_of_isChain {rule : Rule} (h : rule.isChain = true) :
    rule ≠ .expression := by
  rintro rfl
  cases h

namespace Derivation

/-- **Every node of a derivation is orderly**, if the derived tokens stand one after another. -/
theorem orderly {goal : Nonterminal} {full : ParseTree} (h : Derivation goal full)
    (hordered : Ordered full.leaves) : ∀ node ∈ full.collapse.preorder, node.Orderly := by
  rw [← full.leaves_collapse] at hordered
  induction h with
  | expression _ ih => exact ih hordered
  | @chain goal operand rule first links hgoal hfirst hoperators hlinks ihfirst ihlinks =>
      cases links with
      | nil =>
          -- without links there is no node for the chain, so it needs no operator
          rw [Element.ofLinks_nil, ParseTree.collapse_chain_nil first (goal.chain?_facts hgoal).1]
            at hordered ⊢
          exact ihfirst hordered
      | cons link links =>
          rw [collapse_chain_cons hfirst hlinks (by simp)] at hordered ⊢
          refine ParseTree.orderly_ofChildren (by simp) (by simpa using hordered)
            (Rule.ne_expression_of_isChain (goal.chain?_facts hgoal).1) (fun _ => ?_) ?_
          · exact ⟨link.1, by simp, hoperators link List.mem_cons_self⟩
          · intro tree hmem hleaves
            rcases List.mem_cons.1 hmem with heq | hmem
            · cases heq
              exact ihfirst hleaves
            · obtain ⟨other, hother, heq | heq⟩ := Element.mem_ofLinks.1 hmem
              · cases heq
              · cases heq
                obtain ⟨link', hlink', rfl⟩ := List.mem_map.1 hother
                exact ihlinks link' hlink' hleaves
  | plain _ h ih =>
      rw [collapse_plain h] at hordered ⊢
      exact ParseTree.orderly_ofChildren (by simp) (by simpa using hordered) (by decide) nofun
        (by simpa using ih)
  | negated _ _ h ih =>
      rw [collapse_negated h] at hordered ⊢
      exact ParseTree.orderly_ofChildren (by simp) (by simpa using hordered) (by decide) nofun
        (by simpa using ih)
  | paren _ _ _ ih =>
      rw [collapse_paren] at hordered ⊢
      exact ParseTree.orderly_ofChildren (by simp) (by simpa using hordered) (by decide) nofun
        (by simpa using ih)
  | function _ _ _ _ ih =>
      rw [collapse_function] at hordered ⊢
      exact ParseTree.orderly_ofChildren (by simp) (by simpa using hordered) (by decide) nofun
        (by simpa using ih)
  | var | integer | decimal =>
      rw [collapse_literal] at hordered ⊢
      exact ParseTree.orderly_ofChildren (by simp) (by simpa using hordered) (by decide) nofun
        (by simp)

end Derivation

/-! ## Texts -/

/-- **A parse tree loses nothing.** The leaves of the tree of a text are its significant tokens,
each once and in order, and each is the slice of its span. Every node is orderly: its span runs from
its first leaf to its last, its children stand one after another inside it, and if it is a chain it
has an operator. -/
theorem parseTree_lossless {text : String} {tree : ParseTree} (h : parseTree text = .ok tree) :
    tree.leaves = significantTokens (tokenize text) ∧
      (∀ token ∈ tree.leaves, token.span.slice? text = some token.lexeme) ∧
      ∀ node ∈ tree.preorder, node.Orderly := by
  obtain ⟨full, hfull, hleaves, rfl⟩ := parseTree_eq_ok_iff_collapse.1 h
  rw [full.leaves_collapse, hleaves]
  refine ⟨rfl, fun token hmem => slice?_of_mem_tokenize (List.mem_filter.1 hmem).1, ?_⟩
  exact hfull.orderly (hleaves ▸ ordered_significantTokens text)

theorem exists_ok_of_isSome {ε α : Type} {outcome : Except ε α}
    (h : outcome.toOption.isSome = true) : ∃ value, outcome = .ok value := by
  cases outcome with
  | error failure => cases h
  | ok value => exact ⟨value, rfl⟩

/-- A text with every kind of node. The name `b` is tried as that of a function first, and is still
one leaf. -/
theorem parseTree_lossless_nested :
    ∃ tree, parseTree "-f[a] * ( b+2.5 )" = .ok tree ∧
      tree.leaves = significantTokens (tokenize "-f[a] * ( b+2.5 )") ∧
      (∀ token ∈ tree.leaves, token.span.slice? "-f[a] * ( b+2.5 )" = some token.lexeme) ∧
      ∀ node ∈ tree.preorder, node.Orderly := by
  obtain ⟨tree, htree⟩ : ∃ tree, parseTree "-f[a] * ( b+2.5 )" = .ok tree :=
    exists_ok_of_isSome (by cbv)
  exact ⟨tree, htree, parseTree_lossless htree⟩

end AlgebraText
