import AlgebraText.Proofs.Grammar.Losslessness
import AlgebraText.Proofs.Token.Spacing

/-!
# Rendering a parse tree and reading it again

The text of a parse tree has spaces around the operators of chains and no other blanks. Everywhere
else lexemes stand side by side: a sign before an operand, brackets around an expression, a bracket
after the name of a function. All of these are marks, which end whatever stands before them and are
not continued by what follows. So the text has the words of the tree, and the parser finds the tree
again, at other places.

Places are all that can differ. If the tokens of a derivation are moved it is still a derivation,
collapsing and rendering do not look at places, and each list of tokens has one derivation.

## What this module delivers

* `ParseTree.relocate`, with `Derivation.relocate`: a tree at another place;
* `Derivation.words_render`: the text of a tree has the words of the tree;
* `parseTree_render`: reading what was rendered gives the same tree, up to places.
-/

set_option autoImplicit false

namespace AlgebraText

/-! ## Trees at other places -/

mutual

/-- A tree at another place. -/
def ParseTree.relocate (start stop : Nat → Nat) : ParseTree → ParseTree
  | ⟨rule, span, children⟩ =>
    ⟨rule, span.relocate start stop, Element.relocateList start stop children⟩

/-- A child at another place. -/
def Element.relocate (start stop : Nat → Nat) : Element → Element
  | .node tree => .node (tree.relocate start stop)
  | .token token => .token (token.relocate start stop)

/-- A list of children at another place. -/
def Element.relocateList (start stop : Nat → Nat) : List Element → List Element
  | [] => []
  | child :: rest => child.relocate start stop :: Element.relocateList start stop rest

end

/-- A tree without its places: all its spans are empty and stand at the start of the text. -/
def ParseTree.placeless (tree : ParseTree) : ParseTree :=
  tree.relocate (fun _ => 0) (fun _ => 0)

section Relocate

variable (start stop : Nat → Nat)

theorem Element.relocateList_eq_map (children : List Element) :
    Element.relocateList start stop children = children.map (Element.relocate start stop) := by
  induction children with
  | nil => rfl
  | cons child children ih => rw [Element.relocateList, ih, List.map_cons]

theorem Element.relocateList_ofLinks (links : List (Token × ParseTree)) :
    Element.relocateList start stop (Element.ofLinks links) = Element.ofLinks
      (links.map fun link => (link.1.relocate start stop, link.2.relocate start stop)) := by
  induction links with
  | nil => rfl
  | cons link links ih => simp [Element.relocateList, Element.relocate, ih]

theorem Element.span_relocate (child : Element) :
    (child.relocate start stop).span = child.span.relocate start stop := by
  cases child with
  | node tree =>
      cases tree
      rfl
  | token token => rfl

/-- The node over some children moves with them, unless it has none and stands nowhere. -/
theorem ParseTree.relocate_ofChildren (rule : Rule) {children : List Element}
    (hne : children ≠ []) :
    (ofChildren rule children).relocate start stop =
      ofChildren rule (Element.relocateList start stop children) := by
  have hfirst := List.head?_eq_some_head hne
  have hlast := List.getLast?_eq_some_getLast hne
  rw [Element.relocateList_eq_map, ofChildren, ofChildren, List.head?_map, List.getLast?_map,
    hfirst, hlast, Option.map_some, Option.map_some]
  simp only [relocate, Element.span_relocate, Element.relocateList_eq_map]
  rfl

mutual

/-- The tokens of a tree move with it. -/
theorem ParseTree.leaves_relocate : ∀ tree : ParseTree,
    (tree.relocate start stop).leaves = tree.leaves.map (Token.relocate start stop)
  | ⟨_, _, children⟩ => Element.leavesOfList_relocateList children

theorem Element.leaves_relocate : ∀ child : Element,
    (child.relocate start stop).leaves = child.leaves.map (Token.relocate start stop)
  | .node tree => tree.leaves_relocate
  | .token _ => rfl

theorem Element.leavesOfList_relocateList : ∀ children : List Element,
    Element.leavesOfList (Element.relocateList start stop children) =
      (Element.leavesOfList children).map (Token.relocate start stop)
  | [] => rfl
  | child :: rest => by
      rw [Element.relocateList, Element.leavesOfList, Element.leavesOfList, List.map_append,
        child.leaves_relocate, Element.leavesOfList_relocateList rest]

end

mutual

/-- The text of a tree does not depend on places. -/
theorem ParseTree.render_relocate : ∀ tree : ParseTree,
    (tree.relocate start stop).render = tree.render
  | ⟨rule, _, children⟩ => Element.renderFirst_relocateList rule.separator children

theorem Element.render_relocate : ∀ child : Element,
    (child.relocate start stop).render = child.render
  | .node tree => tree.render_relocate
  | .token _ => rfl

theorem Element.renderFirst_relocateList (separator : String) : ∀ children : List Element,
    Element.renderFirst separator (Element.relocateList start stop children) =
      Element.renderFirst separator children
  | [] => rfl
  | child :: rest => by
      rw [Element.relocateList, Element.renderFirst, Element.renderFirst, child.render_relocate,
        Element.renderRest_relocateList separator rest]

theorem Element.renderRest_relocateList (separator : String) : ∀ children : List Element,
    Element.renderRest separator (Element.relocateList start stop children) =
      Element.renderRest separator children
  | [] => rfl
  | child :: rest => by
      rw [Element.relocateList, Element.renderRest, Element.renderRest, child.render_relocate,
        Element.renderRest_relocateList separator rest]

end

mutual

/-- Collapsing does not look at places. -/
theorem ParseTree.collapse_relocate : ∀ tree : ParseTree,
    (tree.relocate start stop).collapse = tree.collapse.relocate start stop
  | ⟨rule, span, children⟩ => by
      have hchildren := Element.collapseList_relocateList children
      by_cases hshape : rule.isChain = true ∧ ∃ operand, children = [.node operand]
      · obtain ⟨hchain, operand, rfl⟩ := hshape
        have hoperand := List.cons.inj hchildren
        rw [ParseTree.relocate, Element.relocateList, Element.relocate, Element.relocateList,
          ParseTree.collapse, ParseTree.collapse]
        · exact Element.node.inj hoperand.1
        · exact hchain
        · exact hchain
      · rw [ParseTree.relocate, ParseTree.collapse, ParseTree.collapse, ParseTree.relocate,
          hchildren]
        · intro operand hchain hsingle
          exact hshape ⟨hchain, operand, hsingle⟩
        · intro operand hchain hsingle
          rw [Element.relocateList_eq_map, List.map_eq_singleton_iff] at hsingle
          obtain ⟨child, rfl, hchild⟩ := hsingle
          cases child with
          | node tree => exact hshape ⟨hchain, tree, rfl⟩
          | token token => cases hchild

theorem Element.collapse_relocate : ∀ child : Element,
    (child.relocate start stop).collapse = child.collapse.relocate start stop
  | .node tree => congrArg Element.node tree.collapse_relocate
  | .token _ => rfl

theorem Element.collapseList_relocateList : ∀ children : List Element,
    Element.collapseList (Element.relocateList start stop children) =
      Element.relocateList start stop (Element.collapseList children)
  | [] => rfl
  | child :: rest => by
      rw [Element.relocateList, Element.collapseList, Element.collapseList, Element.relocateList,
        child.collapse_relocate, Element.collapseList_relocateList rest]

end

mutual

/-- A tree that was moved is the same without its places. -/
theorem ParseTree.placeless_relocate : ∀ tree : ParseTree,
    (tree.relocate start stop).placeless = tree.placeless
  | ⟨rule, _, children⟩ => by
      have hchildren := Element.placeless_relocateList children
      rw [ParseTree.placeless, ParseTree.placeless, ParseTree.relocate, ParseTree.relocate,
        ParseTree.relocate, hchildren]
      rfl

theorem Element.placeless_relocate : ∀ child : Element,
    (child.relocate start stop).relocate (fun _ => 0) (fun _ => 0) =
      child.relocate (fun _ => 0) (fun _ => 0)
  | .node tree => congrArg Element.node tree.placeless_relocate
  | .token _ => rfl

theorem Element.placeless_relocateList : ∀ children : List Element,
    Element.relocateList (fun _ => 0) (fun _ => 0) (Element.relocateList start stop children) =
      Element.relocateList (fun _ => 0) (fun _ => 0) children
  | [] => rfl
  | child :: rest => by
      rw [Element.relocateList, Element.relocateList, Element.relocateList,
        child.placeless_relocate, Element.placeless_relocateList rest]

end

/-- **A derivation at another place is a derivation.** The grammar looks at kinds of tokens only. -/
theorem Derivation.relocate {goal : Nonterminal} {full : ParseTree} (h : Derivation goal full) :
    Derivation goal (full.relocate start stop) := by
  induction h with
  | expression _ ih => exact .expression ih
  | @chain goal operand rule first links hgoal _ hoperators _ ihfirst ihlinks =>
      rw [ParseTree.relocate_ofChildren start stop rule (List.cons_ne_nil _ _),
        Element.relocateList, Element.relocateList_ofLinks]
      exact .chain hgoal ihfirst (List.forall_mem_map.2 hoperators) (List.forall_mem_map.2 ihlinks)
  | plain hatom _ ih =>
      rw [ParseTree.relocate_ofChildren start stop _ (List.cons_ne_nil _ _)]
      exact .plain hatom ih
  | negated hatom hminus _ ih =>
      rw [ParseTree.relocate_ofChildren start stop _ (List.cons_ne_nil _ _)]
      exact .negated hatom hminus ih
  | paren hopening _ hclosing ih =>
      rw [ParseTree.relocate_ofChildren start stop _ (List.cons_ne_nil _ _)]
      exact .paren hopening ih hclosing
  | function hname hopening _ hclosing ih =>
      rw [ParseTree.relocate_ofChildren start stop _ (List.cons_ne_nil _ _)]
      exact .function hname hopening ih hclosing
  | @var name hname => exact @Derivation.var (name.relocate start stop) hname
  | @integer digits hdigits => exact @Derivation.integer (digits.relocate start stop) hdigits
  | @decimal digits hdigits => exact @Derivation.decimal (digits.relocate start stop) hdigits

end Relocate

/-! ## The words of a rendered tree -/

/-- A lexeme of a kind that the grammar has a place for is one word on its own. -/
theorem words_of_matches {kind : TokenKind} {lexeme : List Char} (h : kind.Matches lexeme)
    (hkind : kind.isTerminal = true) : words lexeme = [⟨kind, .ofList lexeme⟩] := by
  cases kind with
  | name => exact words_of_isName h
  | int => exact words_of_isDigits h
  | float => exact words_of_isPointed h
  | whitespace | newLine | dot | symbol => cases hkind
  | add | sub | mul | div | exp | openParen | closeParen | openSquare | closeSquare =>
      obtain rfl : lexeme = _ := h
      rw [words_mark (by decide), words_nil]
      rfl

theorem Token.words_lexeme {token : Token} (h : token.kind.Matches token.lexeme.toList)
    (hkind : token.kind.isTerminal = true) : words token.lexeme.toList = [token.word] := by
  rw [words_of_matches h hkind, String.ofList_toList]
  rfl

/-- The lexeme of a mark in a text is a word between the words on both sides of it. -/
theorem Token.words_append_lexeme {token : Token} {c : Char}
    (hlexeme : token.lexeme.toList = [c]) (hkind : token.kind = markKind c) (hmark : IsMark c)
    (xs ys : List Char) :
    words (xs ++ (token.lexeme.toList ++ ys)) = words xs ++ token.word :: words ys := by
  have hword : token.word = ⟨markKind c, String.singleton c⟩ := by
    rw [Token.word, hkind, Word.mk.injEq, ← String.toList_inj, hlexeme]
    exact ⟨rfl, by simp⟩
  rw [hlexeme, List.singleton_append, words_append_mark_cons hmark, hword]

theorem ParseTree.render_ofChildren (rule : Rule) (children : List Element) :
    (ofChildren rule children).render = Element.renderFirst rule.separator children := by
  rw [ofChildren_eq]
  rfl

/-- The children of a node other than a chain are written side by side. -/
theorem ParseTree.toList_render_glued {rule : Rule} (h : rule.isChain = false)
    (children : List Element) :
    (ofChildren rule children).render.toList =
      children.flatMap fun child => child.render.toList := by
  have hrest : ∀ rest : List Element, (Element.renderRest "" rest).toList =
      rest.flatMap fun child => child.render.toList := by
    intro rest
    induction rest with
    | nil => rfl
    | cons child rest ih =>
        rw [Element.renderRest, String.empty_append, String.toList_append, ih, List.flatMap_cons]
  have hseparator : rule.separator = "" := by
    rw [Rule.separator, h]
    rfl
  rw [render_ofChildren, hseparator]
  cases children with
  | nil => rfl
  | cons child rest =>
      rw [Element.renderFirst, String.toList_append, hrest, List.flatMap_cons]

/-- The links of a chain add their words to those of the text before them, since each operator and
each operand has a space before it. -/
theorem Element.words_renderRest {links : List (Token × ParseTree)}
    (hoperators : ∀ link ∈ links, words link.1.lexeme.toList = [link.1.word])
    (hoperands : ∀ link ∈ links, words link.2.render.toList = link.2.leaves.map Token.word)
    (text : List Char) :
    words (text ++ (Element.renderRest " " (Element.ofLinks links)).toList) =
      words text ++ (links.flatMap fun link => link.1 :: link.2.leaves).map Token.word := by
  induction links generalizing text with
  | nil => simp [Element.renderRest]
  | cons link links ih =>
      have hrest := ih (fun other hmem => hoperators other (List.mem_cons_of_mem _ hmem))
        (fun other hmem => hoperands other (List.mem_cons_of_mem _ hmem)) link.2.render.toList
      have htext : (Element.renderRest " " (Element.ofLinks (link :: links))).toList =
          ' ' :: (link.1.lexeme.toList ++ ' ' :: (link.2.render.toList ++
            (Element.renderRest " " (Element.ofLinks links)).toList)) := by
        simp [Element.renderRest, Element.render]
      rw [htext, words_append_space, words_append_space, hrest,
        hoperators link List.mem_cons_self, hoperands link List.mem_cons_self, List.flatMap_cons,
        List.map_append]
      simp

/-- A chain has the words of its first operand, and then those of its links. -/
theorem ParseTree.words_render_chain {rule : Rule} (h : rule.isChain = true) {first : ParseTree}
    {links : List (Token × ParseTree)}
    (hoperators : ∀ link ∈ links, words link.1.lexeme.toList = [link.1.word])
    (hoperands : ∀ link ∈ links, words link.2.render.toList = link.2.leaves.map Token.word) :
    words (ofChildren rule (.node first :: Element.ofLinks links)).render.toList =
      words first.render.toList ++
        (links.flatMap fun link => link.1 :: link.2.leaves).map Token.word := by
  have hseparator : rule.separator = " " := by
    rw [Rule.separator, h]
    rfl
  rw [render_ofChildren, Element.renderFirst, hseparator, String.toList_append, Element.render,
    Element.words_renderRest hoperators hoperands]

namespace Derivation

/-- A node over a single token is written as the token. -/
theorem words_literal {rule : Rule} {token : Token} {kind : TokenKind} (hkind : token.kind = kind)
    (hterminal : kind.isTerminal = true)
    (hmatches : ∀ leaf ∈ (ParseTree.ofChildren rule [.token token]).leaves,
      leaf.kind.Matches leaf.lexeme.toList) :
    words (ParseTree.ofChildren rule [.token token]).collapse.render.toList =
      (ParseTree.ofChildren rule [.token token]).leaves.map Token.word := by
  have htext : (ParseTree.ofChildren rule [.token token]).render = token.lexeme := by
    rw [ParseTree.render_ofChildren, Element.renderFirst, Element.renderRest, String.append_empty]
    rfl
  have hletters := hmatches token List.mem_cons_self
  rw [collapse_literal, htext, Token.words_lexeme hletters (hkind ▸ hterminal)]
  rfl

/-- **The text of a tree has the words of its tokens.** -/
theorem words_render {goal : Nonterminal} {full : ParseTree} (h : Derivation goal full)
    (hmatches : ∀ token ∈ full.leaves, token.kind.Matches token.lexeme.toList) :
    words full.collapse.render.toList = full.leaves.map Token.word := by
  induction h with
  | expression _ ih => exact ih hmatches
  | @chain goal operand rule first links hgoal hfirst hoperators hlinks ihfirst ihlinks =>
      rw [ParseTree.leaves_chain] at hmatches ⊢
      have hwords := ihfirst fun token hmem => hmatches token (List.mem_append_left _ hmem)
      have hlink : ∀ link ∈ links, ∀ token ∈ link.1 :: link.2.leaves,
          token.kind.Matches token.lexeme.toList := fun link hmem token htoken =>
        hmatches token (List.mem_append_right _ (List.mem_flatMap.2 ⟨link, hmem, htoken⟩))
      cases links with
      | nil =>
          rw [Element.ofLinks_nil, ParseTree.collapse_chain_nil first (goal.chain?_facts hgoal).1,
            hwords]
          simp
      | cons link more =>
          rw [collapse_chain_cons hfirst hlinks (List.cons_ne_nil _ _),
            ParseTree.words_render_chain (goal.chain?_facts hgoal).1, hwords, List.map_append,
            List.flatMap_map]
          · simp only [ParseTree.leaves_collapse]
          · refine List.forall_mem_map.2 fun link hmem => ?_
            exact Token.words_lexeme (hlink link hmem link.1 List.mem_cons_self)
              (Rule.isTerminal_of_mem_operators (hoperators link hmem))
          · refine List.forall_mem_map.2 fun link hmem => ?_
            rw [ParseTree.leaves_collapse]
            apply ihlinks link hmem
            intro token htoken
            exact hlink link hmem token (List.mem_cons_of_mem _ htoken)
  | plain hatom hfull ih =>
      rw [ParseTree.leaves_plain] at hmatches ⊢
      rw [hfull.collapse_plain, ParseTree.toList_render_glued rfl, List.flatMap_singleton]
      exact ih hmatches
  | @negated atom minus full hatom hminus hfull ih =>
      rw [ParseTree.leaves_negated, List.forall_mem_cons] at hmatches
      obtain ⟨hsign, hbody⟩ := hmatches
      rw [hminus] at hsign
      have htext : (ParseTree.ofChildren .single [.token minus, .node full]).collapse.render.toList
          = [] ++ (minus.lexeme.toList ++ full.collapse.render.toList) := by
        rw [hfull.collapse_negated, ParseTree.toList_render_glued rfl]
        simp [Element.render]
      rw [htext, Token.words_append_lexeme hsign hminus (by decide), ih hbody, words_nil,
        ParseTree.leaves_negated]
      rfl
  | @paren opening closing full hopening hfull hclosing ih =>
      rw [ParseTree.leaves_paren, List.forall_mem_cons, List.forall_mem_append,
        List.forall_mem_singleton] at hmatches
      obtain ⟨hopen, hbody, hclose⟩ := hmatches
      rw [hopening] at hopen
      rw [hclosing] at hclose
      have htext : (ParseTree.ofChildren .paren
          [.token opening, .node full, .token closing]).collapse.render.toList =
            [] ++ (opening.lexeme.toList ++
              (full.collapse.render.toList ++ (closing.lexeme.toList ++ []))) := by
        rw [collapse_paren, ParseTree.toList_render_glued rfl]
        simp [Element.render]
      rw [htext, Token.words_append_lexeme hopen hopening (by decide),
        Token.words_append_lexeme hclose hclosing (by decide), ih hbody, words_nil,
        ParseTree.leaves_paren]
      simp
  | @function name opening closing full hname hopening hfull hclosing ih =>
      rw [ParseTree.leaves_function, List.forall_mem_cons, List.forall_mem_cons,
        List.forall_mem_append, List.forall_mem_singleton] at hmatches
      obtain ⟨hletters, hopen, hbody, hclose⟩ := hmatches
      rw [hopening] at hopen
      rw [hclosing] at hclose
      have htext : (ParseTree.ofChildren .function
          [.token name, .token opening, .node full, .token closing]).collapse.render.toList =
            name.lexeme.toList ++ (opening.lexeme.toList ++
              (full.collapse.render.toList ++ (closing.lexeme.toList ++ []))) := by
        rw [collapse_function, ParseTree.toList_render_glued rfl]
        simp [Element.render]
      rw [htext, Token.words_append_lexeme hopen hopening (by decide),
        Token.words_append_lexeme hclose hclosing (by decide), ih hbody, words_nil,
        Token.words_lexeme hletters (congrArg TokenKind.isTerminal hname),
        ParseTree.leaves_function]
      simp
  | var hname => exact words_literal hname rfl hmatches
  | integer hdigits => exact words_literal hdigits rfl hmatches
  | decimal hdigits => exact words_literal hdigits rfl hmatches

end Derivation

/-! ## Texts -/

/-- **Reading what was rendered gives the same tree.** The text of a parse tree can be read, what is
read differs from the tree in its places only, and so it has the same text. -/
theorem parseTree_render {text : String} {tree : ParseTree} (h : parseTree text = .ok tree) :
    ∃ result, parseTree tree.render = .ok result ∧ result.placeless = tree.placeless ∧
      result.render = tree.render := by
  obtain ⟨full, hfull, hleaves, rfl⟩ := parseTree_eq_ok_iff_collapse.1 h
  have hwords : words text.toList = words full.collapse.render.toList := by
    rw [hfull.words_render, hleaves, words_tokenize]
    intro token hmem
    rw [hleaves] at hmem
    exact matches_of_mem_tokenize (List.mem_filter.1 hmem).1
  obtain ⟨start, stop, htokens⟩ := exists_relocate_of_words_eq hwords
  refine ⟨(full.relocate start stop).collapse, ?_, ?_, ?_⟩
  · rw [parseTree_eq_ok_iff_collapse]
    refine ⟨_, hfull.relocate start stop, ?_, rfl⟩
    rw [full.leaves_relocate, hleaves, htokens]
  · rw [full.collapse_relocate, full.collapse.placeless_relocate]
  · rw [full.collapse_relocate, full.collapse.render_relocate]

/-- A text with blanks where its tree has none, and with none where it has some. -/
theorem parseTree_render_nested :
    ∃ tree, parseTree "- f [a]*( b+2.5 )" = .ok tree ∧ tree.render = "-f[a] * (b + 2.5)" ∧
      ∃ result, parseTree "-f[a] * (b + 2.5)" = .ok result ∧
        result.placeless = tree.placeless ∧ result.render = tree.render := by
  obtain ⟨tree, htree⟩ : ∃ tree, parseTree "- f [a]*( b+2.5 )" = .ok tree :=
    exists_ok_of_isSome (by cbv)
  have htext : tree.render = "-f[a] * (b + 2.5)" := by
    have hmap : (parseTree "- f [a]*( b+2.5 )").toOption.map ParseTree.render =
        some "-f[a] * (b + 2.5)" := by cbv
    rw [htree] at hmap
    exact Option.some.inj hmap
  obtain ⟨result, hresult, hplaceless, hrender⟩ := parseTree_render htree
  rw [htext] at hresult
  exact ⟨tree, htree, htext, result, hresult, hplaceless, hrender⟩

end AlgebraText
