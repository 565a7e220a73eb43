import AlgebraText.Parser.Grammar

/-!
# Derivations

The grammar as a relation, apart from any parser:

```text
expression = additive
additive   = multiply ( ("+" | "-") multiply )*
multiply   = divide ( "*" divide )*
divide     = power ( "/" power )*
power      = single ( "^" single )*
single     = "-"? ( paren | function | var | number )
paren      = "(" expression ")"
function   = name "[" expression "]"
var        = name
number     = int | float
```

A derivation is a tree with a node for every chain level it passes through, also for the levels
that hold a single operand. Its leaves are the tokens it derives. Collapsing replaces each chain
node of one operand by that operand, and changes neither leaves nor spans.

## What this module delivers

* `Derivation`, the trees that a nonterminal derives, and `Derivable`, the token lists;
* `ParseTree.collapse`, with `ParseTree.leaves_collapse` and `Derivation.span_collapse`;
* `Derivation.collapse_injective`: no derivation is lost by collapsing.
-/

set_option autoImplicit false

namespace AlgebraText

/-! ## The grammar -/

/-- The children of a chain after its first operand: operators and operands in turn. -/
def Element.ofLinks (links : List (Token × ParseTree)) : List Element :=
  links.flatMap fun link => [.token link.1, .node link.2]

namespace Nonterminal

/-- A chain nonterminal joins operands of the next tighter one by the operators of its rule. -/
def chain? : Nonterminal → Option (Rule × Nonterminal)
  | additive => some (.additive, .multiply)
  | multiply => some (.multiply, .divide)
  | divide => some (.divide, .power)
  | power => some (.power, .single)
  | _ => none

/-- The nonterminals that an operand without its sign is derived from. -/
def isAtom : Nonterminal → Bool
  | paren | function | var | number => true
  | _ => false

end Nonterminal

/-- The derivation trees of a nonterminal. -/
inductive Derivation : Nonterminal → ParseTree → Prop
  /-- An expression is an additive chain. -/
  | expression {tree : ParseTree} : Derivation .additive tree → Derivation .expression tree
  /-- A chain is an operand, followed by any number of operators each with an operand. -/
  | chain {goal operand : Nonterminal} {rule : Rule} {first : ParseTree}
      {links : List (Token × ParseTree)} :
      goal.chain? = some (rule, operand) → Derivation operand first →
      (∀ link ∈ links, link.1.kind ∈ rule.operators) →
      (∀ link ∈ links, Derivation operand link.2) →
      Derivation goal (.ofChildren rule (.node first :: Element.ofLinks links))
  /-- An operand without a sign. -/
  | plain {atom : Nonterminal} {tree : ParseTree} :
      atom.isAtom = true → Derivation atom tree →
      Derivation .single (.ofChildren .single [.node tree])
  /-- An operand with a minus sign. -/
  | negated {atom : Nonterminal} {minus : Token} {tree : ParseTree} :
      atom.isAtom = true → minus.kind = .sub → Derivation atom tree →
      Derivation .single (.ofChildren .single [.token minus, .node tree])
  /-- An expression in parentheses. -/
  | paren {opening closing : Token} {body : ParseTree} :
      opening.kind = .openParen → Derivation .expression body → closing.kind = .closeParen →
      Derivation .paren (.ofChildren .paren [.token opening, .node body, .token closing])
  /-- A name with an expression in square brackets. -/
  | function {name opening closing : Token} {body : ParseTree} :
      name.kind = .name → opening.kind = .openSquare → Derivation .expression body →
      closing.kind = .closeSquare →
      Derivation .function
        (.ofChildren .function [.token name, .token opening, .node body, .token closing])
  /-- A name on its own. -/
  | var {name : Token} : name.kind = .name → Derivation .var (.ofChildren .var [.token name])
  /-- A number without a point. -/
  | integer {digits : Token} :
      digits.kind = .int → Derivation .number (.ofChildren .integer [.token digits])
  /-- A number with a point. -/
  | decimal {digits : Token} :
      digits.kind = .float → Derivation .number (.ofChildren .decimal [.token digits])

/-- The token lists that a nonterminal derives. -/
def Derivable (goal : Nonterminal) (tokens : List Token) : Prop :=
  ∃ tree, Derivation goal tree ∧ tree.leaves = tokens

/-! ## Children, spans and leaves -/

namespace Element

@[simp]
theorem ofLinks_nil : ofLinks [] = [] := rfl

@[simp]
theorem ofLinks_cons (link : Token × ParseTree) (links : List (Token × ParseTree)) :
    ofLinks (link :: links) = .token link.1 :: .node link.2 :: ofLinks links := rfl

theorem leavesOfList_ofLinks (links : List (Token × ParseTree)) :
    leavesOfList (ofLinks links) = links.flatMap fun link => link.1 :: link.2.leaves := by
  induction links with
  | nil => rfl
  | cons link links ih => simp [leavesOfList, leaves, ih]

end Element

namespace ParseTree

@[simp]
theorem rule_ofChildren (rule : Rule) (children : List Element) :
    (ofChildren rule children).rule = rule := by
  unfold ofChildren
  split <;> rfl

@[simp]
theorem children_ofChildren (rule : Rule) (children : List Element) :
    (ofChildren rule children).children = children := by
  unfold ofChildren
  split <;> rfl

theorem ofChildren_eq (rule : Rule) (children : List Element) :
    ofChildren rule children = ⟨rule, (ofChildren rule children).span, children⟩ := by
  unfold ofChildren
  split <;> rfl

theorem leaves_eq (tree : ParseTree) : tree.leaves = Element.leavesOfList tree.children := by
  cases tree
  rfl

@[simp]
theorem leaves_ofChildren (rule : Rule) (children : List Element) :
    (ofChildren rule children).leaves = Element.leavesOfList children := by
  rw [leaves_eq, children_ofChildren]

/-- The tokens of a chain: those of the first operand, then each operator with its operand. -/
theorem leaves_chain (rule : Rule) (first : ParseTree) (links : List (Token × ParseTree)) :
    (ofChildren rule (.node first :: Element.ofLinks links)).leaves =
      first.leaves ++ links.flatMap fun link => link.1 :: link.2.leaves := by
  rw [leaves_ofChildren, Element.leavesOfList, Element.leavesOfList_ofLinks, Element.leaves]

theorem leaves_plain (tree : ParseTree) :
    (ofChildren .single [.node tree]).leaves = tree.leaves := by
  simp [Element.leavesOfList, Element.leaves]

theorem leaves_negated (minus : Token) (tree : ParseTree) :
    (ofChildren .single [.token minus, .node tree]).leaves = minus :: tree.leaves := by
  simp [Element.leavesOfList, Element.leaves]

/-- The tokens of brackets stand around those of what they hold. -/
theorem leaves_paren (opening closing : Token) (body : ParseTree) :
    (ofChildren .paren [.token opening, .node body, .token closing]).leaves =
      opening :: (body.leaves ++ [closing]) := by
  simp [Element.leavesOfList, Element.leaves]

theorem leaves_function (name opening closing : Token) (body : ParseTree) :
    (ofChildren .function [.token name, .token opening, .node body, .token closing]).leaves =
      name :: opening :: (body.leaves ++ [closing]) := by
  simp [Element.leavesOfList, Element.leaves]

/-- A node over a single child has the span of the child. -/
theorem ofChildren_singleton (rule : Rule) (child : Element) :
    ofChildren rule [child] = ⟨rule, child.span, [child]⟩ := rfl

/-- Children that keep their spans give a node of the same span. -/
theorem ofChildren_map (rule : Rule) (children : List Element) (f : Element → Element)
    (hspan : ∀ child ∈ children, (f child).span = child.span) :
    ofChildren rule (children.map f) = ⟨rule, (ofChildren rule children).span, children.map f⟩ := by
  unfold ofChildren
  rw [List.head?_map, List.getLast?_map]
  -- a span is made of the first child's and the last child's, or of neither
  cases hhead : children.head? with
  | none => rfl
  | some first =>
      cases hlast : children.getLast? with
      | none => rfl
      | some last =>
          have hfirst := hspan first (List.mem_of_head? hhead)
          have hfinal := hspan last (List.mem_of_getLast? hlast)
          simp [hfirst, hfinal]

end ParseTree

/-! ## Collapsing -/

mutual

/-- The tree without its chain nodes of a single operand: the operand stands in their place. -/
def ParseTree.collapse : ParseTree → ParseTree
  | ⟨rule, span, children⟩ =>
    match rule.isChain, children with
    | true, [.node operand] => operand.collapse
    | _, children => ⟨rule, span, Element.collapseList children⟩

/-- A child with its tree collapsed. -/
def Element.collapse : Element → Element
  | .node tree => .node tree.collapse
  | .token token => .token token

/-- A list of children, each collapsed. -/
def Element.collapseList : List Element → List Element
  | [] => []
  | child :: rest => child.collapse :: Element.collapseList rest

end

theorem Element.collapseList_eq_map (children : List Element) :
    Element.collapseList children = children.map Element.collapse := by
  induction children with
  | nil => rfl
  | cons child children ih => rw [Element.collapseList, ih, List.map_cons]

theorem Element.collapseList_ofLinks (links : List (Token × ParseTree)) :
    Element.collapseList (Element.ofLinks links) =
      Element.ofLinks (links.map fun link => (link.1, link.2.collapse)) := by
  induction links with
  | nil => rfl
  | cons link links ih => simp [Element.collapseList, Element.collapse, ih]

namespace ParseTree

/-- A chain node of a single operand collapses to what its operand collapses to. -/
theorem collapse_chain_nil {rule : Rule} (first : ParseTree) (h : rule.isChain = true) :
    (ofChildren rule [.node first]).collapse = first.collapse := by
  rw [ofChildren_singleton, collapse]
  exact h

/-- Any other node keeps its rule and its span. -/
theorem collapse_node {rule : Rule} {children : List Element}
    (h : rule.isChain = false ∨ ∀ operand, children ≠ [.node operand]) :
    (ofChildren rule children).collapse =
      ⟨rule, (ofChildren rule children).span, Element.collapseList children⟩ := by
  rw [ofChildren_eq, collapse]
  intro operand hchain hshape
  rcases h with hrule | hother
  · rw [hchain] at hrule
    cases hrule
  · exact hother operand hshape

/-- Where the children keep their spans, such a node is the node of the collapsed children. -/
theorem collapse_ofChildren {rule : Rule} {children : List Element}
    (h : rule.isChain = false ∨ ∀ operand, children ≠ [.node operand])
    (hspan : ∀ child ∈ children, child.collapse.span = child.span) :
    (ofChildren rule children).collapse = ofChildren rule (Element.collapseList children) := by
  rw [collapse_node h, Element.collapseList_eq_map, ofChildren_map rule children _ hspan]

end ParseTree

mutual

/-- Collapsing loses no token. -/
theorem ParseTree.leaves_collapse : ∀ tree : ParseTree, tree.collapse.leaves = tree.leaves
  | ⟨rule, span, children⟩ => by
      have hchildren := Element.leavesOfList_collapseList children
      unfold ParseTree.collapse
      split
      · -- the node that goes had no token of its own
        rename_i operand _
        simpa [Element.collapseList, Element.leavesOfList, Element.collapse, Element.leaves,
          ParseTree.leaves] using hchildren
      · exact hchildren

theorem Element.leaves_collapse : ∀ child : Element, child.collapse.leaves = child.leaves
  | .node tree => ParseTree.leaves_collapse tree
  | .token _ => rfl

theorem Element.leavesOfList_collapseList : ∀ children : List Element,
    Element.leavesOfList (Element.collapseList children) = Element.leavesOfList children
  | [] => rfl
  | child :: rest => by
      have hchild := Element.leaves_collapse child
      have hrest := Element.leavesOfList_collapseList rest
      rw [Element.collapseList, Element.leavesOfList, Element.leavesOfList, hchild, hrest]

end

/-! ## Levels

Chains are nested by how tightly their operators bind. The numbers are the priorities of the
operators; a minus sign binds tighter than any of them, and what has neither binds tightest. -/

/-- How tightly the operators of a rule bind. -/
def Rule.level : Rule → Nat
  | additive => 2
  | multiply => 3
  | divide => 4
  | power => 5
  | single => 6
  | _ => 7

/-- How tightly the loosest operator binds that a nonterminal can have outside brackets. -/
def Nonterminal.level : Nonterminal → Nat
  | expression | additive => 2
  | multiply => 3
  | divide => 4
  | power => 5
  | single => 6
  | _ => 7

/-- What a chain nonterminal is made of: a rule of its own level with operators, and operands of
the next level. -/
theorem Nonterminal.chain?_facts {goal operand : Nonterminal} {rule : Rule}
    (h : goal.chain? = some (rule, operand)) :
    rule.isChain = true ∧ rule.level = goal.level ∧ operand.level = goal.level + 1 := by
  cases goal <;> simp [chain?] at h
  all_goals
    obtain ⟨rfl, rfl⟩ := h
    exact ⟨rfl, rfl, rfl⟩

/-- The kinds of token that the grammar has a place for. -/
def TokenKind.isTerminal : TokenKind → Bool
  | whitespace | newLine | dot | symbol => false
  | _ => true

theorem Rule.isTerminal_of_mem_operators {rule : Rule} {kind : TokenKind}
    (h : kind ∈ rule.operators) : kind.isTerminal = true := by
  cases rule <;> simp [operators] at h
  · rcases h with rfl | rfl <;> rfl
  all_goals
    subst h
    rfl

/-- No kind that the grammar has a place for is blank. -/
theorem Token.isBlank_of_isTerminal {token : Token} (h : token.kind.isTerminal = true) :
    token.isBlank = false := by
  rw [Token.isBlank]
  cases hkind : token.kind with
  | whitespace | newLine =>
      rw [hkind] at h
      cases h
  | add | sub | mul | div | exp | openParen | closeParen | openSquare | closeSquare | name | int
  | float | dot | symbol => rfl

theorem Token.isBlank_of_kind {token : Token} {kind : TokenKind} (h : token.kind = kind)
    (hkind : kind.isBlank = false) : token.isBlank = false := by
  rw [Token.isBlank, h]
  exact hkind

namespace Derivation

/-- Collapsing keeps the span of a derivation. -/
theorem span_collapse {goal : Nonterminal} {tree : ParseTree} (h : Derivation goal tree) :
    tree.collapse.span = tree.span := by
  induction h with
  | expression _ ih => exact ih
  | @chain goal operand rule first links hgoal _ _ _ ih _ =>
      cases links with
      | nil =>
          rw [Element.ofLinks_nil, ParseTree.collapse_chain_nil first (goal.chain?_facts hgoal).1,
            ParseTree.ofChildren_singleton]
          exact ih
      | cons link links =>
          rw [ParseTree.collapse_node (Or.inr (by simp))]
  | plain => rfl
  | negated => rfl
  | paren => rfl
  | function => rfl
  | var => rfl
  | integer => rfl
  | decimal => rfl

/-- Collapsing a chain of several operands collapses its operands. -/
theorem collapse_chain_cons {operand : Nonterminal} {rule : Rule} {first : ParseTree}
    {links : List (Token × ParseTree)} (hfirst : Derivation operand first)
    (hlinks : ∀ link ∈ links, Derivation operand link.2) (hne : links ≠ []) :
    (ParseTree.ofChildren rule (.node first :: Element.ofLinks links)).collapse =
      .ofChildren rule (.node first.collapse ::
        Element.ofLinks (links.map fun link => (link.1, link.2.collapse))) := by
  have hshape : ∀ single, Element.node first :: Element.ofLinks links ≠ [.node single] := by
    cases links with
    | nil => exact absurd rfl hne
    | cons link links => simp
  have hspan : ∀ child ∈ Element.node first :: Element.ofLinks links,
      child.collapse.span = child.span := by
    intro child hmem
    simp only [Element.ofLinks, List.mem_cons, List.mem_flatMap, List.not_mem_nil, or_false] at hmem
    rcases hmem with rfl | ⟨link, hlink, rfl | rfl⟩
    · exact hfirst.span_collapse
    · rfl
    · exact (hlinks link hlink).span_collapse
  rw [ParseTree.collapse_ofChildren (Or.inr hshape) hspan, Element.collapseList,
    Element.collapseList_ofLinks, Element.collapse]

/-- Collapsing a node of brackets, of a sign or of a literal collapses what it holds. -/
theorem collapse_plain {atom : Nonterminal} {tree : ParseTree} (h : Derivation atom tree) :
    (ParseTree.ofChildren .single [.node tree]).collapse =
      .ofChildren .single [.node tree.collapse] := by
  rw [ParseTree.collapse_ofChildren (Or.inl rfl)]
  · rfl
  · intro child hmem
    obtain rfl := List.mem_singleton.1 hmem
    exact h.span_collapse

theorem collapse_negated {atom : Nonterminal} {minus : Token} {tree : ParseTree}
    (h : Derivation atom tree) :
    (ParseTree.ofChildren .single [.token minus, .node tree]).collapse =
      .ofChildren .single [.token minus, .node tree.collapse] := by
  rw [ParseTree.collapse_ofChildren (Or.inl rfl)]
  · rfl
  · intro child hmem
    simp only [List.mem_cons, List.not_mem_nil, or_false] at hmem
    rcases hmem with rfl | rfl
    · rfl
    · exact h.span_collapse

theorem collapse_paren {opening closing : Token} {body : ParseTree} :
    (ParseTree.ofChildren .paren [.token opening, .node body, .token closing]).collapse =
      .ofChildren .paren [.token opening, .node body.collapse, .token closing] := rfl

theorem collapse_function {name opening closing : Token} {body : ParseTree} :
    (ParseTree.ofChildren .function
        [.token name, .token opening, .node body, .token closing]).collapse =
      .ofChildren .function
        [.token name, .token opening, .node body.collapse, .token closing] := rfl

/-- A rule of a collapsed derivation binds at least as tightly as its nonterminal. -/
theorem level_le_rule_level {goal : Nonterminal} {tree : ParseTree} (h : Derivation goal tree) :
    goal.level ≤ tree.collapse.rule.level := by
  induction h with
  | expression _ ih => exact ih
  | @chain goal operand rule first links hgoal hfirst _ hlinks ih _ =>
      obtain ⟨hchain, hlevel, hnext⟩ := Nonterminal.chain?_facts hgoal
      cases links with
      | nil =>
          -- the operand that is left is of the next level or a tighter one
          rw [Element.ofLinks_nil, ParseTree.collapse_chain_nil first hchain]
          omega
      | cons link links =>
          rw [collapse_chain_cons hfirst hlinks (by simp), ParseTree.rule_ofChildren]
          exact Nat.le_of_eq hlevel.symm
  | plain _ h _ => rw [collapse_plain h]; exact Nat.le_refl 6
  | negated _ _ h _ => rw [collapse_negated h]; exact Nat.le_refl 6
  | paren => exact Nat.le_refl 7
  | function => exact Nat.le_refl 7
  | var => exact Nat.le_refl 7
  | integer => exact Nat.le_refl 7
  | decimal => exact Nat.le_refl 7

/-- Every derived token is of a kind that the grammar has a place for. -/
theorem isTerminal_of_mem_leaves {goal : Nonterminal} {tree : ParseTree}
    (h : Derivation goal tree) : ∀ token ∈ tree.leaves, token.kind.isTerminal = true := by
  induction h with
  | expression _ ih => exact ih
  | @chain goal operand rule first links hgoal _ hoperators _ ihfirst ihlinks =>
      intro token hmem
      rw [ParseTree.leaves_chain, List.mem_append, List.mem_flatMap] at hmem
      rcases hmem with hmem | ⟨link, hlink, hmem⟩
      · exact ihfirst token hmem
      · rcases List.mem_cons.1 hmem with rfl | hmem
        · exact Rule.isTerminal_of_mem_operators (hoperators link hlink)
        · exact ihlinks link hlink token hmem
  | plain _ _ ih =>
      rw [ParseTree.leaves_plain]
      exact ih
  | negated _ hminus _ ih =>
      intro token hmem
      rw [ParseTree.leaves_negated, List.mem_cons] at hmem
      rcases hmem with rfl | hmem
      · exact congrArg TokenKind.isTerminal hminus
      · exact ih token hmem
  | paren hopening _ hclosing ih =>
      intro token hmem
      rw [ParseTree.leaves_paren, List.mem_cons, List.mem_append, List.mem_singleton] at hmem
      rcases hmem with rfl | hmem | rfl
      · exact congrArg TokenKind.isTerminal hopening
      · exact ih token hmem
      · exact congrArg TokenKind.isTerminal hclosing
  | function hname hopening _ hclosing ih =>
      intro token hmem
      rw [ParseTree.leaves_function, List.mem_cons, List.mem_cons, List.mem_append,
        List.mem_singleton] at hmem
      rcases hmem with rfl | rfl | hmem | rfl
      · exact congrArg TokenKind.isTerminal hname
      · exact congrArg TokenKind.isTerminal hopening
      · exact ih token hmem
      · exact congrArg TokenKind.isTerminal hclosing
  | var hname =>
      intro token hmem
      obtain rfl := List.mem_singleton.1 hmem
      exact congrArg TokenKind.isTerminal hname
  | integer hdigits =>
      intro token hmem
      obtain rfl := List.mem_singleton.1 hmem
      exact congrArg TokenKind.isTerminal hdigits
  | decimal hdigits =>
      intro token hmem
      obtain rfl := List.mem_singleton.1 hmem
      exact congrArg TokenKind.isTerminal hdigits

/-- A derived token list holds no blank token. -/
theorem isBlank_of_mem_leaves {goal : Nonterminal} {tree : ParseTree} (h : Derivation goal tree) :
    ∀ token ∈ tree.leaves, token.isBlank = false := by
  intro token hmem
  apply Token.isBlank_of_isTerminal
  exact h.isTerminal_of_mem_leaves token hmem

/-! ## Collapsing is injective -/

/-- The rule of a derived atom tells which nonterminal it was derived from. -/
theorem atom_eq_of_rule_eq {atom atom' : Nonterminal} {tree tree' : ParseTree}
    (h : Derivation atom tree) (h' : Derivation atom' tree') (hatom : atom.isAtom = true)
    (hatom' : atom'.isAtom = true) (hrule : tree.collapse.rule = tree'.collapse.rule) :
    atom = atom' := by
  -- integers and decimals share a nonterminal; apart from them rules and nonterminals correspond
  have hself : ∀ {goal : Nonterminal} {tree : ParseTree}, Derivation goal tree →
      goal.isAtom = true →
      (goal = .paren ∧ tree.collapse.rule = .paren) ∨
        (goal = .function ∧ tree.collapse.rule = .function) ∨
        (goal = .var ∧ tree.collapse.rule = .var) ∨
        (goal = .number ∧
          (tree.collapse.rule = .integer ∨ tree.collapse.rule = .decimal)) := by
    intro goal tree hd hgoal
    cases hd with
    | expression => cases hgoal
    | chain hchain => cases goal <;> simp [Nonterminal.isAtom, Nonterminal.chain?] at hgoal hchain
    | plain => cases hgoal
    | negated => cases hgoal
    | paren => exact Or.inl ⟨rfl, rfl⟩
    | function => exact Or.inr (Or.inl ⟨rfl, rfl⟩)
    | var => exact Or.inr (Or.inr (Or.inl ⟨rfl, rfl⟩))
    | integer => exact Or.inr (Or.inr (Or.inr ⟨rfl, Or.inl rfl⟩))
    | decimal => exact Or.inr (Or.inr (Or.inr ⟨rfl, Or.inr rfl⟩))
  have h₁ := hself h hatom
  have h₂ := hself h' hatom'
  grind

/-- Chains that collapse to the same links have the same links, if operands do. -/
theorem links_eq_of_collapse_eq {operand : Nonterminal} {links links' : List (Token × ParseTree)}
    (hlinks' : ∀ link ∈ links', Derivation operand link.2)
    (ih : ∀ link ∈ links, ∀ {tree' : ParseTree}, Derivation operand tree' →
      link.2.collapse = tree'.collapse → link.2 = tree')
    (h : Element.ofLinks (links.map fun link => (link.1, link.2.collapse)) =
      Element.ofLinks (links'.map fun link => (link.1, link.2.collapse))) :
    links = links' := by
  induction links generalizing links' with
  | nil =>
      cases links' with
      | nil => rfl
      | cons link' links' => simp at h
  | cons link links ihl =>
      cases links' with
      | nil => simp at h
      | cons link' links' =>
          simp only [List.map_cons, Element.ofLinks_cons, List.cons.injEq, Element.token.injEq,
            Element.node.injEq] at h
          obtain ⟨hoperator, hoperand, hrest⟩ := h
          have htree := ih link List.mem_cons_self (hlinks' link' List.mem_cons_self) hoperand
          have htail := ihl (fun other hmem => hlinks' other (List.mem_cons_of_mem _ hmem))
            (fun other hmem => ih other (List.mem_cons_of_mem _ hmem)) hrest
          rw [htail, Prod.ext hoperator htree]

/-- Chains of one level that collapse to the same tree have the same operands, if these are
determined by what they collapse to. -/
theorem operands_eq_of_collapse_eq {goal operand : Nonterminal} {rule : Rule}
    {first first' : ParseTree} {links links' : List (Token × ParseTree)}
    (hgoal : goal.chain? = some (rule, operand)) (hfirst : Derivation operand first)
    (hfirst' : Derivation operand first') (hlinks : ∀ link ∈ links, Derivation operand link.2)
    (hlinks' : ∀ link ∈ links', Derivation operand link.2)
    (ihfirst : first.collapse = first'.collapse → first = first')
    (ihlinks : ∀ link ∈ links, ∀ {tree' : ParseTree}, Derivation operand tree' →
      link.2.collapse = tree'.collapse → link.2 = tree')
    (heq : (ParseTree.ofChildren rule (.node first :: Element.ofLinks links)).collapse =
      (ParseTree.ofChildren rule (.node first' :: Element.ofLinks links')).collapse) :
    first = first' ∧ links = links' := by
  obtain ⟨hchain, hlevel, hnext⟩ := Nonterminal.chain?_facts hgoal
  have htight := hfirst.level_le_rule_level
  have htight' := hfirst'.level_le_rule_level
  cases links with
  | nil =>
      rw [Element.ofLinks_nil, ParseTree.collapse_chain_nil first hchain] at heq
      cases links' with
      | nil =>
          rw [Element.ofLinks_nil, ParseTree.collapse_chain_nil first' hchain] at heq
          exact ⟨ihfirst heq, rfl⟩
      | cons link' links' =>
          -- an operand of this level cannot have the rule of a looser one
          rw [collapse_chain_cons hfirst' hlinks' (by simp)] at heq
          rw [heq, ParseTree.rule_ofChildren] at htight
          omega
  | cons link links =>
      rw [collapse_chain_cons hfirst hlinks (by simp)] at heq
      cases links' with
      | nil =>
          rw [Element.ofLinks_nil, ParseTree.collapse_chain_nil first' hchain] at heq
          rw [← heq, ParseTree.rule_ofChildren] at htight'
          omega
      | cons link' links' =>
          rw [collapse_chain_cons hfirst' hlinks' (by simp)] at heq
          have hchildren := congrArg ParseTree.children heq
          rw [ParseTree.children_ofChildren, ParseTree.children_ofChildren, List.cons.injEq,
            Element.node.injEq] at hchildren
          exact ⟨ihfirst hchildren.1, links_eq_of_collapse_eq hlinks' ihlinks hchildren.2⟩

/-- **No derivation is lost by collapsing.** Two derivations of one nonterminal that collapse to the
same tree are equal: whether a level held a single operand can be told from the rule that is left,
which binds tighter than the level exactly if it did. -/
theorem collapse_injective {goal : Nonterminal} {tree tree' : ParseTree}
    (h : Derivation goal tree) (h' : Derivation goal tree')
    (heq : tree.collapse = tree'.collapse) : tree = tree' := by
  induction h generalizing tree' with
  | expression _ ih =>
      cases h' with
      | expression h' => exact ih h' heq
      | chain hgoal => cases hgoal
  | @chain goal operand rule first links hgoal hfirst _ hlinks ihfirst ihlinks =>
      cases h' with
      | @chain _ operand' rule' first' links' hgoal' hfirst' _ hlinks' =>
          rw [hgoal] at hgoal'
          cases hgoal'
          obtain ⟨rfl, rfl⟩ := operands_eq_of_collapse_eq hgoal hfirst hfirst' hlinks hlinks'
            (ihfirst hfirst') ihlinks heq
          rfl
      | expression => cases hgoal
      | plain => cases hgoal
      | negated => cases hgoal
      | paren => cases hgoal
      | function => cases hgoal
      | var => cases hgoal
      | integer => cases hgoal
      | decimal => cases hgoal
  | plain hatom h ih =>
      cases h' with
      | chain hgoal => cases hgoal
      | plain hatom' h' =>
          rw [collapse_plain h, collapse_plain h'] at heq
          simp only [ParseTree.ofChildren_singleton, ParseTree.mk.injEq, List.cons.injEq,
            Element.node.injEq, and_true] at heq
          have hsame := heq.2.2
          obtain rfl := atom_eq_of_rule_eq h h' hatom hatom' (by rw [hsame])
          rw [ih h' hsame]
      | negated hatom' hminus' h' =>
          -- the sign is a child of its own, so the two nodes differ in length
          have hchildren := congrArg ParseTree.children heq
          rw [collapse_plain h, collapse_negated h'] at hchildren
          simp at hchildren
  | negated hatom hminus h ih =>
      cases h' with
      | chain hgoal => cases hgoal
      | plain hatom' h' =>
          have hchildren := congrArg ParseTree.children heq
          rw [collapse_negated h, collapse_plain h'] at hchildren
          simp at hchildren
      | negated hatom' hminus' h' =>
          have hchildren := congrArg ParseTree.children heq
          rw [collapse_negated h, collapse_negated h'] at hchildren
          simp only [ParseTree.children_ofChildren, List.cons.injEq, Element.token.injEq,
            Element.node.injEq, and_true] at hchildren
          obtain ⟨rfl, hsame⟩ := hchildren
          obtain rfl := atom_eq_of_rule_eq h h' hatom hatom' (by rw [hsame])
          rw [ih h' hsame]
  | paren _ _ _ ih =>
      cases h' with
      | chain hgoal => cases hgoal
      | paren _ h' _ =>
          have hchildren := congrArg ParseTree.children heq
          rw [collapse_paren, collapse_paren] at hchildren
          simp only [ParseTree.children_ofChildren, List.cons.injEq, Element.token.injEq,
            Element.node.injEq, and_true] at hchildren
          obtain ⟨rfl, hsame, rfl⟩ := hchildren
          rw [ih h' hsame]
  | function _ _ _ _ ih =>
      cases h' with
      | chain hgoal => cases hgoal
      | function _ _ h' _ =>
          have hchildren := congrArg ParseTree.children heq
          rw [collapse_function, collapse_function] at hchildren
          simp only [ParseTree.children_ofChildren, List.cons.injEq, Element.token.injEq,
            Element.node.injEq, and_true] at hchildren
          obtain ⟨rfl, rfl, hsame, rfl⟩ := hchildren
          rw [ih h' hsame]
  | var _ =>
      cases h' with
      | chain hgoal => cases hgoal
      | var _ => exact heq
  | integer _ =>
      cases h' with
      | chain hgoal => cases hgoal
      | integer _ => exact heq
      | decimal _ => exact heq
  | decimal _ =>
      cases h' with
      | chain hgoal => cases hgoal
      | integer _ => exact heq
      | decimal _ => exact heq

end Derivation

end AlgebraText
