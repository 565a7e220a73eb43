import AlgebraText.Expr.Builder
import AlgebraText.Proofs.Expr.Spelling
import AlgebraText.Proofs.Grammar.Derivation

/-!
# Building, node by node

What a node builds to, given what the nodes below it build to. The builder is opened here once, and
turned into a relation with one constructor for each way in which a node builds. What holds of all
trees that build is proved by cases on this relation; for the nodes that the grammar forms there is
an equation each, so that proofs about derivations cite these. The operators of a chain rule are
those of one priority, which is the level of the rule.

## What this module delivers

* `chainMethod?_eq` and `exists_method_of_mem_operators`: the operators of a rule;
* `ParseTree.build_chain` and `Element.linksBuild_cons`: the nodes of chains;
* `ParseTree.induction_children`, induction over the nodes of a tree;
* `Built`, the builder as a relation, with `ParseTree.build_eq_ok_iff_built`;
* `ParseTree.build_plain`, `ParseTree.build_negated`, `ParseTree.build_paren`,
  `ParseTree.build_function`, `ParseTree.build_var`, `ParseTree.build_integer`,
  `ParseTree.build_decimal`: the nodes of operands.
-/

set_option autoImplicit false

namespace AlgebraText

/-! ## Operators -/

/-- The operators of a rule are those whose tokens it consumes. -/
theorem Method.kind_mem_operators (method : Method) : method.kind ∈ method.rule.operators := by
  cases method <;> decide

theorem Method.level_rule (method : Method) : method.rule.level = method.priority := by
  cases method <;> rfl

theorem chainMethod?_eq (method : Method) : chainMethod? method.rule method.kind = some method := by
  cases method <;> rfl

/-- Every token that a chain consumes between its operands is an operator of its level. -/
theorem exists_method_of_mem_operators {rule : Rule} {kind : TokenKind}
    (h : kind ∈ rule.operators) :
    ∃ method, method.kind = kind ∧ method.rule = rule ∧ chainMethod? rule kind = some method := by
  cases rule <;> simp only [Rule.operators, List.mem_cons, List.not_mem_nil, or_false] at h
  · rcases h with rfl | rfl
    · exact ⟨.add, rfl, rfl, rfl⟩
    · exact ⟨.subtract, rfl, rfl, rfl⟩
  · subst h
    exact ⟨.multiply, rfl, rfl, rfl⟩
  · subst h
    exact ⟨.divide, rfl, rfl, rfl⟩
  · subst h
    exact ⟨.power, rfl, rfl, rfl⟩

/-- An operator that belongs to the level of a chain is one that the chain consumes. -/
theorem mem_operators_of_chainMethod? {rule : Rule} {kind : TokenKind} {method : Method}
    (h : chainMethod? rule kind = some method) : kind ∈ rule.operators ∧ method.kind = kind := by
  obtain ⟨htoken, hrule⟩ := Option.filter_eq_some_iff.1 h
  have hkind : method.kind = kind := by
    cases kind <;> simp [Method.ofToken?] at htoken <;> subst htoken <;> rfl
  refine ⟨?_, hkind⟩
  rw [← hkind, ← beq_iff_eq.1 hrule]
  exact method.kind_mem_operators

theorem rule_eq_of_chainMethod? {rule : Rule} {kind : TokenKind} {method : Method}
    (h : chainMethod? rule kind = some method) : method.rule = rule :=
  beq_iff_eq.1 (Option.filter_eq_some_iff.1 h).2

/-! ## Literals -/

/-- Digits have a canonical form: what follows the zeros in front, or one zero. -/
theorem canonicalDigits?_of_isDigits {digits : String} (h : IsDigits digits.toList) :
    canonicalDigits? digits =
      some (if (digits.toList.dropWhile (· == '0')).isEmpty then "0"
        else String.ofList (digits.toList.dropWhile (· == '0'))) := by
  have hall : digits.toList.all Char.isDigit = true := List.all_eq_true.2 h.2
  have hempty : digits.toList.isEmpty = false := by simpa using h.1
  unfold canonicalDigits?
  dsimp only
  rw [hempty, hall]
  rfl

/-- Digits without a superfluous zero are left as they are. -/
theorem canonicalDigits?_of_isCanonical {digits : String} (h : IsCanonical digits.toList) :
    canonicalDigits? digits = some digits := by
  obtain ⟨hdigits, hzero⟩ := h
  rw [canonicalDigits?_of_isDigits hdigits]
  obtain ⟨c, cs, hcs⟩ := List.exists_cons_of_ne_nil hdigits.1
  by_cases hc : c = '0'
  · -- a leading zero is the whole number
    have hlone : digits.toList = ['0'] := hzero (by rw [hcs, hc]; rfl)
    have hsame : digits = "0" := String.toList_inj.1 (hlone.trans (by decide))
    rw [hlone, hsame]
    rfl
  · rw [hcs, List.dropWhile_cons_of_neg (by simpa using hc), List.isEmpty_cons, ← hcs,
      String.ofList_toList]
    rfl

/-- Only digits have a canonical form. -/
theorem isDigits_of_canonicalDigits? {digits value : String}
    (h : canonicalDigits? digits = some value) : IsDigits digits.toList := by
  unfold canonicalDigits? at h
  dsimp only at h
  split at h
  · cases h
  · rename_i hdigits
    simpa [IsDigits] using hdigits

theorem isCanonical_of_canonicalDigits? {digits value : String}
    (h : canonicalDigits? digits = some value) : IsCanonical value.toList := by
  have hdigits := isDigits_of_canonicalDigits? h
  rw [canonicalDigits?_of_isDigits hdigits, Option.some.injEq] at h
  subst h
  by_cases hnone : (digits.toList.dropWhile (· == '0')).isEmpty = true
  · rw [if_pos hnone]
    decide
  · rw [if_neg hnone, String.toList_ofList]
    refine ⟨⟨by simpa using hnone, ?_⟩, ?_⟩
    · intro c hmem
      exact hdigits.2 c ((List.dropWhile_sublist _).mem hmem)
    · -- what is left after the zeros does not start with one
      intro hhead
      have hstop := List.head?_dropWhile_not (· == '0') digits.toList
      rw [hhead] at hstop
      simp at hstop

-- the nodes and the lists below them build by one recursion, unfolded here once for all rules
attribute [local simp] ParseTree.build Element.buildFunction Element.buildParen Element.buildSingle
  Element.buildChain Element.buildLinks

/-! ## Chains -/

/-- Links build to operations if they do so in a chain of any span. -/
def Element.LinksBuild (rule : Rule) (links : List Element) (operations : List Operation) : Prop :=
  ∀ span, Element.buildLinks rule span links = .ok operations

theorem Element.linksBuild_nil (rule : Rule) : Element.LinksBuild rule [] [] := by
  intro span
  simp

/-- One more link adds one more operation. -/
theorem Element.linksBuild_cons {rule : Rule} {operator : Token} {method : Method}
    {right : ParseTree} {operand : Expr} {more : List Element} {operations : List Operation}
    (hmethod : chainMethod? rule operator.kind = some method) (hright : right.build = .ok operand)
    (hmore : Element.LinksBuild rule more operations) :
    Element.LinksBuild rule (.token operator :: .node right :: more)
      (⟨some method, operand, some ⟨rule, operator.span.through right.span⟩⟩ :: operations) := by
  -- the span of the chain appears in failures only, so the origin does not depend on it
  intro span
  simp [hmethod, hright, hmore span, bind, Except.bind]

/-- A chain with links builds to the sequence of its operands. -/
theorem ParseTree.build_of_isChain {rule : Rule} (hchain : rule.isChain = true) {span : Span}
    {first : ParseTree} {e : Expr} {links : List Element} {operations : List Operation}
    (hfirst : first.build = .ok e) (hlinks : Element.LinksBuild rule links operations)
    (hne : operations ≠ []) :
    (⟨rule, span, .node first :: links⟩ : ParseTree).build =
      .ok (.seq (⟨none, e, some ⟨rule, first.span⟩⟩ :: operations) (some ⟨rule, span⟩)) := by
  have hbuild : (⟨rule, span, .node first :: links⟩ : ParseTree).build =
      Element.buildChain rule span (.node first :: links) := by
    cases rule with
    | additive | multiply | divide | power => simp only [build]
    | expression | single | paren | function | var | integer | decimal => cases hchain
  rw [hbuild]
  simp [hfirst, hlinks _, hne, bind, Except.bind]

theorem ParseTree.build_chain {goal operand : Nonterminal} {rule : Rule} {first : ParseTree}
    {e : Expr} {links : List Element} {operations : List Operation}
    (hgoal : goal.chain? = some (rule, operand)) (hfirst : first.build = .ok e)
    (hlinks : Element.LinksBuild rule links operations) (hne : operations ≠ []) :
    (ofChildren rule (.node first :: links)).build =
      .ok (.seq (⟨none, e, some ⟨rule, first.span⟩⟩ :: operations)
        (some ⟨rule, (ofChildren rule (.node first :: links)).span⟩)) := by
  rw [ofChildren_eq]
  exact build_of_isChain (goal.chain?_facts hgoal).1 hfirst hlinks hne

/-! ## Induction over nodes -/

mutual

/-- Induction over parse trees: what a tree has if the nodes among its children do, all have. -/
theorem ParseTree.induction_children {P : ParseTree → Prop}
    (step : ∀ rule span children, (∀ child, Element.node child ∈ children → P child) →
      P ⟨rule, span, children⟩) : ∀ tree, P tree
  | ⟨rule, span, children⟩ => step rule span children (Element.induction_children step children)

theorem Element.induction_children {P : ParseTree → Prop}
    (step : ∀ rule span children, (∀ child, Element.node child ∈ children → P child) →
      P ⟨rule, span, children⟩) :
    ∀ children : List Element, ∀ child, Element.node child ∈ children → P child
  | [], _, hmem => by cases hmem
  | .token _ :: rest, child, hmem => by
      rcases List.mem_cons.1 hmem with heq | hmem
      · cases heq
      · exact Element.induction_children step rest child hmem
  | .node tree :: rest, child, hmem => by
      rcases List.mem_cons.1 hmem with heq | hmem
      · cases heq
        exact ParseTree.induction_children step tree
      · exact Element.induction_children step rest child hmem

end

/-! ## The builder as a relation

A tree builds to an expression in exactly one of nine ways. Whatever holds of everything that is
built has one case for each of them. -/

/-- A further operand of a chain node, with the operator before it and what it builds to. -/
structure BuiltLink where
  /-- The token of the operator. -/
  operator : Token
  /-- The operator. -/
  method : Method
  /-- The node of the operand. -/
  node : ParseTree
  /-- The operand. -/
  operand : Expr

namespace BuiltLink

/-- The operator and the operand, as they stand among the children of a chain node. -/
def pair (link : BuiltLink) : Token × ParseTree := (link.operator, link.node)

/-- The operation that a link of a chain builds to. -/
def operation (rule : Rule) (link : BuiltLink) : Operation :=
  ⟨some link.method, link.operand, some ⟨rule, link.operator.span.through link.node.span⟩⟩

end BuiltLink

/-- The trees that build, each with what it builds to. -/
inductive Built : ParseTree → Expr → Prop
  /-- A number without a point. -/
  | integer {span : Span} {digits : Token} {value : String} :
      digits.kind = .int → canonicalDigits? digits.lexeme = some value →
      Built ⟨.integer, span, [.token digits]⟩ (.integer value (some ⟨.integer, span⟩))
  /-- A number with a point. -/
  | decimal {span : Span} {digits : Token} {value : Binary64} :
      digits.kind = .float → Binary64.read? digits.lexeme.toList = some value →
      Built ⟨.decimal, span, [.token digits]⟩ (.decimal value (some ⟨.decimal, span⟩))
  /-- A name on its own. -/
  | var {span : Span} {name : Token} :
      name.kind = .name →
      Built ⟨.var, span, [.token name]⟩ (.var name.lexeme (some ⟨.var, span⟩))
  /-- A name with an expression between two tokens. -/
  | function {span : Span} {name opening closing : Token} {body : ParseTree} {argument : Expr} :
      name.kind = .name → Built body argument →
      Built ⟨.function, span, [.token name, .token opening, .node body, .token closing]⟩
        (.app name.lexeme argument (some ⟨.function, span⟩))
  /-- An expression between two tokens. -/
  | paren {span : Span} {opening closing : Token} {inner : ParseTree} {e : Expr} :
      Built inner e → Built ⟨.paren, span, [.token opening, .node inner, .token closing]⟩ e
  /-- An operand without a sign. -/
  | plain {span : Span} {operand : ParseTree} {e : Expr} :
      Built operand e → Built ⟨.single, span, [.node operand]⟩ e
  /-- An operand with a minus sign. -/
  | negated {span : Span} {minus : Token} {operand : ParseTree} {body : Expr} :
      minus.kind = .sub → Built operand body →
      Built ⟨.single, span, [.token minus, .node operand]⟩ (.neg body (some ⟨.single, span⟩))
  /-- An operand, followed by operators of the chain, each with an operand. -/
  | chain {rule : Rule} {span : Span} {first : ParseTree} {operand : Expr}
      {links : List BuiltLink} :
      rule.isChain = true → Built first operand → links ≠ [] →
      (∀ link ∈ links, chainMethod? rule link.operator.kind = some link.method) →
      (∀ link ∈ links, Built link.node link.operand) →
      Built ⟨rule, span, .node first :: Element.ofLinks (links.map BuiltLink.pair)⟩
        (.seq (⟨none, operand, some ⟨rule, first.span⟩⟩ :: links.map (BuiltLink.operation rule))
          (some ⟨rule, span⟩))

/-- A sequence of two steps succeeds exactly if both do. -/
theorem Except.bind_eq_ok {ε α β : Type} {x : Except ε α} {f : α → Except ε β} {b : β} :
    (x >>= f) = .ok b ↔ ∃ a, x = .ok a ∧ f a = .ok b := by
  cases x <;> simp [bind, Except.bind]

theorem literalToken_eq_ok {rule : Rule} {span : Span} {kind : TokenKind}
    {children : List Element} {token : Token} :
    literalToken rule span kind children = .ok token ↔
      children = [.token token] ∧ token.kind = kind := by
  constructor
  · intro h
    unfold literalToken at h
    split at h
    · split at h
      · rename_i hkind
        cases h
        exact ⟨rfl, hkind⟩
      · cases h
    · cases h
  · rintro ⟨rfl, hkind⟩
    exact if_pos hkind

section Inversion

variable {rule : Rule} {span : Span} {children : List Element} {e : Expr}

theorem built_of_buildInteger (h : buildInteger span children = .ok e) :
    Built ⟨.integer, span, children⟩ e := by
  obtain ⟨token, htoken, hvalue⟩ := Except.bind_eq_ok.1 h
  obtain ⟨rfl, hkind⟩ := literalToken_eq_ok.1 htoken
  split at hvalue
  · rename_i value hdigits
    cases hvalue
    exact .integer hkind hdigits
  · cases hvalue

theorem built_of_buildDecimal (h : buildDecimal span children = .ok e) :
    Built ⟨.decimal, span, children⟩ e := by
  obtain ⟨token, htoken, hvalue⟩ := Except.bind_eq_ok.1 h
  obtain ⟨rfl, hkind⟩ := literalToken_eq_ok.1 htoken
  split at hvalue
  · rename_i value hdigits
    cases hvalue
    exact .decimal hkind hdigits
  · cases hvalue

theorem built_of_buildVar (h : buildVar span children = .ok e) :
    Built ⟨.var, span, children⟩ e := by
  obtain ⟨token, htoken, hname⟩ := Except.bind_eq_ok.1 h
  obtain ⟨rfl, hkind⟩ := literalToken_eq_ok.1 htoken
  cases hname
  exact .var hkind

theorem cons_of_buildLinks {operations : List Operation}
    (h : Element.buildLinks rule span children = .ok operations) :
    (children = [] ∧ operations = []) ∨
      ∃ (link : BuiltLink) (more : List Element) (rest : List Operation),
        children = .token link.operator :: .node link.node :: more ∧
        chainMethod? rule link.operator.kind = some link.method ∧
        link.node.build = .ok link.operand ∧ Element.buildLinks rule span more = .ok rest ∧
        operations = link.operation rule :: rest := by
  unfold Element.buildLinks at h
  split at h
  · cases h
    exact Or.inl ⟨rfl, rfl⟩
  · cases h
  · split at h
    · cases h
    · rename_i method hmethod
      split at h
      · obtain ⟨operand, hnode, h⟩ := Except.bind_eq_ok.1 h
        obtain ⟨rest, hrest, h⟩ := Except.bind_eq_ok.1 h
        cases h
        exact Or.inr ⟨⟨_, method, _, operand⟩, _, rest, rfl, hmethod, hnode, hrest, rfl⟩
      · cases h

/-- The links of a chain build to its operations, one to one. -/
theorem exists_links_of_buildLinks {operations : List Operation}
    (h : Element.buildLinks rule span children = .ok operations) :
    ∃ links : List BuiltLink, children = Element.ofLinks (links.map BuiltLink.pair) ∧
      operations = links.map (BuiltLink.operation rule) ∧
      (∀ link ∈ links, chainMethod? rule link.operator.kind = some link.method) ∧
      ∀ link ∈ links, link.node.build = .ok link.operand := by
  induction operations generalizing children with
  | nil =>
      rcases cons_of_buildLinks h with ⟨rfl, -⟩ | ⟨_, _, _, -, -, -, -, hnil⟩
      · exact ⟨[], rfl, rfl, by simp, by simp⟩
      · cases hnil
  | cons operation operations ih =>
      rcases cons_of_buildLinks h with ⟨-, hnil⟩ | ⟨link, more, rest, rfl, hmethod, hnode, hrest,
        hcons⟩
      · cases hnil
      · rw [List.cons.injEq] at hcons
        obtain ⟨rfl, rfl⟩ := hcons
        obtain ⟨links, rfl, rfl, hmethods, hnodes⟩ := ih hrest
        exact ⟨link :: links, rfl, rfl, List.forall_mem_cons.2 ⟨hmethod, hmethods⟩,
          List.forall_mem_cons.2 ⟨hnode, hnodes⟩⟩

variable (below : ∀ child, .node child ∈ children → ∀ e, child.build = .ok e → Built child e)
include below

theorem built_of_buildFunction (h : Element.buildFunction span children = .ok e) :
    Built ⟨.function, span, children⟩ e := by
  unfold Element.buildFunction at h
  split at h
  · split at h
    · rename_i hname
      obtain ⟨argument, hbody, hok⟩ := Except.bind_eq_ok.1 h
      cases hok
      exact .function hname (below _ (by simp) _ hbody)
    · cases h
  · cases h

theorem built_of_buildParen (h : Element.buildParen span children = .ok e) :
    Built ⟨.paren, span, children⟩ e := by
  unfold Element.buildParen at h
  split at h
  · exact .paren (below _ (by simp) _ h)
  · cases h

theorem built_of_buildSingle (h : Element.buildSingle span children = .ok e) :
    Built ⟨.single, span, children⟩ e := by
  unfold Element.buildSingle at h
  split at h
  · exact .plain (below _ (by simp) _ h)
  · split at h
    · rename_i hminus
      obtain ⟨body, hoperand, hok⟩ := Except.bind_eq_ok.1 h
      cases hok
      exact .negated hminus (below _ (by simp) _ hoperand)
    · cases h
  · cases h

theorem built_of_buildChain (hchain : rule.isChain = true)
    (h : Element.buildChain rule span children = .ok e) : Built ⟨rule, span, children⟩ e := by
  unfold Element.buildChain at h
  split at h
  · obtain ⟨operand, hfirst, h⟩ := Except.bind_eq_ok.1 h
    obtain ⟨operations, hrest, h⟩ := Except.bind_eq_ok.1 h
    obtain ⟨links, rfl, rfl, hmethods, hlinks⟩ := exists_links_of_buildLinks hrest
    split at h
    · cases h
    · rename_i hsome
      cases h
      refine .chain hchain (below _ List.mem_cons_self _ hfirst) ?_ hmethods ?_
      · rintro rfl
        exact hsome rfl
      · intro link hmem
        refine below _ (List.mem_cons_of_mem _ ?_) _ (hlinks link hmem)
        simp only [Element.ofLinks, List.flatMap_map, List.mem_flatMap]
        exact ⟨link, hmem, by simp [BuiltLink.pair]⟩
  · cases h

end Inversion

/-- What a tree builds to is built from it. -/
theorem ParseTree.built_of_build (tree : ParseTree) : ∀ e, tree.build = .ok e → Built tree e := by
  induction tree using ParseTree.induction_children with
  | step rule span children below =>
      intro e h
      unfold ParseTree.build at h
      cases rule with
      | expression => cases h
      | integer => exact built_of_buildInteger h
      | decimal => exact built_of_buildDecimal h
      | var => exact built_of_buildVar h
      | function => exact built_of_buildFunction below h
      | paren => exact built_of_buildParen below h
      | single => exact built_of_buildSingle below h
      | additive | multiply | divide | power => exact built_of_buildChain below rfl h

theorem Element.linksBuild_ofLinks {rule : Rule} {links : List BuiltLink}
    (hmethods : ∀ link ∈ links, chainMethod? rule link.operator.kind = some link.method)
    (hlinks : ∀ link ∈ links, link.node.build = .ok link.operand) :
    Element.LinksBuild rule (Element.ofLinks (links.map BuiltLink.pair))
      (links.map (BuiltLink.operation rule)) := by
  induction links with
  | nil => exact Element.linksBuild_nil rule
  | cons link links ih =>
      obtain ⟨hmethod, hmethods⟩ := List.forall_mem_cons.1 hmethods
      obtain ⟨hlink, hlinks⟩ := List.forall_mem_cons.1 hlinks
      exact Element.linksBuild_cons hmethod hlink (ih hmethods hlinks)

/-- **The relation is the builder.** -/
theorem ParseTree.build_eq_ok_iff_built {tree : ParseTree} {e : Expr} :
    tree.build = .ok e ↔ Built tree e := by
  constructor
  · exact tree.built_of_build e
  · intro h
    induction h with
    | integer hkind hvalue =>
        simp [buildInteger, literalToken, hkind, hvalue, bind, Except.bind]
    | decimal hkind hvalue =>
        simp [buildDecimal, literalToken, hkind, hvalue, bind, Except.bind]
    | var hkind => simp [buildVar, literalToken, hkind, bind, Except.bind]
    | function hkind _ ih => simp [hkind, ih, bind, Except.bind]
    | paren _ ih => simp [ih]
    | plain _ ih => simp [ih]
    | negated hkind _ ih => simp [hkind, ih, bind, Except.bind]
    | chain hchain _ hne hmethods _ ihfirst ihlinks =>
        exact build_of_isChain hchain ihfirst (Element.linksBuild_ofLinks hmethods ihlinks)
          (mt List.map_eq_nil_iff.1 hne)

/-! ## Nodes of operands -/

namespace ParseTree

variable {tree : ParseTree} {e : Expr}

theorem build_plain (h : tree.build = .ok e) :
    (ofChildren .single [.node tree]).build = .ok e := by
  rw [ofChildren_eq, build_eq_ok_iff_built]
  exact .plain (tree.built_of_build e h)

theorem build_negated {minus : Token} (hminus : minus.kind = .sub) (h : tree.build = .ok e) :
    (ofChildren .single [.token minus, .node tree]).build =
      .ok (.neg e (some ⟨.single, (ofChildren .single [.token minus, .node tree]).span⟩)) := by
  rw [ofChildren_eq, build_eq_ok_iff_built]
  exact .negated hminus (tree.built_of_build e h)

theorem build_paren (opening closing : Token) (h : tree.build = .ok e) :
    (ofChildren .paren [.token opening, .node tree, .token closing]).build = .ok e := by
  rw [ofChildren_eq, build_eq_ok_iff_built]
  exact .paren (tree.built_of_build e h)

theorem build_function {name : Token} (opening closing : Token) (hname : name.kind = .name)
    (h : tree.build = .ok e) :
    (ofChildren .function [.token name, .token opening, .node tree, .token closing]).build =
      .ok (.app name.lexeme e (some ⟨.function, (ofChildren .function
        [.token name, .token opening, .node tree, .token closing]).span⟩)) := by
  rw [ofChildren_eq, build_eq_ok_iff_built]
  exact .function hname (tree.built_of_build e h)

theorem build_var {name : Token} (hname : name.kind = .name) :
    (ofChildren .var [.token name]).build = .ok (.var name.lexeme (some ⟨.var, name.span⟩)) := by
  rw [ofChildren_singleton, build_eq_ok_iff_built]
  exact .var hname

theorem build_integer {digits : Token} {value : String} (hdigits : digits.kind = .int)
    (hvalue : canonicalDigits? digits.lexeme = some value) :
    (ofChildren .integer [.token digits]).build =
      .ok (.integer value (some ⟨.integer, digits.span⟩)) := by
  rw [ofChildren_singleton, build_eq_ok_iff_built]
  exact .integer hdigits hvalue

theorem build_decimal {digits : Token} {value : Binary64} (hdigits : digits.kind = .float)
    (hvalue : Binary64.read? digits.lexeme.toList = some value) :
    (ofChildren .decimal [.token digits]).build =
      .ok (.decimal value (some ⟨.decimal, digits.span⟩)) := by
  rw [ofChildren_singleton, build_eq_ok_iff_built]
  exact .decimal hdigits hvalue

end ParseTree

end AlgebraText
