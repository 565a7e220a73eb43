import AlgebraText.Proofs.Expr.Denotation
import AlgebraText.Proofs.Grammar.Losslessness

/-!
# Phrases

What a text is read as can be said without parse trees: tokens are a phrase of some level and stand
for an expression (`Phrase`). A phrase of a tighter level is one of every looser level, parentheses
make any phrase one of the tightest level, and a chain is made of phrases of the next level. The
expression comes with its origins, since these are the spans of the phrases it was made from.

A parse tree is one way of arriving at this, and the only one (`parse_eq_ok_iff_phrase`). Where an
expression stands in a text, and what may stand there in its place, is best studied on phrases: they
have one constructor for each kind of node, and nothing to collapse.

## What this module delivers

* `Phrase`, with `Link` for the further operands of a chain;
* `Derivation.phrase` and `Phrase.derives`: phrases are derivations that were built;
* `parse_eq_ok_iff_phrase`: a text is read as the expression that its tokens are a phrase of.
-/

set_option autoImplicit false

namespace AlgebraText

/-! ## Phrases -/

/-- A further operand of a chain, with the operator before it. -/
structure Link where
  /-- The token of the operator. -/
  operator : Token
  /-- The operator. -/
  method : Method
  /-- The tokens of the operand. -/
  tokens : List Token
  /-- The operand. -/
  operand : Expr

namespace Link

/-- The tokens of a link, the operator first. -/
def leaves (link : Link) : List Token := link.operator :: link.tokens

/-- The operation that a link of a chain stands for. -/
def operation (rule : Rule) (link : Link) : Operation :=
  ⟨some link.method, link.operand, some ⟨rule, hull link.leaves⟩⟩

end Link

/-- Tokens that are read as an expression, at a place that asks for a level. -/
inductive Phrase : Nat → List Token → Expr → Prop
  /-- What binds tightly may stand where less is asked for. -/
  | loosen {level : Nat} {tokens : List Token} {e : Expr} :
      2 ≤ level → Phrase (level + 1) tokens e → Phrase level tokens e
  /-- Operands of the next level with operators of one rule between them. -/
  | chain {rule : Rule} {tokens : List Token} {first : Expr} {links : List Link} :
      rule.isChain = true → Phrase (rule.level + 1) tokens first → links ≠ [] →
      (∀ link ∈ links, chainMethod? rule link.operator.kind = some link.method) →
      (∀ link ∈ links, Phrase (rule.level + 1) link.tokens link.operand) →
      Phrase rule.level (tokens ++ links.flatMap Link.leaves)
        (.seq (⟨none, first, some ⟨rule, hull tokens⟩⟩ :: links.map (Link.operation rule))
          (some ⟨rule, hull (tokens ++ links.flatMap Link.leaves)⟩))
  /-- An operand with a minus sign before it. -/
  | negated {minus : Token} {tokens : List Token} {body : Expr} :
      minus.kind = .sub → Phrase 7 tokens body →
      Phrase 6 (minus :: tokens) (.neg body (some ⟨.single, hull (minus :: tokens)⟩))
  /-- An expression in parentheses. -/
  | paren {opening closing : Token} {tokens : List Token} {e : Expr} :
      opening.kind = .openParen → Phrase 2 tokens e → closing.kind = .closeParen →
      Phrase 7 (opening :: (tokens ++ [closing])) e
  /-- A name with an expression in square brackets. -/
  | function {name opening closing : Token} {tokens : List Token} {body : Expr} :
      name.kind = .name → opening.kind = .openSquare → Phrase 2 tokens body →
      closing.kind = .closeSquare →
      Phrase 7 (name :: opening :: (tokens ++ [closing]))
        (.app name.lexeme body
          (some ⟨.function, hull (name :: opening :: (tokens ++ [closing]))⟩))
  /-- A name on its own. -/
  | var {name : Token} :
      name.kind = .name → Phrase 7 [name] (.var name.lexeme (some ⟨.var, name.span⟩))
  /-- A number without a point. -/
  | integer {digits : Token} {value : String} :
      digits.kind = .int → canonicalDigits? digits.lexeme = some value →
      Phrase 7 [digits] (.integer value (some ⟨.integer, digits.span⟩))
  /-- A number with a point. -/
  | decimal {digits : Token} {value : Binary64} :
      digits.kind = .float → Binary64.read? digits.lexeme.toList = some value →
      Phrase 7 [digits] (.decimal value (some ⟨.decimal, digits.span⟩))

theorem Rule.level_of_isChain {rule : Rule} (h : rule.isChain = true) :
    2 ≤ rule.level ∧ rule.level ≤ 5 := by
  cases rule <;> first | decide | cases h

namespace Phrase

variable {level : Nat} {tokens : List Token} {e : Expr}

theorem level_bounds (h : Phrase level tokens e) : 2 ≤ level ∧ level ≤ 7 := by
  induction h with
  | loosen hlow _ ih => omega
  | chain hchain => exact ⟨(Rule.level_of_isChain hchain).1, by
      have := (Rule.level_of_isChain hchain).2
      omega⟩
  | negated | paren | function | var | integer | decimal => decide

theorem of_le {low : Nat} (h : Phrase level tokens e) (hlow : 2 ≤ low) (hle : low ≤ level) :
    Phrase low tokens e := by
  induction hle with
  | refl => exact h
  | step hle ih => exact ih (.loosen (hlow.trans hle) h)

/-- Parentheses make any phrase one of the tightest level. -/
theorem bracketed {opening closing : Token} (h : Phrase level tokens e)
    (hopening : opening.kind = .openParen) (hclosing : closing.kind = .closeParen) :
    Phrase 7 (opening :: (tokens ++ [closing])) e :=
  .paren hopening (h.of_le (Nat.le_refl 2) h.level_bounds.1) hclosing

theorem tokens_ne_nil (h : Phrase level tokens e) : tokens ≠ [] := by
  induction h with
  | loosen _ _ ih => exact ih
  | chain _ _ _ _ _ ih _ => exact List.append_ne_nil_of_left_ne_nil ih _
  | negated | paren | function | var | integer | decimal => simp

end Phrase

/-! ## From derivations to phrases -/

namespace Derivation

theorem span_collapse_eq_hull {goal : Nonterminal} {full : ParseTree} (h : Derivation goal full) :
    full.collapse.span = hull full.leaves := by
  rw [← full.leaves_collapse]
  exact h.covers_collapse.2

theorem leaves_ne_nil {goal : Nonterminal} {full : ParseTree} (h : Derivation goal full) :
    full.leaves ≠ [] := by
  rw [← full.leaves_collapse]
  exact h.covers_collapse.1

/-- The further operands of a chain, if each of them was built and is a phrase. -/
theorem exists_phraseLinks {operand : Nonterminal} {rule : Rule}
    {links : List (Token × ParseTree)} (hoperators : ∀ link ∈ links, link.1.kind ∈ rule.operators)
    (hlinks : ∀ link ∈ links, Derivation operand link.2)
    (h : ∀ link ∈ links, ∃ e, link.2.collapse.build = .ok e ∧
      Phrase operand.level link.2.leaves e) :
    ∃ phrases : List Link,
      Element.LinksBuild rule (Element.ofLinks (links.map fun link => (link.1, link.2.collapse)))
        (phrases.map (Link.operation rule)) ∧
      phrases.flatMap Link.leaves = (links.flatMap fun link => link.1 :: link.2.leaves) ∧
      phrases.length = links.length ∧
      (∀ link ∈ phrases, chainMethod? rule link.operator.kind = some link.method) ∧
      (∀ link ∈ phrases, Phrase operand.level link.tokens link.operand) := by
  induction links with
  | nil => exact ⟨[], Element.linksBuild_nil rule, rfl, rfl, by simp, by simp⟩
  | cons link links ih =>
      obtain ⟨phrases, hbuild, hleaves, hlength, hmethods, hphrases⟩ :=
        ih (fun other hmem => hoperators other (List.mem_cons_of_mem _ hmem))
          (fun other hmem => hlinks other (List.mem_cons_of_mem _ hmem))
          (fun other hmem => h other (List.mem_cons_of_mem _ hmem))
      obtain ⟨e, hoperand, hphrase⟩ := h link List.mem_cons_self
      obtain ⟨method, -, -, hmethod⟩ :=
        exists_method_of_mem_operators (hoperators link List.mem_cons_self)
      have hderived := hlinks link List.mem_cons_self
      have hcons := Element.linksBuild_cons hmethod hoperand hbuild
      rw [hderived.span_collapse_eq_hull, ← hull_cons _ hderived.leaves_ne_nil] at hcons
      refine ⟨⟨link.1, method, link.2.leaves, e⟩ :: phrases, hcons, ?_, ?_, ?_, ?_⟩
      · rw [List.flatMap_cons, List.flatMap_cons, hleaves]
        rfl
      · simp [hlength]
      · simpa using ⟨hmethod, hmethods⟩
      · simpa using ⟨hphrase, hphrases⟩

/-- **What is derived and built is a phrase.** -/
theorem phrase {goal : Nonterminal} {full : ParseTree} (h : Derivation goal full)
    (hspelled : ∀ token ∈ full.leaves, token.Spelled) :
    ∃ e, full.collapse.build = .ok e ∧ Phrase goal.level full.leaves e := by
  induction h with
  | expression _ ih => exact ih hspelled
  | @chain goal operand rule first links hgoal hfirst hoperators hlinks ihfirst ihlinks =>
      obtain ⟨hchain, hrule, hnext⟩ := Nonterminal.chain?_facts hgoal
      have hspan := (Derivation.chain hgoal hfirst hoperators hlinks).span_collapse_eq_hull
      have hbounds := Rule.level_of_isChain hchain
      rw [ParseTree.leaves_chain] at hspelled hspan ⊢
      obtain ⟨e, hbuild, hphrase⟩ :=
        ihfirst fun token hmem => hspelled token (List.mem_append_left _ hmem)
      rw [hnext] at hphrase
      cases links with
      | nil =>
          -- a chain without links is its operand, which may stand one level lower
          rw [Element.ofLinks_nil, ParseTree.collapse_chain_nil first hchain, List.flatMap_nil,
            List.append_nil]
          exact ⟨e, hbuild, .loosen (by omega) hphrase⟩
      | cons link links =>
          obtain ⟨phrases, hbuilds, hleaves, hlength, hmethods, hphrases⟩ :=
            exists_phraseLinks hoperators hlinks fun other hmem => ihlinks other hmem
              fun token htoken => hspelled token (List.mem_append_right _ (List.mem_flatMap.2
                ⟨other, hmem, List.mem_cons_of_mem _ htoken⟩))
          have hne : phrases ≠ [] := by
            rintro rfl
            cases hlength
          have hseq := ParseTree.build_chain hgoal hbuild hbuilds (by simpa using hne)
          rw [collapse_chain_cons hfirst hlinks (by simp)] at hspan ⊢
          rw [hspan, hfirst.span_collapse_eq_hull, ← hleaves] at hseq
          rw [← hleaves, ← hrule]
          rw [hnext, ← hrule] at hphrases
          rw [← hrule] at hphrase
          exact ⟨_, hseq, .chain hchain hphrase hne hmethods hphrases⟩
  | @plain atom full hatom hfull ih =>
      rw [ParseTree.leaves_plain] at hspelled ⊢
      obtain ⟨e, hbuild, hphrase⟩ := ih hspelled
      rw [Nonterminal.level_of_isAtom hatom] at hphrase
      rw [hfull.collapse_plain]
      exact ⟨e, ParseTree.build_plain hbuild, .loosen (by decide) hphrase⟩
  | @negated atom minus full hatom hminus hfull ih =>
      have hspan := (Derivation.negated hatom hminus hfull).span_collapse_eq_hull
      rw [hfull.collapse_negated, ParseTree.leaves_negated] at hspan
      rw [ParseTree.leaves_negated] at hspelled ⊢
      obtain ⟨e, hbuild, hphrase⟩ :=
        ih fun token hmem => hspelled token (List.mem_cons_of_mem _ hmem)
      rw [Nonterminal.level_of_isAtom hatom] at hphrase
      have hneg := ParseTree.build_negated hminus hbuild
      rw [hspan] at hneg
      rw [hfull.collapse_negated]
      exact ⟨_, hneg, .negated hminus hphrase⟩
  | @paren opening closing full hopening hfull hclosing ih =>
      rw [ParseTree.leaves_paren] at hspelled ⊢
      obtain ⟨e, hbuild, hphrase⟩ := ih fun token hmem =>
        hspelled token (List.mem_cons_of_mem _ (List.mem_append_left _ hmem))
      rw [collapse_paren]
      exact ⟨e, ParseTree.build_paren opening closing hbuild, .paren hopening hphrase hclosing⟩
  | @function name opening closing full hname hopening hfull hclosing ih =>
      have hspan := (Derivation.function hname hopening hfull hclosing).span_collapse_eq_hull
      rw [collapse_function, ParseTree.leaves_function] at hspan
      rw [ParseTree.leaves_function] at hspelled ⊢
      obtain ⟨e, hbuild, hphrase⟩ := ih fun token hmem => hspelled token (by simp [hmem])
      have happ := ParseTree.build_function opening closing hname hbuild
      rw [hspan] at happ
      rw [collapse_function]
      exact ⟨_, happ, .function hname hopening hphrase hclosing⟩
  | @var name hname => exact ⟨_, ParseTree.build_var hname, .var hname⟩
  | @integer digits hdigits =>
      have hvalue := canonicalDigits?_of_isDigits ((hspelled digits List.mem_cons_self).int hdigits)
      exact ⟨_, ParseTree.build_integer hdigits hvalue, .integer hdigits hvalue⟩
  | @decimal digits hdigits =>
      obtain ⟨value, hvalue, -⟩ :=
        exists_read?_of_isPointed ((hspelled digits List.mem_cons_self).float hdigits)
      exact ⟨_, ParseTree.build_decimal hdigits hvalue, .decimal hdigits hvalue⟩

end Derivation

/-! ## From phrases to derivations -/

namespace Nonterminal

/-- The operands of chains are told apart by their levels. -/
theorem eq_of_level_eq {goal goal' : Nonterminal} (h : goal.level = goal'.level)
    (hlow : 3 ≤ goal.level) (hhigh : goal.level ≤ 6) : goal = goal' := by
  cases goal <;> cases goal' <;> simp [level] at h hlow hhigh ⊢

/-- What stands at a level stands at the next looser one, as a chain or as an operand. -/
theorem exists_outer {goal : Nonterminal} (h : 3 ≤ goal.level) :
    (goal.isAtom = true ∧ goal.level = 7) ∨
      ∃ (outer : Nonterminal) (rule : Rule), outer.chain? = some (rule, goal) ∧
        outer.level + 1 = goal.level ∧ outer ≠ .expression := by
  cases goal with
  | expression | additive => simp [level] at h
  | multiply => exact Or.inr ⟨.additive, _, rfl, rfl, by decide⟩
  | divide => exact Or.inr ⟨.multiply, _, rfl, rfl, by decide⟩
  | power => exact Or.inr ⟨.divide, _, rfl, rfl, by decide⟩
  | single => exact Or.inr ⟨.power, _, rfl, rfl, by decide⟩
  | paren | function | var | number => exact Or.inl ⟨rfl, rfl⟩

/-- Every chain rule is that of a nonterminal. -/
theorem exists_of_isChain {rule : Rule} (h : rule.isChain = true) :
    ∃ goal operand : Nonterminal, goal.chain? = some (rule, operand) ∧ goal ≠ .expression := by
  cases rule with
  | additive => exact ⟨.additive, _, rfl, by decide⟩
  | multiply => exact ⟨.multiply, _, rfl, by decide⟩
  | divide => exact ⟨.divide, _, rfl, by decide⟩
  | power => exact ⟨.power, _, rfl, by decide⟩
  | expression | single | paren | function | var | integer | decimal => cases h

end Nonterminal

/-- Tokens of which a derivation builds an expression, at a place that asks for a level. -/
def Derives (level : Nat) (tokens : List Token) (e : Expr) : Prop :=
  ∃ goal full, goal.level = level ∧ goal ≠ .expression ∧ Derivation goal full ∧
    full.leaves = tokens ∧ full.collapse.build = .ok e

namespace Derives

variable {level : Nat} {tokens : List Token} {e : Expr}

theorem loosen (hlow : 2 ≤ level) (h : Derives (level + 1) tokens e) : Derives level tokens e := by
  obtain ⟨goal, full, hlevel, -, hfull, rfl, hbuild⟩ := h
  rcases goal.exists_outer (by omega) with ⟨hatom, hseven⟩ | ⟨outer, rule, houter, hnext, hne⟩
  · -- an atom is an operand without a sign
    refine ⟨.single, _, ?_, by decide, .plain hatom hfull, ParseTree.leaves_plain full, ?_⟩
    · show 6 = level
      omega
    · rw [hfull.collapse_plain]
      exact ParseTree.build_plain hbuild
  · -- everything else is a chain without links
    refine ⟨outer, .ofChildren rule (.node full :: Element.ofLinks []), by omega, hne,
      .chain houter hfull (by simp) (by simp), ?_, ?_⟩
    · rw [ParseTree.leaves_chain]
      simp
    · rw [Element.ofLinks_nil, ParseTree.collapse_chain_nil full (outer.chain?_facts houter).1]
      exact hbuild

/-- An operand of a chain is derived from the nonterminal of the operands. -/
theorem derivation {goal : Nonterminal} (h : Derives goal.level tokens e) (hlow : 3 ≤ goal.level)
    (hhigh : goal.level ≤ 6) :
    ∃ full, Derivation goal full ∧ full.leaves = tokens ∧ full.collapse.build = .ok e := by
  obtain ⟨goal', full, hlevel, -, hfull, hleaves, hbuild⟩ := h
  obtain rfl := Nonterminal.eq_of_level_eq hlevel (hlevel ▸ hlow) (hlevel ▸ hhigh)
  exact ⟨full, hfull, hleaves, hbuild⟩

/-- The tightest level is that of atoms. -/
theorem atom (h : Derives 7 tokens e) :
    ∃ atom full, atom.isAtom = true ∧ Derivation atom full ∧ full.leaves = tokens ∧
      full.collapse.build = .ok e := by
  obtain ⟨goal, full, hlevel, -, hfull, hleaves, hbuild⟩ := h
  have hatom : goal.isAtom = true := by
    cases goal <;> first | rfl | cases hlevel
  exact ⟨goal, full, hatom, hfull, hleaves, hbuild⟩

/-- The loosest level is that of whole expressions. -/
theorem expression (h : Derives 2 tokens e) :
    ∃ full, Derivation .expression full ∧ full.leaves = tokens ∧ full.collapse.build = .ok e := by
  obtain ⟨goal, full, hlevel, hne, hfull, hleaves, hbuild⟩ := h
  obtain rfl : goal = .additive := by
    cases goal <;> first | rfl | contradiction
  exact ⟨full, .expression hfull, hleaves, hbuild⟩

/-- The links of a chain, if each operand is derived and built. -/
theorem exists_links {operand : Nonterminal} {rule : Rule} {phrases : List Link}
    (hlow : 3 ≤ operand.level) (hhigh : operand.level ≤ 6)
    (hmethods : ∀ link ∈ phrases, chainMethod? rule link.operator.kind = some link.method)
    (h : ∀ link ∈ phrases, Derives operand.level link.tokens link.operand) :
    ∃ links : List (Token × ParseTree),
      (∀ link ∈ links, link.1.kind ∈ rule.operators) ∧
      (∀ link ∈ links, Derivation operand link.2) ∧
      (links.flatMap fun link => link.1 :: link.2.leaves) = phrases.flatMap Link.leaves ∧
      Element.LinksBuild rule (Element.ofLinks (links.map fun link => (link.1, link.2.collapse)))
        (phrases.map (Link.operation rule)) := by
  induction phrases with
  | nil => exact ⟨[], by simp, by simp, rfl, Element.linksBuild_nil rule⟩
  | cons phrase phrases ih =>
      obtain ⟨links, hoperators, hlinks, hleaves, hbuilds⟩ :=
        ih (fun other hmem => hmethods other (List.mem_cons_of_mem _ hmem))
          (fun other hmem => h other (List.mem_cons_of_mem _ hmem))
      obtain ⟨full, hfull, htokens, hbuild⟩ :=
        (h phrase List.mem_cons_self).derivation hlow hhigh
      have hmethod := hmethods phrase List.mem_cons_self
      have hcons := Element.linksBuild_cons hmethod hbuild hbuilds
      rw [hfull.span_collapse_eq_hull, ← hull_cons _ hfull.leaves_ne_nil, htokens] at hcons
      refine ⟨(phrase.operator, full) :: links, ?_, ?_, ?_, hcons⟩
      · simpa using ⟨(mem_operators_of_chainMethod? hmethod).1,
          fun token tree hmem => hoperators (token, tree) hmem⟩
      · simpa using ⟨hfull, fun token tree hmem => hlinks (token, tree) hmem⟩
      · rw [List.flatMap_cons, List.flatMap_cons, hleaves, htokens]
        rfl

end Derives

/-- **A phrase is derived and built.** -/
theorem Phrase.derives {level : Nat} {tokens : List Token} {e : Expr} (h : Phrase level tokens e) :
    Derives level tokens e := by
  induction h with
  | loosen hlow _ ih => exact ih.loosen hlow
  | @chain rule tokens first phrases hchain _ hne hmethods _ ihfirst ihlinks =>
      obtain ⟨goal, operand, hgoal, hloose⟩ := Nonterminal.exists_of_isChain hchain
      obtain ⟨-, hrule, hnext⟩ := Nonterminal.chain?_facts hgoal
      obtain ⟨hlow, hhigh⟩ := Rule.level_of_isChain hchain
      rw [← hrule] at hnext
      rw [← hnext] at ihfirst ihlinks
      obtain ⟨full, hfull, htokens, hbuild⟩ := ihfirst.derivation (by omega) (by omega)
      obtain ⟨links, hoperators, hlinks, hleaves, hbuilds⟩ :=
        Derives.exists_links (by omega) (by omega) hmethods ihlinks
      have hsome : links ≠ [] := by
        rintro rfl
        have hnone := hbuilds default
        rw [List.map_nil, Element.ofLinks_nil, Element.buildLinks, Except.ok.injEq] at hnone
        exact hne (List.map_eq_nil_iff.1 hnone.symm)
      have hspan := (Derivation.chain hgoal hfull hoperators hlinks).span_collapse_eq_hull
      -- the builder takes spans from the tree, and those of a derivation are hulls
      have hseq := ParseTree.build_chain hgoal hbuild hbuilds (by simpa using hne)
      rw [Derivation.collapse_chain_cons hfull hlinks hsome, ParseTree.leaves_chain, hleaves,
        htokens] at hspan
      rw [hspan, hfull.span_collapse_eq_hull, htokens] at hseq
      refine ⟨goal, _, hrule.symm, hloose, .chain hgoal hfull hoperators hlinks, ?_, ?_⟩
      · rw [ParseTree.leaves_chain, hleaves, htokens]
      · rw [Derivation.collapse_chain_cons hfull hlinks hsome]
        exact hseq
  | @negated minus tokens body hminus _ ih =>
      obtain ⟨atom, full, hatom, hfull, rfl, hbuild⟩ := ih.atom
      have hspan := (Derivation.negated hatom hminus hfull).span_collapse_eq_hull
      have hneg := ParseTree.build_negated hminus hbuild
      rw [hfull.collapse_negated, ParseTree.leaves_negated] at hspan
      rw [hspan] at hneg
      refine ⟨.single, _, rfl, by decide, .negated hatom hminus hfull,
        ParseTree.leaves_negated minus full, ?_⟩
      rw [hfull.collapse_negated]
      exact hneg
  | @paren opening closing tokens e hopening _ hclosing ih =>
      obtain ⟨full, hfull, rfl, hbuild⟩ := ih.expression
      exact ⟨.paren, _, rfl, by decide, .paren hopening hfull hclosing,
        ParseTree.leaves_paren opening closing full,
        ParseTree.build_paren opening closing hbuild⟩
  | @function name opening closing tokens body hname hopening _ hclosing ih =>
      obtain ⟨full, hfull, rfl, hbuild⟩ := ih.expression
      have hspan := (Derivation.function hname hopening hfull hclosing).span_collapse_eq_hull
      have happ := ParseTree.build_function opening closing hname hbuild
      rw [Derivation.collapse_function, ParseTree.leaves_function] at hspan
      rw [hspan] at happ
      exact ⟨.function, _, rfl, by decide, .function hname hopening hfull hclosing,
        ParseTree.leaves_function name opening closing full, happ⟩
  | @var name hname => exact ⟨.var, _, rfl, by decide, .var hname, rfl, ParseTree.build_var hname⟩
  | @integer digits value hdigits hvalue =>
      exact ⟨.number, _, rfl, by decide, .integer hdigits, rfl,
        ParseTree.build_integer hdigits hvalue⟩
  | @decimal digits value hdigits hvalue =>
      exact ⟨.number, _, rfl, by decide, .decimal hdigits, rfl,
        ParseTree.build_decimal hdigits hvalue⟩

/-! ## Texts -/

/-- **A text is read as the expression that its tokens are a phrase of.** -/
theorem parse_eq_ok_iff_phrase {text : String} {e : Expr} :
    parse text = .ok e ↔ Phrase 2 (significantTokens (tokenize text)) e := by
  constructor
  · intro h
    unfold parse at h
    cases htree : parseTree text with
    | error failure =>
        rw [htree] at h
        cases h
    | ok tree =>
        obtain ⟨full, hfull, hleaves, rfl⟩ := parseTree_eq_ok_iff_collapse.1 htree
        obtain ⟨built, hbuild, hphrase⟩ := hfull.phrase fun token hmem =>
          spelled_of_mem_tokenize (hleaves ▸ hmem)
        rw [htree] at h
        dsimp only at h
        rw [hbuild] at h
        cases h
        rw [← hleaves]
        exact hphrase
  · intro h
    obtain ⟨full, hfull, hleaves, hbuild⟩ := h.derives.expression
    have htree := parseTree_eq_ok_iff_collapse.2 ⟨full, hfull, hleaves, rfl⟩
    rw [parse, htree]
    dsimp only
    rw [hbuild]

end AlgebraText
