import AlgebraText.Proofs.Grammar.Derivation
import AlgebraText.Proofs.Grammar.Operand
import AlgebraText.Proofs.Parser.Recursion

/-!
# What the parser reads, the grammar derives

Each rule of the parser is sound: if it succeeds, the tokens it consumed are the leaves of a
derivation of its nonterminal, and the tree it returns is that derivation collapsed. The recursion
through brackets needs no measure here, since every inner call that succeeds is sound by the
induction over the recursion.

## What this module delivers

* `Parser.Sound`, with one lemma for each rule;
* `Parser.sound_expression`: the parser of expressions is sound.
-/

set_option autoImplicit false

namespace AlgebraText

namespace Parser

/-- A result at a cursor that, if it is a success, is a collapsed derivation of the tokens between
the two cursors. -/
def SoundAt (goal : Nonterminal) (cursor : Cursor)
    (result : EStateM.Result ParseFailure Cursor ParseTree) : Prop :=
  ∀ tree later, result = .ok tree later →
    ∃ full, Derivation goal full ∧ full.collapse = tree ∧
      cursor.pending = full.leaves ++ later.pending

/-- A parser whose successes are collapsed derivations of the tokens it consumed. -/
def Sound (goal : Nonterminal) (parser : Parser ParseTree) : Prop :=
  ∀ cursor, SoundAt goal cursor (parser cursor)

theorem sound_rewinding {goal : Nonterminal} {parser : Parser ParseTree} (h : Sound goal parser) :
    Sound goal (rewinding parser) :=
  fun cursor tree later hrun => h cursor tree later (rewinding_eq_ok.1 hrun)

/-! ## Operands -/

theorem pending_of_closing {rule : Rule} {kind : TokenKind} {cause : ParseCause}
    {opening token : Token} {cursor later : Cursor}
    (h : closing rule kind cause opening cursor = .ok token later) :
    cursor.pending = token :: later.pending ∧ token.kind = kind := by
  unfold closing at h
  split at h
  · rename_i token' later' hexpect
    cases h
    obtain ⟨hpending, hkind⟩ := pending_of_expect hexpect
    exact ⟨hpending, List.mem_singleton.1 hkind⟩
  · cases h

theorem sound_paren {expression : Parser ParseTree} (h : Sound .expression expression) :
    Sound .paren (paren expression) := by
  intro cursor tree later hrun
  obtain ⟨opening, inside, hopening, hrun⟩ := bind_eq_ok.1 hrun
  obtain ⟨_, noted, hnoted, hrun⟩ := bind_eq_ok.1 hrun
  obtain ⟨body, after, hbody, hrun⟩ := bind_eq_ok.1 hrun
  obtain ⟨close, outside, hclose, hrun⟩ := bind_eq_ok.1 hrun
  obtain ⟨rfl, rfl⟩ := pure_eq_ok.1 hrun
  cases hnoted
  obtain ⟨hstart, hopen⟩ := pending_of_expect hopening
  obtain ⟨full, hfull, rfl, hmiddle⟩ :=
    h _ body after (rewinding_eq_ok.1 (fatally_eq_ok.1 hbody))
  obtain ⟨hend, hcloseKind⟩ := pending_of_closing hclose
  rw [Cursor.pending_of_log] at hmiddle
  -- the tokens of the pieces add up in the order in which they were taken
  refine ⟨_, .paren (List.mem_singleton.1 hopen) hfull hcloseKind, rfl, ?_⟩
  rw [hstart, hmiddle, hend, ParseTree.leaves_paren]
  simp

theorem sound_function {expression : Parser ParseTree} (h : Sound .expression expression) :
    Sound .function (function expression) := by
  intro cursor tree later hrun
  obtain ⟨name, named, hname, hrun⟩ := bind_eq_ok.1 hrun
  obtain ⟨opening, inside, hopening, hrun⟩ := bind_eq_ok.1 hrun
  obtain ⟨_, noted, hnoted, hrun⟩ := bind_eq_ok.1 hrun
  obtain ⟨body, after, hbody, hrun⟩ := bind_eq_ok.1 hrun
  obtain ⟨close, outside, hclose, hrun⟩ := bind_eq_ok.1 hrun
  obtain ⟨rfl, rfl⟩ := pure_eq_ok.1 hrun
  cases hnoted
  obtain ⟨hstart, hnameKind⟩ := pending_of_expect hname
  obtain ⟨hsecond, hopen⟩ := pending_of_expect hopening
  obtain ⟨full, hfull, rfl, hmiddle⟩ :=
    h _ body after (rewinding_eq_ok.1 (fatally_eq_ok.1 hbody))
  obtain ⟨hend, hcloseKind⟩ := pending_of_closing hclose
  rw [Cursor.pending_of_log] at hmiddle
  refine ⟨_, .function (List.mem_singleton.1 hnameKind) (List.mem_singleton.1 hopen) hfull
    hcloseKind, rfl, ?_⟩
  rw [hstart, hsecond, hmiddle, hend, ParseTree.leaves_function]
  simp

theorem sound_var : Sound .var var := by
  intro cursor tree later hrun
  obtain ⟨name, named, hname, hrun⟩ := bind_eq_ok.1 hrun
  obtain ⟨_, noted, hnoted, hrun⟩ := bind_eq_ok.1 hrun
  obtain ⟨rfl, rfl⟩ := pure_eq_ok.1 hrun
  cases hnoted
  obtain ⟨hstart, hkind⟩ := pending_of_expect hname
  exact ⟨_, .var (List.mem_singleton.1 hkind), rfl, hstart⟩

theorem sound_number : Sound .number number := by
  intro cursor tree later hrun
  obtain ⟨digits, counted, hdigits, hrun⟩ := bind_eq_ok.1 hrun
  obtain ⟨_, noted, hnoted, hrun⟩ := bind_eq_ok.1 hrun
  obtain ⟨_, checked, hpoint, hrun⟩ := bind_eq_ok.1 hrun
  obtain ⟨rfl, rfl⟩ := pure_eq_ok.1 hrun
  cases hnoted
  -- the point is only looked at
  have hstay : checked.pending = counted.pending := by
    unfold noPointAfter at hpoint
    split at hpoint
    · split at hpoint
      · cases hpoint
      · cases hpoint
        rfl
    · cases hpoint
      rfl
  obtain ⟨hstart, hkind⟩ := pending_of_expect hdigits
  simp only [List.mem_cons, List.not_mem_nil, or_false] at hkind
  rcases hkind with hint | hfloat
  · refine ⟨_, .integer hint, ?_, hstart.trans (by rw [← hstay]; rfl)⟩
    simp [numberRule, hint]
    rfl
  · refine ⟨_, .decimal hfloat, ?_, hstart.trans (by rw [← hstay]; rfl)⟩
    simp [numberRule, hfloat]
    rfl

theorem not_noOperand_ok {cursor later : Cursor} {tree : ParseTree} :
    noOperand cursor ≠ .ok tree later := by
  unfold noOperand
  split
  · intro h
    cases h
  · split <;> intro h <;> cases h

/-- A list of tokens starts with a token of some kinds, or it does not. -/
theorem startsWith_or (kinds : List TokenKind) (tokens : List Token) :
    (∃ token rest, tokens = token :: rest ∧ token.kind ∈ kinds) ∨
      ∀ token ∈ tokens.head?, token.kind ∉ kinds := by
  cases tokens with
  | nil => exact Or.inr (by simp)
  | cons token rest =>
      by_cases hkind : token.kind ∈ kinds
      · exact Or.inl ⟨token, rest, rfl, hkind⟩
      · exact Or.inr (by simpa using hkind)

/-- A list of tokens opens a square bracket, or it does not. -/
theorem opensBracket_or (tokens : List Token) :
    (∃ opening rest, tokens = opening :: rest ∧ opening.kind = .openSquare) ∨
      ∀ token ∈ tokens.head?, token.kind ≠ .openSquare := by
  simpa using startsWith_or [.openSquare] tokens

/-- An operand without its sign is sound for the nonterminal that its first tokens choose. -/
theorem sound_atom {expression : Parser ParseTree} (h : Sound .expression expression)
    (cursor : Cursor) : ∃ goal : Nonterminal, goal.isAtom = true ∧
      SoundAt goal cursor (atom expression cursor) := by
  -- where no operand starts there is no success, and any nonterminal will do
  have hnone : (∀ token ∈ cursor.pending.head?, token.kind ∉ operandStarts) →
      SoundAt .paren cursor (atom expression cursor) := by
    intro hstart tree later hrun
    rw [atom_of_other hstart] at hrun
    exact absurd hrun not_noOperand_ok
  cases hpending : cursor.pending with
  | nil => exact ⟨.paren, rfl, hnone (by simp [hpending])⟩
  | cons token rest =>
      by_cases hkind : token.kind ∈ operandStarts
      · simp only [operandStarts, List.mem_cons, List.not_mem_nil, or_false] at hkind
        rcases hkind with hopen | hname | hnumber
        · refine ⟨.paren, rfl, ?_⟩
          rw [atom_of_openParen hpending hopen]
          exact sound_rewinding (sound_paren h) cursor
        · rcases opensBracket_or rest with ⟨opening, inner, rfl, hopening⟩ | hother
          · refine ⟨.function, rfl, ?_⟩
            rw [atom_of_application hpending hname hopening]
            exact sound_rewinding (sound_function h) cursor
          · refine ⟨.var, rfl, ?_⟩
            rw [atom_of_name hpending hname hother]
            exact sound_rewinding sound_var cursor
        · refine ⟨.number, rfl, ?_⟩
          rw [atom_of_number hpending (by simpa using hnumber)]
          exact sound_rewinding sound_number cursor
      · exact ⟨.paren, rfl, hnone (by simpa [hpending] using hkind)⟩

theorem sound_single {expression : Parser ParseTree} (h : Sound .expression expression) :
    Sound .single (single expression) := by
  intro cursor tree later hrun
  obtain ⟨_, noted, hnoted, hrun⟩ := bind_eq_ok.1 hrun
  obtain ⟨minus, signed, hminus, hrun⟩ := bind_eq_ok.1 hrun
  obtain ⟨operand, after, hoperand, hrun⟩ := bind_eq_ok.1 hrun
  obtain ⟨rfl, rfl⟩ := pure_eq_ok.1 hrun
  cases hnoted
  obtain ⟨goal, hatom, hsound⟩ := sound_atom h signed
  obtain ⟨full, hfull, rfl, hpending⟩ := hsound operand after hoperand
  rcases accept_cases .single [.sub] { cursor with log := .single cursor.span :: cursor.log } with
    ⟨hstay, -⟩ | ⟨token, taken, htake, hexpect⟩
  · -- no sign: the operand starts at the cursor itself
    rw [hstay] at hminus
    cases hminus
    refine ⟨_, .plain hatom hfull, Derivation.collapse_plain hfull, ?_⟩
    rw [Cursor.pending_of_log] at hpending
    rw [ParseTree.leaves_plain]
    exact hpending
  · rw [htake] at hminus
    cases hminus
    obtain ⟨hstart, hkind⟩ := pending_of_expect hexpect
    rw [Cursor.pending_of_log] at hstart
    refine ⟨_, .negated hatom (List.mem_singleton.1 hkind) hfull,
      Derivation.collapse_negated hfull, ?_⟩
    rw [hstart, hpending, ParseTree.leaves_negated, List.cons_append]

/-! ## Chains -/

/-- A result of the loop of a chain that, if it is a success, is the collapsed links of a chain
derivation. -/
def LinksAt (rule : Rule) (operand : Nonterminal) (cursor : Cursor)
    (result : EStateM.Result ParseFailure Cursor (List Element)) : Prop :=
  ∀ elements later, result = .ok elements later →
    ∃ links : List (Token × ParseTree),
      (∀ link ∈ links, link.1.kind ∈ rule.operators) ∧
      (∀ link ∈ links, Derivation operand link.2) ∧
      Element.ofLinks (links.map fun link => (link.1, link.2.collapse)) = elements ∧
      cursor.pending = (links.flatMap fun link => link.1 :: link.2.leaves) ++ later.pending

theorem linksAt_chainRest {goal : Nonterminal} {operand : Parser ParseTree} (rule : Rule)
    (h : Sound goal operand) :
    ∀ cursor, LinksAt rule goal cursor (chainRest rule operand cursor) := by
  rw [chainRest_eq_recurse]
  -- each turn adds a link in front of those that the remaining turns read
  apply recurse_induction
  · intro cursor elements later hrun
    cases hrun
  · intro again hagain cursor elements later hrun
    obtain ⟨found, taken, hfound, hrun⟩ := bind_eq_ok.1 hrun
    rcases accept_cases rule rule.operators cursor with
      ⟨hstay, -⟩ | ⟨operator, after, htake, hexpect⟩
    · rw [hstay] at hfound
      cases hfound
      obtain ⟨rfl, rfl⟩ := pure_eq_ok.1 hrun
      exact ⟨[], by simp, by simp, rfl, rfl⟩
    · rw [htake] at hfound
      cases hfound
      obtain ⟨_, noted, hnoted, hrun⟩ := bind_eq_ok.1 hrun
      obtain ⟨right, passed, hright, hrun⟩ := bind_eq_ok.1 hrun
      obtain ⟨rest, ended, hrest, hrun⟩ := bind_eq_ok.1 hrun
      obtain ⟨rfl, rfl⟩ := pure_eq_ok.1 hrun
      cases hnoted
      obtain ⟨hstart, hkind⟩ := pending_of_expect hexpect
      obtain ⟨full, hfull, rfl, hmiddle⟩ := h _ right passed hright
      rw [Cursor.pending_of_log] at hmiddle
      obtain ⟨links, hoperators, hlinks, rfl, hend⟩ := hagain passed rest ended hrest
      refine ⟨(operator, full) :: links, ?_, ?_, rfl, ?_⟩
      · simpa using ⟨hkind, fun token tree hmem => hoperators (token, tree) hmem⟩
      · simpa using ⟨hfull, fun token tree hmem => hlinks (token, tree) hmem⟩
      · rw [hstart, hmiddle, hend]
        simp

theorem sound_chain {goal operand : Nonterminal} {rule : Rule} {parser : Parser ParseTree}
    (hgoal : goal.chain? = some (rule, operand)) (h : Sound operand parser) :
    Sound goal (chain rule parser) := by
  intro cursor tree later hrun
  obtain ⟨first, passed, hfirst, hrun⟩ := bind_eq_ok.1 hrun
  obtain ⟨elements, ended, helements, hrun⟩ := bind_eq_ok.1 hrun
  obtain ⟨full, hfull, rfl, hstart⟩ := h cursor first passed hfirst
  obtain ⟨links, hoperators, hlinks, rfl, hend⟩ :=
    linksAt_chainRest rule h passed elements ended helements
  refine ⟨_, .chain hgoal hfull hoperators hlinks, ?_, ?_⟩
  · -- the rule collapses in the parser exactly where the derivation collapses
    cases links with
    | nil =>
        obtain ⟨rfl, -⟩ := pure_eq_ok.1 hrun
        exact ParseTree.collapse_chain_nil full (Nonterminal.chain?_facts hgoal).1
    | cons link links =>
        obtain ⟨rfl, -⟩ := pure_eq_ok.1 hrun
        exact Derivation.collapse_chain_cons hfull hlinks (by simp)
  · have hlater : later = ended := by
      cases links with
      | nil => exact (pure_eq_ok.1 hrun).2.symm
      | cons link links => exact (pure_eq_ok.1 hrun).2.symm
    rw [hstart, hend, ParseTree.leaves_chain, List.append_assoc, hlater]

/-! ## Expressions -/

theorem sound_additive {expression : Parser ParseTree} (h : Sound .expression expression) :
    Sound .additive (additive expression) :=
  sound_chain rfl (sound_chain rfl (sound_chain rfl (sound_chain rfl (sound_single h))))

/-- **The parser of expressions is sound.** -/
theorem sound_expression : Sound .expression expression := by
  apply recurse_induction
  · intro cursor tree later hrun
    cases hrun
  · intro again hagain cursor tree later hrun
    obtain ⟨_, noted, hnoted, hrun⟩ := bind_eq_ok.1 hrun
    cases hnoted
    obtain ⟨full, hfull, hcollapse, hpending⟩ := sound_additive hagain _ tree later hrun
    exact ⟨full, .expression hfull, hcollapse, hpending⟩

end Parser

end AlgebraText
