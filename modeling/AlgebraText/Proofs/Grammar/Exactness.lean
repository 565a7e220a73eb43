import AlgebraText.Proofs.Grammar.Soundness

/-!
# The parser accepts exactly the grammar

The converse of soundness: where the tokens ahead start with the leaves of a derivation, the parser
of its nonterminal consumes these leaves, returns the derivation collapsed and stops. It would go on
if the next token could extend what it has read, so the statement asks that it cannot: for a chain,
that no operator of the chain or of a tighter one follows (`Stops`). A name must not be followed by
a square bracket, nor a number by a point; neither ever is inside a derivation.

Both directions together say that the parser computes the grammar, and since a parser has one
answer, each list of tokens has one derivation.

## What this module delivers

* `Stops`, and `Derivation.reads`: what the grammar derives, the parser reads;
* `Derivation.unique`: two derivations of the same tokens are equal;
* `parseTree_eq_ok_iff_derivation`: a text has a parse tree exactly if its significant tokens are
  derivable, the tree is the collapsed derivation, and there is only one.
-/

set_option autoImplicit false

namespace AlgebraText

/-- The kinds of token with which a match of a nonterminal would go on. -/
def Nonterminal.continuations : Nonterminal → List TokenKind
  | expression | additive => [.add, .sub, .mul, .div, .exp, .openSquare, .dot]
  | multiply => [.mul, .div, .exp, .openSquare, .dot]
  | divide => [.div, .exp, .openSquare, .dot]
  | power => [.exp, .openSquare, .dot]
  | _ => [.openSquare, .dot]

/-- A match of a nonterminal ends before these tokens. -/
def Stops (goal : Nonterminal) (rest : List Token) : Prop :=
  ∀ token ∈ rest.head?, token.kind ∉ goal.continuations

theorem Stops.nil (goal : Nonterminal) : Stops goal [] := by
  intro token hmem
  simp at hmem

theorem Stops.cons {goal : Nonterminal} {token : Token} {rest : List Token}
    (h : token.kind ∉ goal.continuations) : Stops goal (token :: rest) := by
  intro first hmem
  obtain rfl : token = first := by simpa using hmem
  exact h

/-- What ends a match ends a match of anything that goes on with fewer kinds. -/
theorem Stops.mono {goal operand : Nonterminal} {rest : List Token} (h : Stops goal rest)
    (hsub : ∀ kind ∈ operand.continuations, kind ∈ goal.continuations) : Stops operand rest :=
  fun token hmem hkind => h token hmem (hsub _ hkind)

/-- A chain goes on with its operators and with whatever its operands go on with. -/
theorem Nonterminal.continuations_of_chain? {goal operand : Nonterminal} {rule : Rule}
    (h : goal.chain? = some (rule, operand)) :
    (∀ kind ∈ operand.continuations, kind ∈ goal.continuations) ∧
      (∀ kind ∈ rule.operators, kind ∈ goal.continuations ∧ kind ∉ operand.continuations) := by
  cases goal <;> simp [chain?] at h
  all_goals
    obtain ⟨rfl, rfl⟩ := h
    decide

/-- An operand ends where the next link of its chain starts, or else where the chain ends. -/
theorem Stops.links {goal operand : Nonterminal} {rule : Rule}
    (hgoal : goal.chain? = some (rule, operand)) {links : List (Token × ParseTree)}
    {rest : List Token} (hstops : Stops goal rest)
    (hoperators : ∀ link ∈ links, link.1.kind ∈ rule.operators) :
    Stops operand ((links.flatMap fun link => link.1 :: link.2.leaves) ++ rest) := by
  obtain ⟨hsub, hoperator⟩ := Nonterminal.continuations_of_chain? hgoal
  cases links with
  | nil => exact hstops.mono hsub
  | cons next links => exact .cons (hoperator _ (hoperators next List.mem_cons_self)).2

theorem Nonterminal.dot_mem_continuations (goal : Nonterminal) :
    TokenKind.dot ∈ goal.continuations ∧ TokenKind.openSquare ∈ goal.continuations := by
  cases goal <;> decide

theorem Nonterminal.parser_of_chain? {goal operand : Nonterminal} {rule : Rule}
    (h : goal.chain? = some (rule, operand)) :
    goal.parser = Parser.chain rule operand.parser := by
  cases goal <;> simp [chain?] at h
  all_goals
    obtain ⟨rfl, rfl⟩ := h
    rfl

theorem Nonterminal.advances_parser (goal : Nonterminal) : goal.parser.Advances :=
  Parser.compositional_advances.parser goal

namespace Parser

/-- A parser reads a tree if it consumes its leaves wherever they are ahead and a match ends after
them, and returns the tree collapsed. -/
def Reads (parser : Parser ParseTree) (goal : Nonterminal) (full : ParseTree) : Prop :=
  ∀ cursor rest, cursor.pending = full.leaves ++ rest → Stops goal rest →
    ∃ later, parser cursor = .ok full.collapse later ∧ later.pending = rest

/-! ## Operands -/

theorem closing_of_pending {kind : TokenKind} {cursor : Cursor} {token : Token}
    {rest : List Token} (rule : Rule) (cause : ParseCause) (opening : Token)
    (h : cursor.pending = token :: rest) (hkind : token.kind = kind) :
    ∃ later, closing rule kind cause opening cursor = .ok token later ∧ later.pending = rest := by
  obtain ⟨later, hexpect, hrest⟩ :=
    expect_of_pending rule [kind] h (List.mem_singleton.2 hkind)
  exact ⟨later, by simp only [closing, hexpect], hrest⟩

/-- An expression and the bracket that closes it are read after the opening one. -/
theorem reads_bracketed {kind : TokenKind} {close : Token} {body : ParseTree} {cursor : Cursor}
    {rest : List Token} (rule : Rule) (cause : ParseCause) (opening : Token)
    (node : ParseTree → Token → ParseTree)
    (hbody : Reads expression .expression body) (hclose : close.kind = kind)
    (hkind : kind ∉ Nonterminal.expression.continuations)
    (h : cursor.pending = body.leaves ++ close :: rest) :
    ∃ later, (do
      let body ← fatally (rewinding expression)
      let close ← closing rule kind cause opening
      return node body close : Parser ParseTree) cursor =
        .ok (node body.collapse close) later ∧ later.pending = rest := by
  obtain ⟨after, hrun, hafter⟩ := hbody cursor (close :: rest) h (.cons (hclose ▸ hkind))
  obtain ⟨later, hclosing, hlater⟩ := closing_of_pending rule cause opening hafter hclose
  refine ⟨later, ?_, hlater⟩
  rw [bind_of_ok (fatally_eq_ok.2 (rewinding_eq_ok.2 hrun)), bind_of_ok hclosing]
  rfl

theorem reads_paren {opening close : Token} {body : ParseTree}
    (hopening : opening.kind = .openParen) (hbody : Reads expression .expression body)
    (hclose : close.kind = .closeParen) :
    Reads (paren expression) .paren
      (.ofChildren .paren [.token opening, .node body, .token close]) := by
  intro cursor rest hpending _
  have hstart : cursor.pending = opening :: (body.leaves ++ close :: rest) := by
    simpa [ParseTree.leaves_paren, -ParseTree.leaves_ofChildren] using hpending
  obtain ⟨inside, hexpect, hinside⟩ :=
    expect_of_pending .paren [.openParen] hstart (by simp [hopening])
  have hlogged : ({ inside with log := .paren opening.span :: inside.log } : Cursor).pending =
      body.leaves ++ close :: rest := hinside
  obtain ⟨later, hrun, hlater⟩ := reads_bracketed .paren .unclosedParenthesis opening
    (fun body close => .ofChildren .paren [.token opening, .node body, .token close])
    hbody hclose (by decide) hlogged
  refine ⟨later, ?_, hlater⟩
  unfold paren
  rw [bind_of_ok hexpect, bind_of_ok (record_apply _ inside)]
  exact hrun

theorem reads_function {name opening close : Token} {body : ParseTree} (hname : name.kind = .name)
    (hopening : opening.kind = .openSquare) (hbody : Reads expression .expression body)
    (hclose : close.kind = .closeSquare) :
    Reads (function expression) .function
      (.ofChildren .function [.token name, .token opening, .node body, .token close]) := by
  intro cursor rest hpending _
  have hstart : cursor.pending = name :: opening :: (body.leaves ++ close :: rest) := by
    simpa [ParseTree.leaves_function, -ParseTree.leaves_ofChildren] using hpending
  obtain ⟨named, hexpect, hnamed⟩ :=
    expect_of_pending .function [.name] hstart (by simp [hname])
  obtain ⟨inside, hexpect', hinside⟩ :=
    expect_of_pending .function [.openSquare] hnamed (by simp [hopening])
  have hlogged :
      ({ inside with log := .function name.lexeme name.span :: inside.log } : Cursor).pending =
        body.leaves ++ close :: rest := hinside
  obtain ⟨later, hrun, hlater⟩ := reads_bracketed .function .unclosedBracket opening
    (fun body close =>
      .ofChildren .function [.token name, .token opening, .node body, .token close])
    hbody hclose (by decide) hlogged
  refine ⟨later, ?_, hlater⟩
  unfold function
  rw [bind_of_ok hexpect, bind_of_ok hexpect', bind_of_ok (record_apply _ inside)]
  exact hrun

theorem reads_var {name : Token} (hname : name.kind = .name) :
    Reads var .var (.ofChildren .var [.token name]) := by
  intro cursor rest hpending _
  have hstart : cursor.pending = name :: rest := hpending
  obtain ⟨named, hexpect, hnamed⟩ := expect_of_pending .var [.name] hstart (by simp [hname])
  refine ⟨{ named with log := .var name.lexeme name.span :: named.log }, ?_, hnamed⟩
  unfold var
  rw [bind_of_ok hexpect, bind_of_ok (record_apply _ named)]
  rfl

/-- A point that is not pending is not directly ahead either, so a number is taken. -/
theorem noPointAfter_of_stops {digits : Token} {cursor : Cursor} (goal : Nonterminal)
    (h : Stops goal cursor.pending) : noPointAfter digits cursor = .ok () cursor := by
  unfold noPointAfter
  cases hcurrent : cursor.current? with
  | none => rfl
  | some token =>
      have hkind : token.kind ≠ .dot := by
        intro hdot
        -- a point is no blank, so the one directly ahead would be pending
        have hhead := Cursor.pending_head?_of_current? hcurrent (Token.isBlank_of_kind hdot rfl)
        exact h token hhead (hdot ▸ goal.dot_mem_continuations.1)
      simp [hkind]

theorem reads_number (digits : Token) (hkind : digits.kind ∈ [TokenKind.int, .float]) :
    Reads number .number (.ofChildren (numberRule digits.kind) [.token digits]) := by
  intro cursor rest hpending hstops
  have hstart : cursor.pending = digits :: rest := by
    simpa [Element.leavesOfList, Element.leaves] using hpending
  obtain ⟨counted, hexpect, hcounted⟩ := expect_of_pending .integer _ hstart hkind
  refine ⟨{ counted with log := .number digits.lexeme digits.span :: counted.log }, ?_, hcounted⟩
  have hpoint : noPointAfter digits
      { counted with log := .number digits.lexeme digits.span :: counted.log } = .ok () _ :=
    noPointAfter_of_stops .number (hcounted ▸ hstops)
  have hcollapse : (ParseTree.ofChildren (numberRule digits.kind) [.token digits]).collapse =
      .ofChildren (numberRule digits.kind) [.token digits] := by
    rw [ParseTree.collapse_ofChildren (Or.inr (by simp)) (by simp [Element.collapse])]
    rfl
  unfold number
  rw [bind_of_ok hexpect, bind_of_ok (record_apply _ counted), bind_of_ok hpoint, hcollapse]
  rfl

/-- Where the choice between the alternatives falls on the right one, it reads what that one
reads. -/
theorem reads_atom_of_choice {goal : Nonterminal} {full : ParseTree}
    (hreads : Reads goal.parser goal full)
    (hcontinue : goal.continuations = Nonterminal.single.continuations)
    (hchoice : ∀ cursor rest, cursor.pending = full.leaves ++ rest → Stops .single rest →
      atom expression cursor = rewinding goal.parser cursor) :
    Reads (atom expression) .single full := by
  intro cursor rest hpending hstops
  have hstops' : Stops goal rest := hstops.mono (by rw [hcontinue]; exact fun _ hkind => hkind)
  obtain ⟨later, hrun, hlater⟩ := hreads cursor rest hpending hstops'
  refine ⟨later, ?_, hlater⟩
  rw [hchoice cursor rest hpending hstops]
  exact rewinding_eq_ok.2 hrun

/-- A derived atom starts with a token that marks its nonterminal, and is read by the choice between
the alternatives as it is read on its own. -/
theorem reads_atom {goal : Nonterminal} {full : ParseTree} (hatom : goal.isAtom = true)
    (h : Derivation goal full) (hreads : Reads goal.parser goal full) :
    (∃ token rest, full.leaves = token :: rest ∧ token.kind ∈ operandStarts) ∧
      Reads (atom expression) .single full := by
  cases h with
  | expression => cases hatom
  | chain hgoal => cases goal <;> simp [Nonterminal.isAtom, Nonterminal.chain?] at hatom hgoal
  | plain => cases hatom
  | negated => cases hatom
  | @paren opening close body hopening _ _ =>
      refine ⟨⟨opening, _, rfl, by simp [hopening, operandStarts]⟩, ?_⟩
      refine reads_atom_of_choice hreads rfl fun cursor rest hpending _ => ?_
      exact atom_of_openParen hpending hopening
  | @function name opening close body hname hopening _ _ =>
      refine ⟨⟨name, _, rfl, by simp [hname, operandStarts]⟩, ?_⟩
      refine reads_atom_of_choice hreads rfl fun cursor rest hpending _ => ?_
      exact atom_of_application hpending hname hopening
  | @var name hname =>
      refine ⟨⟨name, _, rfl, by simp [hname, operandStarts]⟩, ?_⟩
      refine reads_atom_of_choice hreads rfl fun cursor rest hpending hstops => ?_
      have hstart : cursor.pending = name :: rest := hpending
      -- a square bracket after the name would make it a function
      refine atom_of_name hstart hname fun token hmem hbracket => ?_
      exact hstops token hmem (hbracket ▸ Nonterminal.single.dot_mem_continuations.2)
  | @integer digits hdigits =>
      refine ⟨⟨digits, _, rfl, by simp [hdigits, operandStarts]⟩, ?_⟩
      refine reads_atom_of_choice hreads rfl fun cursor rest hpending _ => ?_
      exact atom_of_number hpending (by simp [hdigits])
  | @decimal digits hdigits =>
      refine ⟨⟨digits, _, rfl, by simp [hdigits, operandStarts]⟩, ?_⟩
      refine reads_atom_of_choice hreads rfl fun cursor rest hpending _ => ?_
      exact atom_of_number hpending (by simp [hdigits])

/-- An operand without a sign: its first token is no minus sign, so none is taken. -/
theorem reads_plain {goal : Nonterminal} {full : ParseTree} (hatom : goal.isAtom = true)
    (h : Derivation goal full) (hreads : Reads goal.parser goal full) :
    Reads (single expression) .single (.ofChildren .single [.node full]) := by
  intro cursor rest hpending hstops
  obtain ⟨⟨token, tail, hleaves, hkind⟩, hreads⟩ := reads_atom hatom h hreads
  have hstart : cursor.pending = full.leaves ++ rest := by
    rw [hpending, ParseTree.leaves_plain]
  obtain ⟨later, hrun, hlater⟩ :=
    hreads { cursor with log := .single cursor.span :: cursor.log } rest hstart hstops
  refine ⟨later, ?_, hlater⟩
  have hminus : accept .single [.sub] { cursor with log := .single cursor.span :: cursor.log } =
      .ok none { cursor with log := .single cursor.span :: cursor.log } := by
    apply accept_none_of_pending
    -- no operand starts with a minus sign, so the sign cannot be taken from the operand
    rw [Cursor.pending_of_log, hstart, hleaves]
    intro first hmem hsub
    obtain rfl : token = first := by simpa using hmem
    rw [List.mem_singleton.1 hsub] at hkind
    simp [operandStarts] at hkind
  unfold single
  rw [bind_of_ok (recordHere_apply _ cursor), bind_of_ok hminus, bind_of_ok hrun,
    Derivation.collapse_plain h]
  rfl

theorem reads_negated {goal : Nonterminal} {minus : Token} {full : ParseTree}
    (hatom : goal.isAtom = true) (hminus : minus.kind = .sub) (h : Derivation goal full)
    (hreads : Reads goal.parser goal full) :
    Reads (single expression) .single (.ofChildren .single [.token minus, .node full]) := by
  intro cursor rest hpending hstops
  obtain ⟨-, hreads⟩ := reads_atom hatom h hreads
  have hstart : ({ cursor with log := .single cursor.span :: cursor.log } : Cursor).pending =
      minus :: (full.leaves ++ rest) := by
    rw [Cursor.pending_of_log, hpending, ParseTree.leaves_negated, List.cons_append]
  obtain ⟨signed, haccept, hsigned⟩ :=
    accept_of_pending .single [.sub] hstart (by simp [hminus])
  obtain ⟨later, hrun, hlater⟩ := hreads signed rest hsigned hstops
  refine ⟨later, ?_, hlater⟩
  unfold single
  rw [bind_of_ok (recordHere_apply _ cursor), bind_of_ok haccept, bind_of_ok hrun,
    Derivation.collapse_negated h]
  rfl

/-! ## Chains -/

/-- The loop of a chain takes all links: a link starts with an operator of the chain, and the
operand before it ends there. -/
theorem chainRest_of_pending {goal operand : Nonterminal} {rule : Rule}
    (hgoal : goal.chain? = some (rule, operand)) {links : List (Token × ParseTree)}
    {rest : List Token} (hstops : Stops goal rest)
    (hoperators : ∀ link ∈ links, link.1.kind ∈ rule.operators)
    (hreads : ∀ link ∈ links, Reads operand.parser operand link.2) {cursor : Cursor}
    (hpending : cursor.pending = (links.flatMap fun link => link.1 :: link.2.leaves) ++ rest) :
    ∃ later, chainRest rule operand.parser cursor =
        .ok (Element.ofLinks (links.map fun link => (link.1, link.2.collapse))) later ∧
      later.pending = rest := by
  have hunfold := chainRest_eq rule operand.advances_parser
  induction links generalizing cursor with
  | nil =>
      -- the loop ends, since an operator of the chain would continue it
      have hnone : accept rule rule.operators cursor = .ok none cursor := by
        apply accept_none_of_pending
        rw [show cursor.pending = rest from hpending]
        intro token hmem hkind
        exact hstops token hmem ((Nonterminal.continuations_of_chain? hgoal).2 _ hkind).1
      refine ⟨cursor, ?_, hpending⟩
      rw [hunfold]
      unfold chainTurn
      rw [bind_of_ok hnone]
      rfl
  | cons link links ih =>
      have hkind := hoperators link List.mem_cons_self
      have hothers : ∀ other ∈ links, other.1.kind ∈ rule.operators :=
        fun other hmem => hoperators other (List.mem_cons_of_mem _ hmem)
      have hstart : cursor.pending = link.1 ::
          (link.2.leaves ++ ((links.flatMap fun link => link.1 :: link.2.leaves) ++ rest)) := by
        simpa using hpending
      obtain ⟨taken, haccept, htaken⟩ := accept_of_pending rule _ hstart hkind
      obtain ⟨passed, hright, hpassed⟩ := hreads link List.mem_cons_self
        { taken with log := .operator rule link.1.lexeme link.1.span :: taken.log } _ htaken
        (hstops.links hgoal hothers)
      obtain ⟨later, hrest, hlater⟩ := ih hothers
        (fun other hmem => hreads other (List.mem_cons_of_mem _ hmem)) hpassed
      refine ⟨later, ?_, hlater⟩
      rw [hunfold]
      unfold chainTurn
      rw [bind_of_ok haccept]
      dsimp only
      rw [bind_of_ok (record_apply _ taken), bind_of_ok hright, bind_of_ok hrest]
      rfl

theorem reads_chain {goal operand : Nonterminal} {rule : Rule} {first : ParseTree}
    {links : List (Token × ParseTree)} (hgoal : goal.chain? = some (rule, operand))
    (hfirst : Derivation operand first) (hlinks : ∀ link ∈ links, Derivation operand link.2)
    (hoperators : ∀ link ∈ links, link.1.kind ∈ rule.operators)
    (hreads : Reads operand.parser operand first)
    (hreadsLinks : ∀ link ∈ links, Reads operand.parser operand link.2) :
    Reads goal.parser goal (.ofChildren rule (.node first :: Element.ofLinks links)) := by
  intro cursor rest hpending hstops
  rw [ParseTree.leaves_chain, List.append_assoc] at hpending
  obtain ⟨passed, hrun, hpassed⟩ := hreads cursor _ hpending (hstops.links hgoal hoperators)
  obtain ⟨later, hrest, hlater⟩ :=
    chainRest_of_pending hgoal hstops hoperators hreadsLinks hpassed
  refine ⟨later, ?_, hlater⟩
  rw [Nonterminal.parser_of_chain? hgoal]
  unfold chain
  rw [bind_of_ok hrun, bind_of_ok hrest]
  cases links with
  | nil =>
      rw [Element.ofLinks_nil,
        ParseTree.collapse_chain_nil first (Nonterminal.chain?_facts hgoal).1]
      rfl
  | cons link links =>
      rw [Derivation.collapse_chain_cons hfirst hlinks (by simp)]
      rfl

end Parser

/-! ## Every derivation is read -/

namespace Derivation

/-- **What the grammar derives, the parser reads.** -/
theorem reads {goal : Nonterminal} {full : ParseTree} (h : Derivation goal full) :
    Parser.Reads goal.parser goal full := by
  induction h with
  | @expression full h ih =>
      intro cursor rest hpending hstops
      obtain ⟨later, hrun, hlater⟩ :=
        ih { cursor with log := .expression cursor.span :: cursor.log } rest hpending hstops
      refine ⟨later, ?_, hlater⟩
      -- the guard of the recursion is gone, so brackets hold expressions of any length
      show Parser.expression cursor = _
      rw [Parser.expression_eq]
      unfold Parser.expressionBody
      rw [Parser.bind_of_ok (Parser.recordHere_apply _ cursor)]
      exact hrun
  | chain hgoal hfirst hoperators hlinks ihfirst ihlinks =>
      exact Parser.reads_chain hgoal hfirst hlinks hoperators ihfirst ihlinks
  | plain hatom h ih => exact Parser.reads_plain hatom h ih
  | negated hatom hminus h ih => exact Parser.reads_negated hatom hminus h ih
  | paren hopening _ hclosing ih => exact Parser.reads_paren hopening ih hclosing
  | function hname hopening _ hclosing ih => exact Parser.reads_function hname hopening ih hclosing
  | var hname => exact Parser.reads_var hname
  | @integer digits hdigits =>
      have hreads := Parser.reads_number digits (by simp [hdigits])
      rwa [Parser.numberRule, hdigits] at hreads
  | @decimal digits hdigits =>
      have hreads := Parser.reads_number digits (by simp [hdigits])
      rwa [Parser.numberRule, hdigits] at hreads

/-- **The grammar is unambiguous.** Two derivations of the same tokens from one nonterminal are
equal, since the parser makes the same of both. -/
theorem unique {goal : Nonterminal} {full full' : ParseTree} (h : Derivation goal full)
    (h' : Derivation goal full') (hleaves : full.leaves = full'.leaves) : full = full' := by
  have hstart : (Cursor.ofTokens full.leaves).pending = full.leaves :=
    significantTokens_eq_self h.isBlank_of_mem_leaves
  -- run the parser on the leaves alone: it returns both derivations collapsed
  obtain ⟨later, hrun, -⟩ := h.reads _ [] (by rw [hstart, List.append_nil]) (.nil goal)
  obtain ⟨later', hrun', -⟩ := h'.reads (Cursor.ofTokens full.leaves) []
    (by rw [hstart, hleaves, List.append_nil]) (.nil goal)
  rw [hrun] at hrun'
  injection hrun' with hcollapse _
  exact h.collapse_injective h' hcollapse

end Derivation

/-! ## Texts -/

theorem Cursor.pending_ofText (text : String) :
    (Cursor.ofText text).pending = significantTokens (tokenize text) := rfl

theorem parseTree_eq_ok {text : String} {tree : ParseTree} :
    parseTree text = .ok tree ↔
      ∃ later, Parser.wholeExpression (Cursor.ofText text) = .ok tree later := by
  unfold parseTree runParser
  cases Parser.wholeExpression (Cursor.ofText text) with
  | ok tree' later => simp
  | error failure later => simp

/-- A whole expression is an expression after which no token is pending. -/
theorem Parser.wholeExpression_eq_ok {cursor later : Cursor} {tree : ParseTree} :
    wholeExpression cursor = .ok tree later ↔
      expression cursor = .ok tree later ∧ later.pending = [] := by
  constructor
  · intro h
    obtain ⟨tree', after, hrun, h⟩ := bind_eq_ok.1 h
    obtain ⟨_, stopped, hleft, h⟩ := bind_eq_ok.1 h
    obtain ⟨rfl, rfl⟩ := pure_eq_ok.1 h
    unfold nothingLeft at hleft
    rw [Cursor.peek?_eq] at hleft
    split at hleft
    · rename_i hnone
      cases hleft
      exact ⟨rewinding_eq_ok.1 hrun, List.head?_eq_none_iff.1 hnone⟩
    · cases hleft
  · rintro ⟨hrun, hpending⟩
    have hleft : nothingLeft later = .ok () later := by
      unfold nothingLeft
      rw [Cursor.peek?_eq, hpending]
      rfl
    unfold wholeExpression
    rw [bind_of_ok (rewinding_eq_ok.2 hrun), bind_of_ok hleft]
    rfl

/-- A text has a parse tree exactly if its significant tokens are the leaves of a derivation, and
the tree is that derivation collapsed. -/
theorem parseTree_eq_ok_iff_collapse {text : String} {tree : ParseTree} :
    parseTree text = .ok tree ↔
      ∃ full, Derivation .expression full ∧ full.leaves = significantTokens (tokenize text) ∧
        full.collapse = tree := by
  rw [parseTree_eq_ok]
  constructor
  · rintro ⟨later, hrun⟩
    obtain ⟨hrun, hend⟩ := Parser.wholeExpression_eq_ok.1 hrun
    obtain ⟨full, hfull, hcollapse, hpending⟩ := Parser.sound_expression _ tree later hrun
    rw [hend, List.append_nil, Cursor.pending_ofText] at hpending
    exact ⟨full, hfull, hpending.symm, hcollapse⟩
  · rintro ⟨full, hfull, hleaves, rfl⟩
    obtain ⟨later, hrun, hend⟩ := hfull.reads (Cursor.ofText text) []
      (by rw [Cursor.pending_ofText, hleaves, List.append_nil]) (.nil _)
    exact ⟨later, Parser.wholeExpression_eq_ok.2 ⟨hrun, hend⟩⟩

/-- **The parser accepts exactly its grammar.** A text has a parse tree if and only if its
significant tokens are derivable from an expression; the tree is then the derivation of these
tokens with every chain level of one operand collapsed, and no other derivation has these leaves,
so no other tree is such a collapse. The grammar is unambiguous on any tokens whatever. -/
theorem parseTree_eq_ok_iff_derivation (text : String) :
    ((∃ tree, parseTree text = .ok tree) ↔
        Derivable .expression (significantTokens (tokenize text))) ∧
      (∀ tree, parseTree text = .ok tree ↔
        ∃ full, Derivation .expression full ∧ full.leaves = significantTokens (tokenize text) ∧
          full.collapse = tree) ∧
      (∀ full full', Derivation .expression full → Derivation .expression full' →
        full.leaves = full'.leaves → full = full') := by
  refine ⟨?_, fun tree => parseTree_eq_ok_iff_collapse, fun _ _ h h' => h.unique h'⟩
  constructor
  · rintro ⟨tree, hrun⟩
    obtain ⟨full, hfull, hleaves, -⟩ := parseTree_eq_ok_iff_collapse.1 hrun
    exact ⟨full, hfull, hleaves⟩
  · rintro ⟨full, hfull, hleaves⟩
    exact ⟨full.collapse, parseTree_eq_ok_iff_collapse.2 ⟨full, hfull, hleaves, rfl⟩⟩

end AlgebraText
