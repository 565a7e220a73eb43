import AlgebraText.Proofs.Grammar.Exactness
import AlgebraText.Proofs.Grammar.Frontier

/-!
# Every failure of the parser has its reason at the frontier

The machine of frontiers reads the same tokens as the parser. Wherever a rule of the parser ends,
the machine has followed it there: after a success it expects an operator with no bracket open, and
after a failure it has come to the token that the failure points at last, which it cannot read
either. What the failure says can be told from the frontier and from that token, and so can whether
it is fatal: brackets that are open at the frontier have made it so (`Obstacle`).

A rule is followed relative to the place where it starts. Brackets around it are added afterwards,
when the rule of the brackets has been followed past the opening one; this is the one step in which
a failure becomes fatal (`Obstacle.inside`).

## What this module delivers

* `Obstacle`, the reasons for which a rule can fail, and `Diagnosis`, those for a whole text;
* `Parser.Passed`, `Parser.Blocked` and `Parser.Explained`: the machine follows the parser;
* `Parser.explained_expression`: every run of the parser of expressions is explained;
* `Parser.diagnosis_of_wholeExpression`: every failure on a whole text is diagnosed, and so
  `diagnosis_of_parseTree`.
-/

set_option autoImplicit false

namespace AlgebraText

/-! ## Reasons to fail -/

/-- The span of the first of some tokens, or the end of the text. -/
def Cursor.spanAt (cursor : Cursor) (rest : List Token) : Span :=
  (rest.head?.map Token.span).getD cursor.endSpan

theorem Cursor.span_eq (cursor : Cursor) : cursor.span = cursor.spanAt cursor.pending := by
  unfold span spanAt
  rw [peek?_eq]
  cases cursor.pending.head? <;> rfl

/-- The token that is taken stands before the tokens that are left. -/
theorem Cursor.suffix_of_next? {cursor later : Cursor} {token : Token}
    (h : cursor.next? = some (token, later)) : token :: later.ahead <:+ cursor.ahead := by
  have hsuffix : cursor.significant <:+ cursor.ahead := List.dropWhile_suffix Token.isBlank
  unfold next? at h
  split at h
  · cases h
  · rename_i first rest hshape
    cases h
    rwa [hshape] at hsuffix

/-- Why a rule that was started at a cursor fails, in terms of the tokens it has passed, of the
frontier after them and of the tokens ahead. -/
inductive Obstacle (cursor : Cursor) :
    List Token → Frontier → List Token → ParseFailure → Prop
  /-- The text ends where an operand is expected. -/
  | missing {seen opened : List Token} {signable fatal : Bool} :
      (fatal = true ↔ opened ≠ []) →
      Obstacle cursor seen ⟨opened, .operand signable⟩ []
        ⟨.single, [cursor.endSpan], fatal, .unexpectedEof⟩
  /-- A token that starts no operand stands where one is expected. -/
  | misplaced {seen opened after : List Token} {token : Token} {signable fatal : Bool} :
      (fatal = true ↔ opened ≠ []) → token.kind ≠ .dot →
      Frontier.step ⟨opened, .operand signable⟩ token = none →
      Obstacle cursor seen ⟨opened, .operand signable⟩ (token :: after)
        ⟨.single, [token.span], fatal, .expectedExpr token.kind⟩
  /-- A point stands where an operand is expected. -/
  | leadingPoint {seen opened after : List Token} {dot : Token} {signable : Bool} :
      dot.kind = .dot →
      Obstacle cursor seen ⟨opened, .operand signable⟩ (dot :: after)
        ⟨.decimal, [dot.span], true, .malformedDecimal⟩
  /-- A point stands directly behind a number. -/
  | trailingPoint {before after : List Token} {number dot : Token} {frontier : Frontier} :
      number.kind ∈ [TokenKind.int, .float] → dot.kind = .dot → [number, dot] <:+: cursor.ahead →
      Obstacle cursor (before ++ [number]) frontier (dot :: after)
        ⟨.decimal, [number.span.through dot.span], true, .malformedDecimal⟩
  /-- After an operand inside a parenthesis neither an operator nor its end follows. -/
  | unclosedParenthesis {seen outer rest : List Token} {opening : Token} {named : Bool} :
      opening.kind = .openParen →
      (∀ token ∈ rest.head?, Frontier.step ⟨opening :: outer, .operator named⟩ token = none) →
      Obstacle cursor seen ⟨opening :: outer, .operator named⟩ rest
        ⟨.paren, [opening.span, cursor.spanAt rest], true, .unclosedParenthesis⟩
  /-- After an operand inside a square bracket neither an operator nor its end follows. -/
  | unclosedBracket {seen outer rest : List Token} {opening : Token} {named : Bool} :
      opening.kind = .openSquare →
      (∀ token ∈ rest.head?, Frontier.step ⟨opening :: outer, .operator named⟩ token = none) →
      Obstacle cursor seen ⟨opening :: outer, .operator named⟩ rest
        ⟨.function, [opening.span, cursor.spanAt rest], true, .unclosedBracket⟩

namespace Obstacle

variable {cursor later : Cursor} {seen rest : List Token} {frontier : Frontier}
  {failure : ParseFailure}

/-- An obstacle that a later rule meets is one for the rule that came to it. -/
theorem prepend (hreach : Cursor.Reaches cursor later) (passed : List Token)
    (h : Obstacle later seen frontier rest failure) :
    Obstacle cursor (passed ++ seen) frontier rest failure := by
  have hend := hreach.endSpan_eq
  have hplace : later.spanAt rest = cursor.spanAt rest := by rw [Cursor.spanAt, hend, Cursor.spanAt]
  cases h with
  | missing hfatal =>
      rw [hend]
      exact .missing hfatal
  | misplaced hfatal hkind hstuck => exact .misplaced hfatal hkind hstuck
  | leadingPoint hdot => exact .leadingPoint hdot
  | trailingPoint hnumber hdot hnext =>
      obtain ⟨between, hahead, -⟩ := hreach
      rw [← List.append_assoc]
      refine .trailingPoint hnumber hdot (hnext.trans ?_)
      rw [hahead]
      exact (List.suffix_append between _).isInfix
  | unclosedParenthesis hopening hstuck =>
      rw [hplace]
      exact .unclosedParenthesis hopening hstuck
  | unclosedBracket hopening hstuck =>
      rw [hplace]
      exact .unclosedBracket hopening hstuck

/-- **Inside a bracket an obstacle is the same, and fatal.** -/
theorem inside (opening : Token) (h : Obstacle cursor seen frontier rest failure) :
    Obstacle cursor seen (frontier.inside [opening]) rest failure.intoFatal := by
  cases h with
  | missing _ => exact .missing (by simp)
  | misplaced _ hkind hstuck =>
      exact .misplaced (by simp) hkind
        (Frontier.step_inside_eq_none [opening] (Or.inr ⟨_, rfl⟩) hstuck)
  | leadingPoint hdot => exact .leadingPoint hdot
  | trailingPoint hnumber hdot hnext => exact .trailingPoint hnumber hdot hnext
  | unclosedParenthesis hopening hstuck =>
      refine .unclosedParenthesis hopening fun token hmem => ?_
      exact Frontier.step_inside_eq_none [opening] (Or.inl (by simp)) (hstuck token hmem)
  | unclosedBracket hopening hstuck =>
      refine .unclosedBracket hopening fun token hmem => ?_
      exact Frontier.step_inside_eq_none [opening] (Or.inl (by simp)) (hstuck token hmem)

/-- The machine cannot read the token of an obstacle. -/
theorem stuck (h : Obstacle cursor seen frontier rest failure) :
    ∀ token ∈ rest.head?, frontier.step token = none := by
  have hpoint : ∀ {frontier : Frontier} {dot : Token}, dot.kind = .dot →
      frontier.step dot = none := by
    intro frontier dot hdot
    rw [Frontier.step_eq_none, hdot]
    rcases frontier.expected with (_ | _) | (_ | _) <;> rfl
  intro token hmem
  cases h with
  | missing _ => cases hmem
  | misplaced _ _ hstuck =>
      cases hmem
      exact hstuck
  | leadingPoint hdot =>
      cases hmem
      exact hpoint hdot
  | trailingPoint _ hdot _ =>
      cases hmem
      exact hpoint hdot
  | unclosedParenthesis _ hstuck => exact hstuck token hmem
  | unclosedBracket _ hstuck => exact hstuck token hmem

/-- An obstacle at the end of the text is no end of an expression. -/
theorem not_isFinal (h : Obstacle cursor seen frontier [] failure) : ¬ frontier.isFinal := by
  rintro ⟨hopened, named, hexpected⟩
  cases h with
  | missing _ => cases hexpected
  | unclosedParenthesis _ _ => cases hopened
  | unclosedBracket _ _ => cases hopened

end Obstacle

/-- Why a whole text cannot be read. -/
inductive Diagnosis (cursor : Cursor) :
    List Token → Frontier → List Token → ParseFailure → Prop
  /-- The expression meets an obstacle. -/
  | obstacle {seen rest : List Token} {frontier : Frontier} {failure : ParseFailure} :
      Obstacle cursor seen frontier rest failure → Diagnosis cursor seen frontier rest failure
  /-- After a whole expression a token follows. -/
  | leftover {seen after : List Token} {token : Token} {named : Bool} :
      Frontier.step ⟨[], .operator named⟩ token = none →
      Diagnosis cursor seen ⟨[], .operator named⟩ (token :: after)
        ⟨.expression, [token.span], true, .expectedEof⟩

namespace Diagnosis

variable {cursor : Cursor} {seen rest : List Token} {frontier : Frontier}
  {failure : ParseFailure}

theorem stuck (h : Diagnosis cursor seen frontier rest failure) :
    ∀ token ∈ rest.head?, frontier.step token = none := by
  cases h with
  | obstacle h => exact h.stuck
  | leftover hstuck =>
      intro token hmem
      cases hmem
      exact hstuck

theorem not_isFinal (h : Diagnosis cursor seen frontier [] failure) : ¬ frontier.isFinal := by
  cases h with
  | obstacle h => exact h.not_isFinal

/-- **The tokens that were passed and the next one start no run of the machine to an end.** -/
theorem not_isFinal_of_run {final : Frontier}
    (h : Diagnosis cursor seen frontier rest failure)
    (hseen : Frontier.start.run seen = some frontier)
    (hrun : Frontier.start.run (seen ++ rest) = some final) : ¬ final.isFinal := by
  rw [Frontier.run_append_of_run hseen] at hrun
  cases rest with
  | nil =>
      rw [Frontier.run_nil, Option.some.injEq] at hrun
      exact hrun ▸ h.not_isFinal
  | cons token after =>
      rw [Frontier.run_cons_of_stuck (h.stuck token rfl)] at hrun
      cases hrun

end Diagnosis

namespace Parser

variable {α β : Type}

/-! ## The machine follows the parser -/

/-- Between two cursors the machine goes from one frontier to another. -/
structure Passed (before after : Frontier) (cursor later : Cursor) : Prop where
  /-- The tokens between the cursors are passed. -/
  reaches : Cursor.Reaches cursor later
  /-- The machine reads them. -/
  run : ∃ seen, cursor.pending = seen ++ later.pending ∧ before.run seen = some after

/-- A failure is explained by an obstacle to which the machine comes. -/
def Blocked (before : Frontier) (cursor : Cursor) (failure : ParseFailure) : Prop :=
  ∃ seen frontier rest, cursor.pending = seen ++ rest ∧ before.run seen = some frontier ∧
    Obstacle cursor seen frontier rest failure

/-- A match of a nonterminal, which ended in a name or not, would not go on with these tokens. Of
the kinds that could continue it only those are left that no rule takes here. -/
def Ended (goal : Nonterminal) (named : Bool) (rest : List Token) : Prop :=
  ∀ token ∈ rest.head?, token.kind ∈ goal.continuations →
    token.kind = .openSquare ∧ named = false ∨ token.kind = .dot

/-- The outcome of a rule: a match after which an operator is expected and no bracket is open, or a
failure with its obstacle. -/
def Explained (goal : Nonterminal) (before : Frontier) (cursor : Cursor) :
    EStateM.Result ParseFailure Cursor α → Prop
  | .ok _ later =>
    ∃ named, Passed before ⟨[], .operator named⟩ cursor later ∧ Ended goal named later.pending
  | .error failure _ => Blocked before cursor failure

variable {before middle after : Frontier} {cursor later last : Cursor} {failure : ParseFailure}
  {goal : Nonterminal}

namespace Passed

theorem refl (frontier : Frontier) (cursor : Cursor) : Passed frontier frontier cursor cursor :=
  ⟨.refl cursor, [], rfl, rfl⟩

theorem of_log (frontier : Frontier) (cursor : Cursor) (log : List Event) :
    Passed frontier frontier cursor { cursor with log := log } :=
  ⟨.of_log cursor log, [], rfl, rfl⟩

theorem trans (h : Passed before middle cursor later) (h' : Passed middle after later last) :
    Passed before after cursor last := by
  obtain ⟨hreach, seen, hseen, hrun⟩ := h
  obtain ⟨hreach', seen', hseen', hrun'⟩ := h'
  refine ⟨hreach.trans hreach', seen ++ seen', ?_, ?_⟩
  · rw [hseen, hseen', List.append_assoc]
  · rw [Frontier.run_append_of_run hrun, hrun']

/-- Taking a token is a step of the machine. -/
theorem of_expect {rule : Rule} {kinds : List TokenKind} {token : Token}
    (h : expect rule kinds cursor = .ok token later) (hstep : before.step token = some after) :
    Passed before after cursor later := by
  refine ⟨(advances_expect rule kinds).of_ok h, [token], (pending_of_expect h).1, ?_⟩
  rw [Frontier.run_cons_of_step hstep, Frontier.run_nil]

theorem inside (outer : List Token) (h : Passed before after cursor later) :
    Passed (before.inside outer) (after.inside outer) cursor later := by
  obtain ⟨hreach, seen, hseen, hrun⟩ := h
  exact ⟨hreach, seen, hseen, Frontier.run_inside outer hrun⟩

end Passed

namespace Blocked

/-- What blocks a later rule blocks the rule that came to it. -/
theorem prepend (h : Passed before middle cursor later) (h' : Blocked middle later failure) :
    Blocked before cursor failure := by
  obtain ⟨hreach, seen, hseen, hrun⟩ := h
  obtain ⟨seen', frontier, rest, hseen', hrun', hobstacle⟩ := h'
  refine ⟨seen ++ seen', frontier, rest, ?_, ?_, hobstacle.prepend hreach seen⟩
  · rw [hseen, hseen', List.append_assoc]
  · rw [Frontier.run_append_of_run hrun, hrun']

/-- What blocks an expression blocks it fatally inside a bracket. -/
theorem inside (opening : Token) (h : Blocked before cursor failure) :
    Blocked (before.inside [opening]) cursor failure.intoFatal := by
  obtain ⟨seen, frontier, rest, hseen, hrun, hobstacle⟩ := h
  exact ⟨seen, _, rest, hseen, Frontier.run_inside [opening] hrun, hobstacle.inside opening⟩

end Blocked

namespace Explained

theorem prepend {result : EStateM.Result ParseFailure Cursor α}
    (h : Passed before middle cursor later) (h' : Explained goal middle later result) :
    Explained goal before cursor result := by
  cases result with
  | ok value last =>
      obtain ⟨named, hpassed, hended⟩ := h'
      exact ⟨named, h.trans hpassed, hended⟩
  | error failure last => exact Blocked.prepend h h'

/-- A failure goes back without changing what it says. -/
theorem rewinding {parser : Parser α} (h : Explained goal before cursor (parser cursor)) :
    Explained goal before cursor (rewinding parser cursor) := by
  cases hrun : parser cursor with
  | ok value later =>
      rw [hrun] at h
      rw [rewinding_eq_ok.2 hrun]
      exact h
  | error failure later =>
      rw [hrun] at h
      rw [rewinding_of_error hrun]
      exact h

/-- After a match the next rule goes on where the match ended. -/
theorem bind {operand : Nonterminal} {parser : Parser α} {f : α → Parser β}
    (h : Explained operand before cursor (parser cursor))
    (hf : ∀ value later named, Cursor.Reaches cursor later → Ended operand named later.pending →
      Explained goal ⟨[], .operator named⟩ later (f value later)) :
    Explained goal before cursor ((parser >>= f) cursor) := by
  cases hrun : parser cursor with
  | ok value later =>
      rw [hrun] at h
      obtain ⟨named, hpassed, hended⟩ := h
      rw [bind_of_ok hrun]
      exact (hf value later named hpassed.reaches hended).prepend hpassed
  | error failure later =>
      rw [hrun] at h
      rw [bind_of_error hrun]
      exact h

/-- What is made of a match does not matter. -/
theorem bind_pure {parser : Parser α} (f : α → β)
    (h : Explained goal before cursor (parser cursor)) :
    Explained goal before cursor ((parser >>= fun value => pure (f value)) cursor) :=
  h.bind fun _ later named _ hended => ⟨named, .refl _ later, hended⟩

end Explained

/-! ## Operands -/

/-- An operand that ends in no name has ended, whatever follows. -/
theorem ended_of_unnamed (rest : List Token) : Ended .single false rest := by
  intro token _ hkind
  simp only [Nonterminal.continuations, List.mem_cons, List.not_mem_nil, or_false] at hkind
  rcases hkind with hkind | hkind
  · exact Or.inl ⟨hkind, rfl⟩
  · exact Or.inr hkind

/-- After an expression the machine can only close a bracket. -/
theorem step_eq_none_of_ended {opened rest : List Token} {named : Bool} {token : Token}
    (h : Ended .expression named rest) (hmem : token ∈ rest.head?)
    (hparen : token.kind = .closeParen → opened.head?.map Token.kind ≠ some .openParen)
    (hsquare : token.kind = .closeSquare → opened.head?.map Token.kind ≠ some .openSquare) :
    (⟨opened, .operator named⟩ : Frontier).step token = none := by
  have hended := h token hmem
  rw [Frontier.step_eq_none]
  revert hended hparen hsquare
  cases named <;> cases token.kind <;>
    simp +contextual [Nonterminal.continuations, Expectation.after?]

/-- The closing bracket after the expression in it: without it the bracket is an obstacle. -/
theorem explained_closing {rule : Rule} {kind : TokenKind} {cause : ParseCause} {opening : Token}
    {named : Bool} (node : Token → ParseTree)
    (hclose : ∀ close : Token, close.kind = kind →
      Frontier.step ⟨[opening], .operator named⟩ close = some ⟨[], .operator false⟩)
    (hstuck : ∀ token ∈ cursor.pending.head?, token.kind ≠ kind →
      Frontier.step ⟨[opening], .operator named⟩ token = none)
    (hobstacle : ∀ rest : List Token,
      (∀ token ∈ rest.head?, Frontier.step ⟨[opening], .operator named⟩ token = none) →
      Obstacle cursor [] ⟨[opening], .operator named⟩ rest
        ⟨rule, [opening.span, cursor.spanAt rest], true, cause⟩) :
    Explained .single ⟨[opening], .operator named⟩ cursor
      ((closing rule kind cause opening >>= fun close => pure (node close)) cursor) := by
  apply Explained.bind_pure
  rcases startsWith_or [kind] cursor.pending with ⟨close, rest, hpending, hkind⟩ | hother
  · obtain ⟨later, hexpect, -⟩ := expect_of_pending rule [kind] hpending hkind
    simp only [closing, hexpect]
    exact ⟨false, .of_expect hexpect (hclose close (List.mem_singleton.1 hkind)),
      ended_of_unnamed _⟩
  · obtain ⟨failure, hexpect, -⟩ := expect_error_of_pending rule hother
    simp only [closing, hexpect, Cursor.span_eq]
    refine ⟨[], _, cursor.pending, rfl, rfl, hobstacle _ fun token hmem => ?_⟩
    exact hstuck token hmem fun hkind => hother token hmem (List.mem_singleton.2 hkind)

section Operands

variable {expression : Parser ParseTree} {bound : Nat}

/-- An expression after an opening bracket, and the bracket that closes it. -/
theorem explained_bracketed {opening : Token}
    (hbody : Explained .expression .start cursor (expression cursor))
    (f : ParseTree → Parser ParseTree)
    (hclosing : ∀ body later named, Ended .expression named later.pending →
      Explained .single ⟨[opening], .operator named⟩ later (f body later)) :
    Explained .single ⟨[opening], .operand true⟩ cursor
      ((fatally (Parser.rewinding expression) >>= f) cursor) := by
  cases hrun : expression cursor with
  | ok body later =>
      rw [hrun] at hbody
      obtain ⟨named, hpassed, hended⟩ := hbody
      rw [bind_of_ok (fatally_eq_ok.2 (rewinding_eq_ok.2 hrun))]
      exact (hclosing body later named hended).prepend (hpassed.inside [opening])
  | error failure later =>
      rw [hrun] at hbody
      -- here the failure becomes fatal, as a bracket has been opened before it
      have hfatal : fatally (Parser.rewinding expression) cursor =
          .error failure.intoFatal (later.rewoundTo cursor) := by
        simp only [fatally, rewinding_of_error hrun]
      rw [bind_of_error hfatal]
      exact Blocked.inside opening hbody

theorem explained_paren
    (hbelow : ∀ later : Cursor, later.ahead.length < bound →
      Explained .expression .start later (expression later))
    (hle : cursor.ahead.length ≤ bound) {opening : Token} {rest : List Token}
    (hpending : cursor.pending = opening :: rest) (hkind : opening.kind = .openParen)
    (signable : Bool) :
    Explained .single ⟨[], .operand signable⟩ cursor (paren expression cursor) := by
  obtain ⟨inside, hexpect, -⟩ := expect_of_pending .paren [.openParen] hpending (by simp [hkind])
  have hstep : Frontier.step ⟨[], .operand signable⟩ opening =
      some ⟨[opening], .operand true⟩ := by
    cases signable <;> simp [Frontier.step, hkind, Expectation.after?, Token.nest]
  have hshorter := length_lt_of_expect hexpect
  unfold paren
  rw [bind_of_ok hexpect, bind_of_ok (record_apply _ inside)]
  refine Explained.prepend ((Passed.of_expect hexpect hstep).trans
    (.of_log _ inside (.paren opening.span :: inside.log))) ?_
  refine explained_bracketed (hbelow _ ?_) _ ?_
  · show inside.ahead.length < bound
    omega
  · intro body later named hended
    refine explained_closing _ (fun close hclose => ?_) (fun token hmem hother => ?_)
      fun rest hstuck => .unclosedParenthesis hkind hstuck
    · cases named <;> simp [Frontier.step, hclose, hkind, Expectation.after?, Token.nest]
    · exact step_eq_none_of_ended hended hmem (fun hparen => absurd hparen hother)
        fun _ => by simp [hkind]

theorem explained_function
    (hbelow : ∀ later : Cursor, later.ahead.length < bound →
      Explained .expression .start later (expression later))
    (hle : cursor.ahead.length ≤ bound) {name opening : Token} {rest : List Token}
    (hpending : cursor.pending = name :: opening :: rest) (hname : name.kind = .name)
    (hkind : opening.kind = .openSquare) (signable : Bool) :
    Explained .single ⟨[], .operand signable⟩ cursor (function expression cursor) := by
  obtain ⟨middle, hexpect, hmiddle⟩ :=
    expect_of_pending .function [.name] hpending (by simp [hname])
  obtain ⟨inside, hexpect', -⟩ :=
    expect_of_pending .function [.openSquare] hmiddle (by simp [hkind])
  have hstep : Frontier.step ⟨[], .operand signable⟩ name = some ⟨[], .operator true⟩ := by
    cases signable <;> simp [Frontier.step, hname, Expectation.after?, Token.nest]
  have hstep' : Frontier.step ⟨[], .operator true⟩ opening = some ⟨[opening], .operand true⟩ := by
    simp [Frontier.step, hkind, Expectation.after?, Token.nest]
  have hshorter := length_lt_of_expect hexpect
  have hshortest := length_lt_of_expect hexpect'
  unfold function
  rw [bind_of_ok hexpect, bind_of_ok hexpect', bind_of_ok (record_apply _ inside)]
  refine Explained.prepend (((Passed.of_expect hexpect hstep).trans
    (.of_expect hexpect' hstep')).trans
      (.of_log _ inside (.function name.lexeme name.span :: inside.log))) ?_
  refine explained_bracketed (hbelow _ ?_) _ ?_
  · show inside.ahead.length < bound
    omega
  · intro body later named hended
    refine explained_closing _ (fun close hclose => ?_) (fun token hmem hother => ?_)
      fun rest hstuck => .unclosedBracket hkind hstuck
    · cases named <;> simp [Frontier.step, hclose, hkind, Expectation.after?, Token.nest]
    · exact step_eq_none_of_ended hended hmem (fun _ => by simp [hkind])
        fun hsquare => absurd hsquare hother

theorem explained_var {name : Token} {rest : List Token} (hpending : cursor.pending = name :: rest)
    (hname : name.kind = .name) (hrest : ∀ token ∈ rest.head?, token.kind ≠ .openSquare)
    (signable : Bool) : Explained .single ⟨[], .operand signable⟩ cursor (var cursor) := by
  obtain ⟨later, hexpect, hlater⟩ := expect_of_pending .var [.name] hpending (by simp [hname])
  have hstep : Frontier.step ⟨[], .operand signable⟩ name = some ⟨[], .operator true⟩ := by
    cases signable <;> simp [Frontier.step, hname, Expectation.after?, Token.nest]
  unfold var
  rw [bind_of_ok hexpect, bind_of_ok (record_apply _ later)]
  refine ⟨true, (Passed.of_expect hexpect hstep).trans (.of_log _ later _), ?_⟩
  intro token hmem hkind
  -- a square bracket would have made the name a function
  have hother := hrest token (hlater ▸ hmem)
  simp only [Nonterminal.continuations, List.mem_cons, List.not_mem_nil, or_false] at hkind
  exact Or.inr (hkind.resolve_left hother)

/-- A point directly behind a number is noticed, and nothing else is. -/
theorem noPointAfter_cases (number : Token) (cursor : Cursor) :
    noPointAfter number cursor = .ok () cursor ∨
      ∃ dot rest, cursor.ahead = dot :: rest ∧ dot.kind = .dot ∧
        noPointAfter number cursor =
          .error ⟨.decimal, [number.span.through dot.span], true, .malformedDecimal⟩ cursor := by
  unfold noPointAfter
  cases hcurrent : cursor.current? with
  | none => exact Or.inl rfl
  | some token =>
      obtain ⟨rest, hahead⟩ := List.head?_eq_some_iff.1 hcurrent
      by_cases hdot : token.kind = .dot
      · exact Or.inr ⟨token, rest, hahead, hdot, by simp only [hdot, if_true]⟩
      · exact Or.inl (by simp only [hdot, if_false])

theorem explained_number {digits : Token} {rest : List Token}
    (hpending : cursor.pending = digits :: rest) (hkind : digits.kind ∈ [TokenKind.int, .float])
    (signable : Bool) : Explained .single ⟨[], .operand signable⟩ cursor (number cursor) := by
  obtain ⟨later, hexpect, hlater⟩ := expect_of_pending .integer _ hpending hkind
  have hstep : Frontier.step ⟨[], .operand signable⟩ digits = some ⟨[], .operator false⟩ := by
    simp only [List.mem_cons, List.not_mem_nil, or_false] at hkind
    rcases hkind with hkind | hkind <;> cases signable <;>
      simp [Frontier.step, hkind, Expectation.after?, Token.nest]
  unfold number
  rw [bind_of_ok hexpect, bind_of_ok (record_apply _ later)]
  rcases noPointAfter_cases digits
    { later with log := .number digits.lexeme digits.span :: later.log } with
    hpoint | ⟨dot, behind, hahead, hdot, hpoint⟩
  · rw [bind_of_ok hpoint]
    exact ⟨false, (Passed.of_expect hexpect hstep).trans (.of_log _ later _), ended_of_unnamed _⟩
  · rw [bind_of_error hpoint]
    -- the point is no blank, so it is the next significant token as well
    have hhead : later.pending.head? = some dot :=
      Cursor.pending_head?_of_current? (List.head?_eq_some_iff.2 ⟨_, hahead⟩)
        (Token.isBlank_of_kind hdot rfl)
    obtain ⟨after, hafter⟩ := List.head?_eq_some_iff.1 hhead
    obtain ⟨blanks, hblanks⟩ := Cursor.suffix_of_next? (expect_eq_ok.1 hexpect).1
    refine ⟨[] ++ [digits], ⟨[], .operator false⟩, dot :: after, ?_, ?_, ?_⟩
    · rw [hpending, ← hlater, hafter]
      rfl
    · rw [List.nil_append, Frontier.run_cons_of_step hstep, Frontier.run_nil]
    · refine .trailingPoint hkind hdot ⟨blanks, behind, ?_⟩
      rw [← hblanks, show later.ahead = dot :: behind from hahead]
      simp

/-- Where no operand starts, the failure tells what stands there. -/
theorem explained_noOperand {signable : Bool}
    (hstart : ∀ token ∈ cursor.pending.head?, token.kind ∉ operandStarts)
    (hsign : signable = true → ∀ token ∈ cursor.pending.head?, token.kind ≠ .sub) :
    Explained .single ⟨[], .operand signable⟩ cursor (noOperand cursor) := by
  have hspan := cursor.span_eq
  unfold noOperand
  rw [Cursor.peek?_eq]
  cases hpending : cursor.pending with
  | nil =>
      rw [hpending] at hspan
      refine ⟨[], _, [], hpending, rfl, ?_⟩
      simp only [Cursor.failure, hspan]
      exact .missing (by simp)
  | cons token rest =>
      rw [hpending] at hspan hstart hsign
      by_cases hdot : token.kind = .dot
      · simp only [List.head?_cons, hdot, if_true, Cursor.fatalFailure, hspan]
        exact ⟨[], _, token :: rest, hpending, rfl, .leadingPoint hdot⟩
      · simp only [List.head?_cons, hdot, if_false, Cursor.failure, hspan]
        refine ⟨[], _, token :: rest, hpending, rfl, .misplaced (by simp) hdot ?_⟩
        exact Frontier.step_operand_eq_none (hstart token rfl)
          fun hsignable => hsign hsignable token rfl

theorem explained_atom
    (hbelow : ∀ later : Cursor, later.ahead.length < bound →
      Explained .expression .start later (expression later))
    (hle : cursor.ahead.length ≤ bound) {signable : Bool}
    (hsign : signable = true → ∀ token ∈ cursor.pending.head?, token.kind ≠ .sub) :
    Explained .single ⟨[], .operand signable⟩ cursor (atom expression cursor) := by
  rcases startsWith_or operandStarts cursor.pending with ⟨token, rest, hpending, hkind⟩ | hnone
  · -- the first token chooses the alternative, for a name together with the second
    simp only [operandStarts, List.mem_cons, List.not_mem_nil, or_false] at hkind
    rcases hkind with hopen | hname | hnumber
    · rw [atom_of_openParen hpending hopen]
      exact (explained_paren hbelow hle hpending hopen signable).rewinding
    · rcases opensBracket_or rest with ⟨opening, inner, rfl, hopening⟩ | hother
      · rw [atom_of_application hpending hname hopening]
        exact (explained_function hbelow hle hpending hname hopening signable).rewinding
      · rw [atom_of_name hpending hname hother]
        exact (explained_var hpending hname hother signable).rewinding
    · rw [atom_of_number hpending (by simpa using hnumber)]
      exact (explained_number hpending (by simpa using hnumber) signable).rewinding
  · rw [atom_of_other hnone]
    exact explained_noOperand hnone hsign

theorem explained_single
    (hbelow : ∀ later : Cursor, later.ahead.length < bound →
      Explained .expression .start later (expression later))
    (hle : cursor.ahead.length ≤ bound) :
    Explained .single .start cursor (single expression cursor) := by
  unfold single
  rw [bind_of_ok (recordHere_apply _ cursor)]
  have hnoted : Passed .start .start cursor
      { cursor with log := .single cursor.span :: cursor.log } := .of_log _ cursor _
  have hbound := Nat.le_trans hnoted.reaches.length_le hle
  generalize ({ cursor with log := .single cursor.span :: cursor.log } : Cursor) = noted
    at hnoted hbound ⊢
  refine Explained.prepend hnoted ?_
  rcases accept_cases .single [.sub] noted with ⟨hstay, hother⟩ | ⟨minus, later, htake, hexpect⟩
  · rw [bind_of_ok hstay]
    refine Explained.bind_pure _ (explained_atom hbelow hbound fun _ token hmem hsub => ?_)
    exact hother token hmem (List.mem_singleton.2 hsub)
  · rw [bind_of_ok htake]
    have hkind := List.mem_singleton.1 (pending_of_expect hexpect).2
    have hstep : Frontier.start.step minus = some ⟨[], .operand false⟩ := by
      simp [Frontier.start, Frontier.step, hkind, Expectation.after?, Token.nest]
    have hshorter := length_lt_of_expect hexpect
    refine Explained.prepend (.of_expect hexpect hstep) (Explained.bind_pure _ ?_)
    exact explained_atom hbelow (by omega) fun hsignable => by cases hsignable

end Operands

/-! ## Chains -/

/-- An operator may follow any operand, and an operand may follow the operator. -/
theorem step_operator {rule : Rule} {operator : Token} (h : operator.kind ∈ rule.operators)
    (named : Bool) : Frontier.step ⟨[], .operator named⟩ operator = some .start := by
  have hkind : operator.kind ∈ [TokenKind.add, .sub, .mul, .div, .exp] := by
    revert h
    cases rule <;> cases operator.kind <;> decide
  simp only [List.mem_cons, List.not_mem_nil, or_false] at hkind
  rcases hkind with hkind | hkind | hkind | hkind | hkind <;> cases named <;>
    simp [Frontier.step, Frontier.start, hkind, Expectation.after?, Token.nest]

/-- A chain has ended where its last operand has and no operator of the chain follows. -/
theorem Ended.chain {operand : Nonterminal} {rule : Rule} {named : Bool} {rest : List Token}
    (hgoal : goal.chain? = some (rule, operand)) (h : Ended operand named rest)
    (hother : ∀ token ∈ rest.head?, token.kind ∉ rule.operators) : Ended goal named rest := by
  have hcontinue : ∀ kind ∈ goal.continuations,
      kind ∈ rule.operators ∨ kind ∈ operand.continuations := by
    cases goal <;> simp [Nonterminal.chain?] at hgoal
    all_goals
      obtain ⟨rfl, rfl⟩ := hgoal
      decide
  intro token hmem hkind
  exact h token hmem ((hcontinue _ hkind).resolve_left (hother token hmem))

section Chains

variable {operand : Nonterminal} {rule : Rule} {parser : Parser ParseTree} {bound : Nat}

theorem explained_chainRest (hgoal : goal.chain? = some (rule, operand))
    (h : ∀ cursor : Cursor, cursor.ahead.length ≤ bound →
      Explained operand .start cursor (parser cursor)) :
    ∀ cursor : Cursor, cursor.ahead.length ≤ bound → ∀ named, Ended operand named cursor.pending →
      Explained goal ⟨[], .operator named⟩ cursor (chainRest rule parser cursor) := by
  rw [chainRest_eq_recurse]
  apply recurse_induction_below fun cursor result => cursor.ahead.length ≤ bound →
    ∀ named, Ended operand named cursor.pending → Explained goal ⟨[], .operator named⟩ cursor result
  intro again limit hagain cursor hlimit hle named hended
  unfold chainTurn
  rcases accept_cases rule rule.operators cursor with
    ⟨hstay, hother⟩ | ⟨operator, later, htake, hexpect⟩
  · rw [bind_of_ok hstay]
    exact ⟨named, .refl _ cursor, hended.chain hgoal hother⟩
  · have hshorter := length_lt_of_expect hexpect
    have hstep := step_operator (pending_of_expect hexpect).2 named
    rw [bind_of_ok htake]
    refine Explained.prepend ((Passed.of_expect hexpect hstep).trans
      (.of_log _ later (.operator rule operator.lexeme operator.span :: later.log))) ?_
    simp only [bind_of_ok (record_apply _ later)]
    refine Explained.bind (h _ ?_) fun right after named' hreach hended' => ?_
    · show later.ahead.length ≤ bound
      omega
    · -- the operator was taken, so the next turn finds fewer tokens ahead
      have hafter : after.ahead.length ≤ later.ahead.length := hreach.length_le
      exact Explained.bind_pure _ (hagain after (by omega) (by omega) named' hended')

theorem explained_chain (hgoal : goal.chain? = some (rule, operand))
    (h : ∀ cursor : Cursor, cursor.ahead.length ≤ bound →
      Explained operand .start cursor (parser cursor))
    (cursor : Cursor) (hle : cursor.ahead.length ≤ bound) :
    Explained goal .start cursor (chain rule parser cursor) := by
  refine Explained.bind (h cursor hle) fun first later named hreach hended => ?_
  have hrest := explained_chainRest hgoal h later (Nat.le_trans hreach.length_le hle) named hended
  refine Explained.bind hrest fun links last named' _ hended' => ?_
  -- the tree differs with the links, the place does not
  cases links with
  | nil => exact ⟨named', .refl _ last, hended'⟩
  | cons link links => exact ⟨named', .refl _ last, hended'⟩

end Chains

/-! ## Levels -/

section Levels

variable {expression : Parser ParseTree} {bound : Nat}
  (hbelow : ∀ later : Cursor, later.ahead.length < bound →
    Explained .expression .start later (expression later))

include hbelow

theorem explained_power (cursor : Cursor) (hle : cursor.ahead.length ≤ bound) :
    Explained .power .start cursor (power expression cursor) :=
  explained_chain rfl (fun _ hinner => explained_single hbelow hinner) cursor hle

theorem explained_divide (cursor : Cursor) (hle : cursor.ahead.length ≤ bound) :
    Explained .divide .start cursor (divide expression cursor) :=
  explained_chain rfl (explained_power hbelow) cursor hle

theorem explained_multiply (cursor : Cursor) (hle : cursor.ahead.length ≤ bound) :
    Explained .multiply .start cursor (multiply expression cursor) :=
  explained_chain rfl (explained_divide hbelow) cursor hle

theorem explained_additive (cursor : Cursor) (hle : cursor.ahead.length ≤ bound) :
    Explained .additive .start cursor (additive expression cursor) :=
  explained_chain rfl (explained_multiply hbelow) cursor hle

end Levels

/-! ## Expressions -/

/-- **Every run of the parser of expressions is explained.** -/
theorem explained_expression (cursor : Cursor) :
    Explained .expression .start cursor (expression cursor) := by
  revert cursor
  apply recurse_induction_below fun cursor result => Explained .expression .start cursor result
  intro again bound hagain cursor hle
  unfold expressionBody
  rw [bind_of_ok (recordHere_apply _ cursor)]
  refine Explained.prepend (.of_log _ cursor (.expression cursor.span :: cursor.log)) ?_
  -- an expression goes on with the same tokens as an additive chain
  exact explained_additive hagain _ hle

/-- A failure on a whole text is diagnosed. -/
theorem diagnosis_of_wholeExpression {cursor later : Cursor} {failure : ParseFailure}
    (h : wholeExpression cursor = .error failure later) :
    ∃ seen frontier rest, cursor.pending = seen ++ rest ∧
      Frontier.start.run seen = some frontier ∧ Diagnosis cursor seen frontier rest failure := by
  have hexplained := explained_expression cursor
  unfold wholeExpression at h
  cases hrun : expression cursor with
  | ok tree last =>
      rw [hrun] at hexplained
      obtain ⟨named, ⟨-, seen, hseen, hread⟩, hended⟩ := hexplained
      rw [bind_of_ok (rewinding_eq_ok.2 hrun)] at h
      cases hpending : last.pending with
      | nil =>
          have hdone : nothingLeft last = .ok () last := by
            simp only [nothingLeft, Cursor.peek?_eq, hpending, List.head?_nil]
          rw [bind_of_ok hdone] at h
          cases h
      | cons token rest =>
          have hleft : nothingLeft last =
              .error ⟨.expression, [token.span], true, .expectedEof⟩ last := by
            have hspan : last.span = token.span := by rw [Cursor.span_eq, hpending]; rfl
            simp only [nothingLeft, Cursor.peek?_eq, hpending, List.head?_cons,
              Cursor.fatalFailure, hspan]
          rw [bind_of_error hleft] at h
          cases h
          refine ⟨seen, _, token :: rest, by rw [hseen, hpending], hread, .leftover ?_⟩
          rw [hpending] at hended
          exact step_eq_none_of_ended hended rfl (fun _ => by simp) fun _ => by simp
  | error failure' last =>
      rw [hrun] at hexplained
      obtain ⟨seen, frontier, rest, hseen, hread, hobstacle⟩ := hexplained
      rw [bind_of_error (rewinding_of_error hrun)] at h
      cases h
      exact ⟨seen, frontier, rest, hseen, hread, .obstacle hobstacle⟩

end Parser

/-- **Every failure on a text has its reason at the frontier of the tokens before it.** -/
theorem diagnosis_of_parseTree {text : String} {failure : ParseFailure}
    (h : parseTree text = .error failure) :
    ∃ seen frontier rest, significantTokens (tokenize text) = seen ++ rest ∧
      Frontier.start.run seen = some frontier ∧
      Diagnosis (Cursor.ofText text) seen frontier rest failure := by
  unfold parseTree runParser at h
  cases hrun : Parser.wholeExpression (Cursor.ofText text) with
  | ok tree later =>
      rw [hrun] at h
      cases h
  | error failure' later =>
      rw [hrun] at h
      cases h
      exact Parser.diagnosis_of_wholeExpression hrun

end AlgebraText
