import AlgebraText.Proofs.Parser.Steps

/-!
# The first tokens of an operand decide how it is read

`Parser.atom` tries four alternatives in order and goes back after each one that fails. Looking at
no more than two tokens one can tell which of them it will be: a parenthesis, a name followed by a
square bracket, another name, or a number; and if it is none of these, no operand starts there. An
alternative that gets past the tokens that mark it fails fatally if it fails at all, so none of the
others is tried after it.

## What this module delivers

* `Parser.atom_of_openParen`, `Parser.atom_of_application`, `Parser.atom_of_name`,
  `Parser.atom_of_number`, `Parser.atom_of_other`: the five cases.
-/

set_option autoImplicit false

namespace AlgebraText

/-- Taking a token notes no event. -/
theorem Cursor.log_of_next? {cursor later : Cursor} {token : Token}
    (h : cursor.next? = some (token, later)) : later.log = cursor.log := by
  unfold next? at h
  split at h
  · cases h
  · cases h
    rfl

namespace Parser

variable {expression : Parser ParseTree} {cursor : Cursor}

/-! ## Failures after the marking tokens are fatal -/

/-- A sequence fails fatally if its first step succeeds and its second fails only so. -/
theorem fatal_of_bind_error {α β : Type} {x : Parser α} {f : α → Parser β} {cursor middle : Cursor}
    {a : α} (hx : x cursor = .ok a middle)
    (hf : ∀ failure later, f a middle = .error failure later → failure.fatal = true) :
    ∀ failure later, (x >>= f) cursor = .error failure later → failure.fatal = true := by
  intro failure later h
  rw [bind_of_ok hx] at h
  exact hf failure later h

/-- After the opening bracket the body and the closing bracket fail fatally. -/
theorem fatal_of_bracketed_error {rule : Rule} {kind : TokenKind} {cause : ParseCause}
    {opening : Token} {cursor later : Cursor} {failure : ParseFailure}
    {node : ParseTree → Token → ParseTree}
    (h : (do
      let body ← fatally (rewinding expression)
      let close ← closing rule kind cause opening
      return node body close : Parser ParseTree) cursor = .error failure later) :
    failure.fatal = true := by
  cases hbody : fatally (rewinding expression) cursor with
  | error failure' stopped =>
      rw [bind_of_error hbody] at h
      cases h
      exact fatal_of_fatally_error hbody
  | ok body inside =>
      rw [bind_of_ok hbody] at h
      cases hclose : closing rule kind cause opening inside with
      | ok close outside =>
          rw [bind_of_ok hclose] at h
          cases h
      | error failure' stopped =>
          -- a missing bracket is reported as unclosed, whatever stands in its place
          rw [bind_of_error hclose] at h
          cases h
          unfold closing at hclose
          split at hclose
          · cases hclose
          · cases hclose
            rfl

theorem fatal_of_rewinding {parser : Parser ParseTree}
    (h : ∀ failure later, parser cursor = .error failure later → failure.fatal = true) :
    ∀ failure later, rewinding parser cursor = .error failure later → failure.fatal = true := by
  intro failure later hrun
  cases hp : parser cursor with
  | ok tree stopped =>
      rw [rewinding_eq_ok.2 hp] at hrun
      cases hrun
  | error failure' stopped =>
      rw [rewinding_of_error hp] at hrun
      cases hrun
      exact h failure stopped hp

theorem fatal_of_paren_error {opening : Token} {rest : List Token}
    (h : cursor.pending = opening :: rest) (hkind : opening.kind = .openParen) :
    ∀ failure later, paren expression cursor = .error failure later → failure.fatal = true := by
  obtain ⟨inside, hexpect, -⟩ := expect_of_pending .paren [.openParen] h (by simp [hkind])
  refine fatal_of_bind_error hexpect (fatal_of_bind_error (record_apply _ inside) ?_)
  intro failure later hfail
  exact fatal_of_bracketed_error hfail

theorem fatal_of_function_error {name opening : Token} {rest : List Token}
    (h : cursor.pending = name :: opening :: rest) (hname : name.kind = .name)
    (hopening : opening.kind = .openSquare) :
    ∀ failure later, function expression cursor = .error failure later →
      failure.fatal = true := by
  obtain ⟨named, hexpect, hnamed⟩ := expect_of_pending .function [.name] h (by simp [hname])
  obtain ⟨inside, hexpect', -⟩ :=
    expect_of_pending .function [.openSquare] hnamed (by simp [hopening])
  refine fatal_of_bind_error hexpect (fatal_of_bind_error hexpect'
    (fatal_of_bind_error (record_apply _ inside) ?_))
  intro failure later hfail
  exact fatal_of_bracketed_error hfail

theorem fatal_of_number_error {digits : Token} {rest : List Token}
    (h : cursor.pending = digits :: rest) (hkind : digits.kind ∈ [TokenKind.int, .float]) :
    ∀ failure later, number cursor = .error failure later → failure.fatal = true := by
  obtain ⟨after, hexpect, -⟩ := expect_of_pending .integer _ h hkind
  refine fatal_of_bind_error hexpect (fatal_of_bind_error (record_apply _ after) ?_)
  intro failure later hfail
  -- what is left to fail is the look at the point behind the digits
  cases hpoint : noPointAfter digits
      { after with log := .number digits.lexeme digits.span :: after.log } with
  | ok _ stopped =>
      rw [bind_of_ok hpoint] at hfail
      cases hfail
  | error failure' stopped =>
      rw [bind_of_error hpoint] at hfail
      cases hfail
      unfold noPointAfter at hpoint
      split at hpoint
      · split at hpoint
        · cases hpoint
          rfl
        · cases hpoint
      · cases hpoint

/-! ## Alternatives that do not apply fail softly and stay -/

/-- An alternative that expects its first token and does not find it stays. -/
theorem rewinding_expect_error {rule : Rule} {kinds : List TokenKind} {f : Token → Parser ParseTree}
    (h : ∀ token ∈ cursor.pending.head?, token.kind ∉ kinds) :
    ∃ failure, rewinding (expect rule kinds >>= f) cursor = .error failure cursor ∧
      failure.fatal = false := by
  obtain ⟨failure, hexpect, hsoft⟩ := expect_error_of_pending rule h
  exact ⟨failure, rewinding_of_error (bind_of_error hexpect), hsoft⟩

theorem rewinding_paren_error (expression : Parser ParseTree)
    (h : ∀ token ∈ cursor.pending.head?, token.kind ∉ [TokenKind.openParen]) :
    ∃ failure, rewinding (paren expression) cursor = .error failure cursor ∧
      failure.fatal = false :=
  rewinding_expect_error h

theorem rewinding_function_error (expression : Parser ParseTree)
    (h : ∀ token ∈ cursor.pending.head?, token.kind ∉ [TokenKind.name]) :
    ∃ failure, rewinding (function expression) cursor = .error failure cursor ∧
      failure.fatal = false :=
  rewinding_expect_error h

theorem rewinding_var_error
    (h : ∀ token ∈ cursor.pending.head?, token.kind ∉ [TokenKind.name]) :
    ∃ failure, rewinding var cursor = .error failure cursor ∧ failure.fatal = false :=
  rewinding_expect_error h

theorem rewinding_number_error
    (h : ∀ token ∈ cursor.pending.head?, token.kind ∉ [TokenKind.int, .float]) :
    ∃ failure, rewinding number cursor = .error failure cursor ∧ failure.fatal = false :=
  rewinding_expect_error h

/-- A name that no square bracket follows is given back. -/
theorem rewinding_function_error_of_name (expression : Parser ParseTree) {name : Token}
    {rest : List Token} (h : cursor.pending = name :: rest) (hname : name.kind = .name)
    (hrest : ∀ token ∈ rest.head?, token.kind ≠ .openSquare) :
    ∃ failure, rewinding (function expression) cursor = .error failure cursor ∧
      failure.fatal = false := by
  obtain ⟨named, hexpect, hnamed⟩ := expect_of_pending .function [.name] h (by simp [hname])
  have hnext : ∀ token ∈ named.pending.head?, token.kind ∉ [TokenKind.openSquare] := by
    rw [hnamed]
    simpa using hrest
  obtain ⟨failure, hexpect', hsoft⟩ := expect_error_of_pending .function hnext
  -- going back keeps the log, and up to here nothing was noted: the cursor is the old one
  have hlog := Cursor.log_of_next? (expect_eq_ok.1 hexpect).1
  have hback : named.rewoundTo cursor = cursor := by
    obtain ⟨behind, ahead, log⟩ := named
    obtain rfl : log = cursor.log := hlog
    rfl
  have hfail : function expression cursor = .error failure named := by
    unfold function
    rw [bind_of_ok hexpect, bind_of_error hexpect']
  refine ⟨failure, ?_, hsoft⟩
  rw [rewinding_of_error hfail, hback]

/-! ## The five cases -/

/-- A parenthesis is read as an expression in parentheses. -/
theorem atom_of_openParen {opening : Token} {rest : List Token}
    (h : cursor.pending = opening :: rest) (hkind : opening.kind = .openParen) :
    atom expression cursor = rewinding (paren expression) cursor :=
  firstOf_of_decided _ _ (fatal_of_rewinding (fatal_of_paren_error h hkind))

/-- A name before a square bracket is read as a function application. -/
theorem atom_of_application {name opening : Token} {rest : List Token}
    (h : cursor.pending = name :: opening :: rest) (hname : name.kind = .name)
    (hopening : opening.kind = .openSquare) :
    atom expression cursor = rewinding (function expression) cursor := by
  have hfirst : ∀ token ∈ cursor.pending.head?, token.kind ∉ [TokenKind.openParen] := by
    simp [h, hname]
  obtain ⟨_, hparen, hparenSoft⟩ := rewinding_paren_error expression hfirst
  unfold atom
  rw [firstOf_of_soft _ _ hparen hparenSoft]
  exact firstOf_of_decided _ _ (fatal_of_rewinding (fatal_of_function_error h hname hopening))

/-- A name before anything else is read as a variable. -/
theorem atom_of_name {name : Token} {rest : List Token} (h : cursor.pending = name :: rest)
    (hname : name.kind = .name) (hrest : ∀ token ∈ rest.head?, token.kind ≠ .openSquare) :
    atom expression cursor = rewinding var cursor := by
  have hfirst : ∀ token ∈ cursor.pending.head?, token.kind ∉ [TokenKind.openParen] := by
    simp [h, hname]
  obtain ⟨_, hparen, hparenSoft⟩ := rewinding_paren_error expression hfirst
  obtain ⟨_, hfunction, hfunctionSoft⟩ :=
    rewinding_function_error_of_name expression h hname hrest
  obtain ⟨later, hexpect, -⟩ := expect_of_pending .var [.name] h (by simp [hname])
  unfold atom
  rw [firstOf_of_soft _ _ hparen hparenSoft, firstOf_of_soft _ _ hfunction hfunctionSoft]
  -- a variable that found its name does not fail any more
  refine firstOf_of_decided _ _ (fatal_of_rewinding ?_)
  refine fatal_of_bind_error hexpect (fatal_of_bind_error (record_apply _ later) ?_)
  intro failure stopped hfail
  cases hfail

/-- Digits are read as a number. -/
theorem atom_of_number {digits : Token} {rest : List Token} (h : cursor.pending = digits :: rest)
    (hkind : digits.kind ∈ [TokenKind.int, .float]) :
    atom expression cursor = rewinding number cursor := by
  have hother : digits.kind ≠ .openParen ∧ digits.kind ≠ .name := by
    constructor <;> intro heq <;> rw [heq] at hkind <;> simp at hkind
  have hnoParen : ∀ token ∈ cursor.pending.head?, token.kind ∉ [TokenKind.openParen] := by
    simp [h, hother.1]
  have hnoName : ∀ token ∈ cursor.pending.head?, token.kind ∉ [TokenKind.name] := by
    simp [h, hother.2]
  obtain ⟨_, hparen, hparenSoft⟩ := rewinding_paren_error expression hnoParen
  obtain ⟨_, hfunction, hfunctionSoft⟩ := rewinding_function_error expression hnoName
  obtain ⟨_, hvar, hvarSoft⟩ := rewinding_var_error hnoName
  unfold atom
  rw [firstOf_of_soft _ _ hparen hparenSoft, firstOf_of_soft _ _ hfunction hfunctionSoft,
    firstOf_of_soft _ _ hvar hvarSoft]
  exact firstOf_of_decided _ _ (fatal_of_rewinding (fatal_of_number_error h hkind))

/-- The kinds of token that an operand without its sign can start with. -/
def operandStarts : List TokenKind := [.openParen, .name, .int, .float]

/-- No operand starts with anything else. -/
theorem atom_of_other (h : ∀ token ∈ cursor.pending.head?, token.kind ∉ operandStarts) :
    atom expression cursor = noOperand cursor := by
  have hexcept : ∀ kinds : List TokenKind, (∀ kind ∈ kinds, kind ∈ operandStarts) →
      ∀ token ∈ cursor.pending.head?, token.kind ∉ kinds :=
    fun kinds hsub token hmem hkind => h token hmem (hsub _ hkind)
  obtain ⟨_, hparen, hparenSoft⟩ :=
    rewinding_paren_error expression (hexcept [.openParen] (by decide))
  obtain ⟨_, hfunction, hfunctionSoft⟩ :=
    rewinding_function_error expression (hexcept [.name] (by decide))
  obtain ⟨_, hvar, hvarSoft⟩ := rewinding_var_error (hexcept [.name] (by decide))
  obtain ⟨_, hnumber, hnumberSoft⟩ := rewinding_number_error (hexcept [.int, .float] (by decide))
  unfold atom
  rw [firstOf_of_soft _ _ hparen hparenSoft, firstOf_of_soft _ _ hfunction hfunctionSoft,
    firstOf_of_soft _ _ hvar hvarSoft, firstOf_of_soft _ _ hnumber hnumberSoft]
  rfl

end Parser

end AlgebraText
