import AlgebraText.Proofs.Grammar.Derivation
import AlgebraText.Proofs.Grammar.Operand

/-!
# The frontier between what was read and what may follow

Chain levels matter for how a sentence is grouped, not for whether it is one. So a machine that
reads tokens one by one and keeps only the brackets that are still open, and whether an operand or
an operator is expected next, already tells which tokens may follow. Its state is a frontier. A
token that may not follow has no next frontier, and every frontier can be led to an end: supply the
operand that is missing and close the brackets.

The machine never looks below the innermost open bracket, so what it does is the same inside any
brackets (`Frontier.step_inside`).

## What this module delivers

* `openBrackets`, the brackets that tokens leave open, and `OperandPosition`;
* `Frontier.step` and `Frontier.run`;
* `Frontier.step_inside`, `Frontier.run_inside`: the machine inside further brackets;
* `Frontier.opened_eq` and `Frontier.operandPosition_iff`: what a frontier says about the tokens
  before it;
* `Frontier.exists_completion`: every frontier can be led to an end.
-/

set_option autoImplicit false

namespace AlgebraText

/-! ## Open brackets and operand positions -/

/-- The kinds of token that open a bracket. -/
def bracketKinds : List TokenKind := [.openParen, .openSquare]

/-- The open brackets after a token, the innermost first. -/
def Token.nest (opened : List Token) (token : Token) : List Token :=
  match token.kind with
  | .openParen | .openSquare => token :: opened
  | .closeParen | .closeSquare => opened.tail
  | _ => opened

/-- The brackets that tokens leave open, the innermost first. -/
def openBrackets (tokens : List Token) : List Token := tokens.foldl Token.nest []

/-- The kinds of token after which an operand follows: operators, signs and opening brackets. -/
def operandLeads : List TokenKind := [.add, .sub, .mul, .div, .exp, .openParen, .openSquare]

/-- An operand follows these tokens. -/
def OperandPosition (tokens : List Token) : Prop :=
  ∀ last ∈ tokens.getLast?, last.kind ∈ operandLeads

theorem Token.mem_nest {opened : List Token} {token bracket : Token}
    (h : bracket ∈ token.nest opened) :
    bracket ∈ opened ∨ bracket = token ∧ bracket.kind ∈ bracketKinds := by
  unfold nest at h
  split at h
  case h_1 hkind | h_2 hkind =>
    rcases List.mem_cons.1 h with rfl | h
    · exact Or.inr ⟨rfl, by simp [bracketKinds, hkind]⟩
    · exact Or.inl h
  case h_3 | h_4 => exact Or.inl (List.mem_of_mem_tail h)
  case h_5 => exact Or.inl h

/-- An open bracket is one of the tokens. -/
theorem mem_of_mem_openBrackets {tokens : List Token} {bracket : Token}
    (h : bracket ∈ openBrackets tokens) : bracket ∈ tokens ∧ bracket.kind ∈ bracketKinds := by
  -- what is open after some tokens was open before them or was opened by one of them
  have hgeneral : ∀ (tokens opened : List Token), bracket ∈ tokens.foldl Token.nest opened →
      bracket ∈ opened ∨ bracket ∈ tokens ∧ bracket.kind ∈ bracketKinds := by
    intro tokens
    induction tokens with
    | nil => exact fun opened hmem => Or.inl hmem
    | cons token rest ih =>
        intro opened hmem
        rcases ih _ hmem with hmem | ⟨hmem, hkind⟩
        · rcases Token.mem_nest hmem with hmem | ⟨rfl, hkind⟩
          · exact Or.inl hmem
          · exact Or.inr ⟨List.mem_cons_self, hkind⟩
        · exact Or.inr ⟨List.mem_cons_of_mem _ hmem, hkind⟩
  rcases hgeneral tokens [] h with hmem | hfound
  · cases hmem
  · exact hfound

/-! ## The machine -/

/-- What may follow the tokens read so far. -/
inductive Expectation where
  /-- An operand. A minus sign may stand before it unless there is one already. -/
  | operand (signable : Bool)
  /-- An operator or a closing bracket, and after a name also an opening square bracket. -/
  | operator (named : Bool)
deriving DecidableEq, Repr

/-- What may follow a token of the given kind, if that may follow itself. The innermost open bracket
decides whether a closing one may. -/
def Expectation.after? (innermost : Option TokenKind) : Expectation → TokenKind → Option Expectation
  | operand true, .sub => some (operand false)
  | operand _, .openParen => some (operand true)
  | operand _, .name => some (operator true)
  | operand _, .int => some (operator false)
  | operand _, .float => some (operator false)
  | operator _, .add => some (operand true)
  | operator _, .sub => some (operand true)
  | operator _, .mul => some (operand true)
  | operator _, .div => some (operand true)
  | operator _, .exp => some (operand true)
  | operator true, .openSquare => some (operand true)
  | operator _, .closeParen =>
    if innermost = some .openParen then some (operator false) else none
  | operator _, .closeSquare =>
    if innermost = some .openSquare then some (operator false) else none
  | _, _ => none

/-- The state of the machine. -/
structure Frontier where
  /-- The open brackets, the innermost first. -/
  opened : List Token
  /-- What may follow. -/
  expected : Expectation
deriving DecidableEq, Repr

namespace Frontier

/-- The frontier before the first token of an expression. -/
def start : Frontier := ⟨[], .operand true⟩

/-- The frontier after one more token, if the token may follow. -/
def step (frontier : Frontier) (token : Token) : Option Frontier :=
  (frontier.expected.after? (frontier.opened.head?.map Token.kind) token.kind).map fun expected =>
    ⟨token.nest frontier.opened, expected⟩

/-- The frontier after some tokens, if each may follow the ones before it. -/
def run (frontier : Frontier) : List Token → Option Frontier
  | [] => some frontier
  | token :: rest => (frontier.step token).bind fun next => next.run rest

/-- The frontier inside further brackets. -/
def inside (outer : List Token) (frontier : Frontier) : Frontier :=
  ⟨frontier.opened ++ outer, frontier.expected⟩

variable {frontier next : Frontier} {token : Token} {tokens rest : List Token}

@[simp]
theorem run_nil (frontier : Frontier) : frontier.run [] = some frontier := rfl

theorem run_cons_of_step (h : frontier.step token = some next) (rest : List Token) :
    frontier.run (token :: rest) = next.run rest := by
  rw [run, h, Option.bind_some]

theorem run_cons_of_stuck (h : frontier.step token = none) (rest : List Token) :
    frontier.run (token :: rest) = none := by
  rw [run, h, Option.bind_none]

theorem run_append (frontier : Frontier) (tokens rest : List Token) :
    frontier.run (tokens ++ rest) = (frontier.run tokens).bind fun next => next.run rest := by
  induction tokens generalizing frontier with
  | nil => rfl
  | cons token tokens ih =>
      rw [List.cons_append, run, run]
      cases frontier.step token with
      | none => rfl
      | some next => exact ih next

theorem run_append_of_run (h : frontier.run tokens = some next) (rest : List Token) :
    frontier.run (tokens ++ rest) = next.run rest := by
  rw [run_append, h, Option.bind_some]

/-! ## Single steps -/

/-- What a step does: it keeps track of brackets and goes on to what may follow. -/
theorem step_eq_some :
    frontier.step token = some next ↔
      frontier.expected.after? (frontier.opened.head?.map Token.kind) token.kind =
          some next.expected ∧
        next.opened = token.nest frontier.opened := by
  obtain ⟨opened, expected⟩ := next
  unfold step
  rw [Option.map_eq_some_iff]
  constructor
  · rintro ⟨after, hafter, hnext⟩
    cases hnext
    exact ⟨hafter, rfl⟩
  · rintro ⟨hafter, hopened⟩
    obtain rfl : opened = token.nest frontier.opened := hopened
    exact ⟨expected, hafter, rfl⟩

theorem step_eq_none :
    frontier.step token = none ↔
      frontier.expected.after? (frontier.opened.head?.map Token.kind) token.kind = none := by
  unfold step
  rw [Option.map_eq_none_iff]

/-- No blank token is read. -/
theorem isBlank_of_step (h : frontier.step token = some next) : token.isBlank = false := by
  have hafter := (step_eq_some.1 h).1
  rw [Token.isBlank]
  cases hkind : token.kind
  case whitespace | newLine =>
    rw [hkind] at hafter
    rcases hexpected : frontier.expected with (_ | _) | (_ | _) <;>
      simp [hexpected, Expectation.after?] at hafter
  all_goals rfl

/-- An operand is expected after exactly the tokens that lead to one. -/
theorem operand_iff_of_step (h : frontier.step token = some next) :
    (∃ signable, next.expected = .operand signable) ↔ token.kind ∈ operandLeads := by
  have hafter := (step_eq_some.1 h).1
  rcases hexpected : frontier.expected with (_ | _) | (_ | _) <;> cases hkind : token.kind <;>
    simp [hexpected, hkind, Expectation.after?] at hafter
  all_goals
    first
      | (rw [← hafter]; simp [operandLeads])
      | (rw [← hafter.2]; simp [operandLeads])

/-! ## Inside further brackets -/

/-- Where a bracket is open or an operand is expected, the brackets further out decide nothing. -/
theorem after?_inside (outer : List Token)
    (h : frontier.opened ≠ [] ∨ ∃ signable, frontier.expected = .operand signable)
    (kind : TokenKind) :
    (frontier.inside outer).expected.after? ((frontier.inside outer).opened.head?.map Token.kind)
        kind =
      frontier.expected.after? (frontier.opened.head?.map Token.kind) kind := by
  obtain ⟨opened, expected⟩ := frontier
  cases opened with
  | cons bracket opened => rfl
  | nil =>
      rcases h with hnone | ⟨signable, rfl⟩
      · exact absurd rfl hnone
      · cases signable <;> cases kind <;> rfl

/-- A closing bracket may follow only where a bracket is open. -/
theorem opened_ne_nil_of_step (h : frontier.step token = some next)
    (hkind : token.kind = .closeParen ∨ token.kind = .closeSquare) : frontier.opened ≠ [] := by
  have hafter := (step_eq_some.1 h).1
  intro hnone
  rw [hnone] at hafter
  rcases hkind with hkind | hkind <;> rw [hkind] at hafter <;>
    rcases hexpected : frontier.expected with (_ | _) | (_ | _) <;>
    simp [hexpected, Expectation.after?] at hafter

theorem nest_append {opened : List Token} (outer : List Token)
    (h : token.kind = .closeParen ∨ token.kind = .closeSquare → opened ≠ []) :
    token.nest (opened ++ outer) = token.nest opened ++ outer := by
  unfold Token.nest
  split
  case h_1 | h_2 | h_5 => rfl
  case h_3 hkind => exact List.tail_append_of_ne_nil (h (Or.inl hkind))
  case h_4 hkind => exact List.tail_append_of_ne_nil (h (Or.inr hkind))

/-- **The machine does the same inside further brackets.** -/
theorem step_inside (outer : List Token) (h : frontier.step token = some next) :
    (frontier.inside outer).step token = some (next.inside outer) := by
  obtain ⟨hafter, hopened⟩ := step_eq_some.1 h
  have hnest := nest_append outer (opened_ne_nil_of_step h)
  refine step_eq_some.2 ⟨?_, ?_⟩
  · -- only a closing bracket looks at the open ones, and it finds one without those further out
    by_cases hnone : frontier.opened = []
    · have hkind : token.kind ≠ .closeParen ∧ token.kind ≠ .closeSquare :=
        ⟨fun hkind => opened_ne_nil_of_step h (Or.inl hkind) hnone,
          fun hkind => opened_ne_nil_of_step h (Or.inr hkind) hnone⟩
      show frontier.expected.after? ((frontier.opened ++ outer).head?.map Token.kind) token.kind =
        some next.expected
      rw [← hafter]
      rcases frontier.expected with (_ | _) | (_ | _) <;> revert hkind <;>
        cases token.kind <;> simp [Expectation.after?]
    · rw [after?_inside outer (Or.inl hnone)]
      exact hafter
  · show next.opened ++ outer = token.nest (frontier.opened ++ outer)
    rw [hnest, hopened]

/-- A token that may not follow may not follow inside further brackets either, unless it would close
one of these. -/
theorem step_inside_eq_none (outer : List Token)
    (hinner : frontier.opened ≠ [] ∨ ∃ signable, frontier.expected = .operand signable)
    (h : frontier.step token = none) : (frontier.inside outer).step token = none := by
  rw [step_eq_none, after?_inside outer hinner]
  exact step_eq_none.1 h

theorem run_inside (outer : List Token) (h : frontier.run tokens = some next) :
    (frontier.inside outer).run tokens = some (next.inside outer) := by
  induction tokens generalizing frontier with
  | nil =>
      rw [run_nil, Option.some.injEq] at h
      rw [h, run_nil]
  | cons token tokens ih =>
      rw [run, Option.bind_eq_some_iff] at h
      obtain ⟨middle, hstep, hrest⟩ := h
      rw [run_cons_of_step (step_inside outer hstep)]
      exact ih hrest

/-! ## What a frontier says about the tokens before it -/

theorem foldl_nest_of_run (h : frontier.run tokens = some next) :
    next.opened = tokens.foldl Token.nest frontier.opened := by
  induction tokens generalizing frontier with
  | nil =>
      rw [run_nil, Option.some.injEq] at h
      rw [← h, List.foldl_nil]
  | cons token tokens ih =>
      rw [run, Option.bind_eq_some_iff] at h
      obtain ⟨middle, hstep, hrest⟩ := h
      rw [ih hrest, (step_eq_some.1 hstep).2, List.foldl_cons]

/-- The open brackets of a frontier are those that the tokens leave open. -/
theorem opened_eq (h : start.run tokens = some frontier) :
    frontier.opened = openBrackets tokens := foldl_nest_of_run h

theorem isBlank_of_run (h : frontier.run tokens = some next) :
    ∀ token ∈ tokens, token.isBlank = false := by
  induction tokens generalizing frontier with
  | nil => simp
  | cons token tokens ih =>
      rw [run, Option.bind_eq_some_iff] at h
      obtain ⟨middle, hstep, hrest⟩ := h
      intro other hmem
      rcases List.mem_cons.1 hmem with rfl | hmem
      · exact isBlank_of_step hstep
      · exact ih hrest other hmem

/-- An operand is expected exactly in an operand position. -/
theorem operandPosition_iff (h : start.run tokens = some frontier) :
    (∃ signable, frontier.expected = .operand signable) ↔ OperandPosition tokens := by
  rcases List.eq_nil_or_concat tokens with rfl | ⟨front, last, rfl⟩
  · rw [run_nil, Option.some.injEq] at h
    rw [← h]
    exact ⟨fun _ => by simp [OperandPosition], fun _ => ⟨true, rfl⟩⟩
  · -- what is expected depends on the last token alone
    rw [List.concat_eq_append, run_append, Option.bind_eq_some_iff] at h
    obtain ⟨before, -, hlast⟩ := h
    rw [run, Option.bind_eq_some_iff] at hlast
    obtain ⟨after, hstep, hafter⟩ := hlast
    rw [run_nil, Option.some.injEq] at hafter
    rw [← hafter, operand_iff_of_step hstep]
    simp [OperandPosition]

/-- Where an operand is expected, a token that starts none may not follow. -/
theorem step_operand_eq_none {opened : List Token} {signable : Bool}
    (hkind : token.kind ∉ Parser.operandStarts) (hsign : signable = true → token.kind ≠ .sub) :
    (⟨opened, .operand signable⟩ : Frontier).step token = none := by
  rw [step_eq_none]
  cases signable <;> revert hkind hsign <;> cases token.kind <;>
    simp [Expectation.after?, Parser.operandStarts]

theorem not_mem_operandStarts_of_step {opened : List Token} {signable : Bool}
    (h : (⟨opened, .operand signable⟩ : Frontier).step token = none) :
    token.kind ∉ Parser.operandStarts := by
  rw [step_eq_none] at h
  cases signable <;> revert h <;> cases token.kind <;>
    simp [Expectation.after?, Parser.operandStarts]

/-! ## Every frontier can be led to an end -/

/-- An end of an expression: no bracket is open and no operand is missing. -/
def isFinal (frontier : Frontier) : Prop :=
  frontier.opened = [] ∧ ∃ named, frontier.expected = .operator named

/-- The token that closes a bracket. -/
def closer (opening : Token) : Token :=
  if opening.kind = .openParen then ⟨.closeParen, ")", opening.span⟩
  else ⟨.closeSquare, "]", opening.span⟩

theorem step_closer {opening : Token} (outer : List Token) (named : Bool)
    (hkind : opening.kind ∈ bracketKinds) :
    (⟨opening :: outer, .operator named⟩ : Frontier).step (closer opening) =
      some ⟨outer, .operator false⟩ := by
  simp only [bracketKinds, List.mem_cons, List.not_mem_nil, or_false] at hkind
  rcases hkind with hkind | hkind <;> cases named <;>
    simp [step, closer, hkind, Expectation.after?, Token.nest]

/-- After an operand all brackets can be closed, from the innermost out. -/
theorem exists_run_closers {opened : List Token} (named : Bool)
    (hkinds : ∀ bracket ∈ opened, bracket.kind ∈ bracketKinds) :
    ∃ final, (⟨opened, .operator named⟩ : Frontier).run (opened.map closer) = some final ∧
      final.isFinal := by
  induction opened generalizing named with
  | nil => exact ⟨_, rfl, rfl, named, rfl⟩
  | cons opening outer ih =>
      have hstep := step_closer outer named (hkinds opening List.mem_cons_self)
      rw [List.map_cons, run_cons_of_step hstep]
      exact ih false fun bracket hmem => hkinds bracket (List.mem_cons_of_mem _ hmem)

/-- **Every frontier can be led to an end:** by an operand, if one is missing, and by closing the
brackets. -/
theorem exists_completion (h : start.run tokens = some frontier) :
    ∃ more final, start.run (tokens ++ more) = some final ∧ final.isFinal := by
  have hkinds : ∀ bracket ∈ frontier.opened, bracket.kind ∈ bracketKinds := by
    intro bracket hmem
    rw [opened_eq h] at hmem
    exact (mem_of_mem_openBrackets hmem).2
  obtain ⟨opened, expected⟩ := frontier
  cases expected with
  | operand signable =>
      have hname : (⟨opened, .operand signable⟩ : Frontier).step ⟨.name, "x", default⟩ =
          some ⟨opened, .operator true⟩ := by
        cases signable <;> rfl
      obtain ⟨final, hrun, hfinal⟩ := exists_run_closers true hkinds
      refine ⟨⟨.name, "x", default⟩ :: opened.map closer, final, ?_, hfinal⟩
      rw [run_append_of_run h, run_cons_of_step hname]
      exact hrun
  | operator named =>
      obtain ⟨final, hrun, hfinal⟩ := exists_run_closers named hkinds
      refine ⟨opened.map closer, final, ?_, hfinal⟩
      rw [run_append_of_run h]
      exact hrun

end Frontier

end AlgebraText
