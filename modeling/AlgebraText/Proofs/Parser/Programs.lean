import AlgebraText.Parser.Script
import AlgebraText.Proofs.Expr.Totality
import AlgebraText.Proofs.Parser.Diagnosis
import AlgebraText.Proofs.Parser.Endings
import AlgebraText.Proofs.Parser.Noting

/-!
# Programs that drive the parser

A program calls the parser and decides by the answers what to call next. Groups of calls may be
nested to any depth; a group that fails is taken back, and what its calls answered may still be used
afterwards. Scripts are such programs, and so is trying alternatives in order.

Every single call made in a run of a program keeps to the same rules: it changes no token and it
does not end before its start; and if it fails and is one of those that are taken back, then the
rest of the run does not notice it. A run is followed call by call (`Program.calls`), and what a
call keeps to is said of the two cursors between which it was made (`Call.Orderly`).

## What this module delivers

* `View`, `Action` and `Program`, with `Program.perform` and `Program.calls`;
* `Program.bind` and `Program.firstOf`, with `Program.perform_firstOf`: alternatives in order;
* `Step.perform_program` and `Step.perform_programAll`: scripts are programs;
* `Program.perform_samePlace`: programs answer the same from the same place;
* `Parser.wholeExpression_error_cases`, `Call.Orderly` and `Program.calls_orderly`;
* `perform_orderly`: what every run of a program keeps to.
-/

set_option autoImplicit false

namespace AlgebraText

/-! ## Programs -/

/-- A look at the place of the parser, by what it answers. -/
inductive View : Type → Type where
  /-- The next significant token. -/
  | peek : View (Option Token)
  /-- The token directly ahead. -/
  | current : View (Option Token)
  /-- The span of the next significant token, at which failures are made. -/
  | span : View Span
  /-- The span of the end of the text. -/
  | endSpan : View Span

/-- What is seen from a cursor. -/
def View.read {α : Type} (view : View α) (cursor : Cursor) : α :=
  match view with
  | .peek => cursor.peek?
  | .current => cursor.current?
  | .span => cursor.span
  | .endSpan => cursor.endSpan

/-- An action of the parser, which may move it, by what it answers. -/
inductive Action : Type → Type where
  /-- Consume the next significant token. -/
  | next (rule : Rule) : Action Token
  /-- Consume the next significant token if it is of one of the kinds. -/
  | expect (rule : Rule) (kinds : List TokenKind) : Action Token
  /-- Run a rule and stay where it fails. -/
  | run (goal : Nonterminal) : Action ParseTree
  /-- Run a rule and go back if it fails. -/
  | attempt (goal : Nonterminal) : Action ParseTree
  /-- Read an expression followed by nothing but blanks. -/
  | whole : Action ParseTree

/-- What an action does. -/
def Action.parser : {α : Type} → Action α → Parser α
  | _, .next rule => Parser.next rule
  | _, .expect rule kinds => Parser.expect rule kinds
  | _, .run goal => goal.parser
  | _, .attempt goal => Parser.rewinding goal.parser
  | _, .whole => Parser.wholeExpression

/-- A program for the parser, by what it answers in the end. -/
inductive Program : Type → Type 1 where
  /-- Answer. -/
  | stop {α : Type} (answer : α) : Program α
  /-- Look, and go on according to what is seen. -/
  | look {α β : Type} (view : View β) (next : β → Program α) : Program α
  /-- Take an action, and go on according to its result. -/
  | call {α β : Type} (action : Action β) (next : Except ParseFailure β → Program α) :
      Program α
  /-- Run a program and take it back if its result is a failure. The result comes with what the
  program has noted besides, which is kept in any case. -/
  | group {α σ β : Type} (body : Program (σ × Except ParseFailure β))
      (next : σ × Except ParseFailure β → Program α) : Program α

/-- The failure of a result. -/
def failureOf {α : Type} : Except ParseFailure α → Option ParseFailure
  | .ok _ => none
  | .error failure => some failure

/-- The cursor at the end of a group: a group that failed is taken back. -/
def Cursor.settle {α : Type} (later cursor : Cursor) : Except ParseFailure α → Cursor
  | .ok _ => later
  | .error _ => later.rewoundTo cursor

namespace Program

/-- What a program answers from a cursor, and the cursor at its end. -/
def perform {α : Type} : Program α → Cursor → α × Cursor
  | .stop answer, cursor => (answer, cursor)
  | .look view next, cursor => (next (view.read cursor)).perform cursor
  | .call action next, cursor =>
    let (result, later) := Parser.outcome (action.parser cursor)
    (next result).perform later
  | .group body next, cursor =>
    let (answer, later) := body.perform cursor
    (next answer).perform (later.settle cursor answer.2)

end Program

/-! ## Calls -/

/-- What can be called in a program. -/
inductive Callee where
  | look
  | next
  | expect
  | run
  | attempt
  | whole
  | group
deriving DecidableEq, Repr

/-- The calls that stay where they started if they fail. -/
def Callee.undoesFailure : Callee → Bool
  | next | expect | attempt | group => true
  | look | run | whole => false

/-- The name of an action. -/
def Action.callee {α : Type} : Action α → Callee
  | .next _ => .next
  | .expect _ _ => .expect
  | .run _ => .run
  | .attempt _ => .attempt
  | .whole => .whole

/-- A call that was made in a run. -/
structure Call where
  /-- What was called. -/
  callee : Callee
  /-- The cursor at which it was called. -/
  start : Cursor
  /-- The cursor at which it returned. -/
  stop : Cursor
  /-- The failure it returned. -/
  failure : Option ParseFailure
deriving DecidableEq, Repr

/-- All calls made in a run of a program, those of its groups included, in the order in which they
return. -/
def Program.calls {α : Type} : Program α → Cursor → List Call
  | .stop _, _ => []
  | .look view next, cursor =>
    ⟨.look, cursor, cursor, none⟩ :: (next (view.read cursor)).calls cursor
  | .call action next, cursor =>
    let (result, later) := Parser.outcome (action.parser cursor)
    ⟨action.callee, cursor, later, failureOf result⟩ :: (next result).calls later
  | .group body next, cursor =>
    let (answer, later) := body.perform cursor
    let settled := later.settle cursor answer.2
    body.calls cursor ++
      ⟨.group, cursor, settled, failureOf answer.2⟩ :: (next answer).calls settled

/-! ## Programs in sequence -/

namespace Program

variable {α β : Type}

/-- One program after another. -/
def bind : Program α → (α → Program β) → Program β
  | .stop answer, after => after answer
  | .look view next, after => .look view fun seen => (next seen).bind after
  | .call action next, after => .call action fun result => (next result).bind after
  | .group body next, after => .group body fun answer => (next answer).bind after

theorem perform_bind (program : Program α) (after : α → Program β) (cursor : Cursor) :
    (program.bind after).perform cursor =
      (after (program.perform cursor).1).perform (program.perform cursor).2 := by
  induction program generalizing cursor with
  | stop answer => rfl
  | look view next ih => exact ih _ after cursor
  | call action next ih => exact ih _ after _
  | group body next _ ih => exact ih _ after _

/-- A program that answers a result, as a parser. -/
def parser (program : Program (Except ParseFailure α)) : Parser α := fun cursor =>
  match program.perform cursor with
  | (.ok value, later) => .ok value later
  | (.error failure, later) => .error failure later

theorem outcome_eq_perform (program : Program (Except ParseFailure α)) (cursor : Cursor) :
    Parser.outcome (program.parser cursor) = program.perform cursor := by
  unfold parser
  split <;> rename_i hrun <;> rw [hrun] <;> rfl

/-- Alternatives in order, until one succeeds or fails fatally; if all fail otherwise, the last
resort. -/
def firstOf : List (Program (Except ParseFailure α)) → Program (Except ParseFailure α) →
    Program (Except ParseFailure α)
  | [], lastResort => lastResort
  | alternative :: alternatives, lastResort =>
    alternative.bind fun result =>
      match result with
      | .ok value => .stop (.ok value)
      | .error failure =>
        if failure.fatal then .stop (.error failure) else firstOf alternatives lastResort

/-- **Programs are tried in order as parsers are.** -/
theorem perform_firstOf (alternatives : List (Program (Except ParseFailure α)))
    (lastResort : Program (Except ParseFailure α)) (cursor : Cursor) :
    (firstOf alternatives lastResort).perform cursor =
      Parser.outcome
        (Parser.firstOf (alternatives.map parser) lastResort.parser cursor) := by
  induction alternatives generalizing cursor with
  | nil => exact (outcome_eq_perform lastResort cursor).symm
  | cons alternative alternatives ih =>
      have hfirst := alternative.outcome_eq_perform cursor
      rw [firstOf, perform_bind, ← hfirst]
      simp only [List.map_cons, Parser.firstOf]
      cases alternative.parser cursor with
      | ok value later => rfl
      | error failure later =>
          by_cases hfatal : failure.fatal = true
          · simp [Parser.outcome, perform, hfatal]
          · simpa [Parser.outcome, hfatal] using ih later

end Program

/-! ## Scripts -/

/-- The reply to a result. -/
def Reply.ofResult {α : Type} (wrap : α → Reply) : Except ParseFailure α → Reply
  | .ok value => wrap value
  | .error reason => .failure reason

namespace Step

theorem reply_eq {α : Type} (wrap : α → Reply) (result : EStateM.Result ParseFailure Cursor α) :
    reply wrap result =
      (Reply.ofResult wrap (Parser.outcome result).1, (Parser.outcome result).2) := by
  cases result <;> rfl

/-- The failure that is raised by hand at a span. -/
def raisedAt (how : Raise) (rule : Rule) (cause : ParseCause) (span : Span) : ParseFailure :=
  match how with
  | .soft => ⟨rule, [span], false, cause⟩
  | .fatal => ⟨rule, [span], true, cause⟩
  | .softThenFatal => (⟨rule, [span], false, cause⟩ : ParseFailure).intoFatal

/-- An action that is all there is of a step. -/
def acting {α : Type} (wrap : α → Reply) (action : Action α) : Program Reply :=
  .call action fun result => .stop (Reply.ofResult wrap result)

/-- Rules attempted in turn. -/
def attempts (goals : List Nonterminal) : Program (Except ParseFailure ParseTree) :=
  .firstOf (goals.map fun goal => .call (.attempt goal) .stop)
    (.look .span fun span => .stop (.error ⟨.expression, [span], false, .unexpectedEof⟩))

mutual

/-- A step as a program. -/
def program : Step → Program Reply
  | .attempt goal => acting .tree (.attempt goal)
  | .run goal => acting .tree (.run goal)
  | .whole => acting .tree .whole
  | .firstOf goals => (attempts goals).bind fun result => .stop (Reply.ofResult .tree result)
  | .peek => .look .peek fun token => .stop (.look token)
  | .current => .look .current fun token => .stop (.look token)
  | .span => .look .span fun span => .stop (.span span)
  | .endSpan => .look .endSpan fun span => .stop (.span span)
  | .next rule => acting (fun token => .look (some token)) (.next rule)
  | .expect rule kinds => acting .token (.expect rule kinds)
  | .raise how rule cause =>
    .look .span fun span => .stop (.failure (raisedAt how rule cause span))
  | .group steps fails =>
    .group
      ((programAll steps).bind fun replies =>
        if fails then
          .look .span fun span => .stop (replies, .error ⟨.expression, [span], false, .expectedEof⟩)
        else .stop (replies, .ok ()))
      fun answer => .stop (.group answer.1 (failureOf answer.2))

/-- A script as a program. -/
def programAll : List Step → Program (List (Reply × Option Nat))
  | [] => .stop []
  | step :: steps =>
    step.program.bind fun answer => .look .current fun token =>
      (programAll steps).bind fun answers =>
        .stop ((answer, token.map fun token => token.span.start) :: answers)

end

theorem perform_acting {α : Type} (wrap : α → Reply) (action : Action α) (cursor : Cursor) :
    (acting wrap action).perform cursor = reply wrap (action.parser cursor) :=
  (reply_eq wrap _).symm

theorem perform_attempts (goals : List Nonterminal) (cursor : Cursor) :
    (attempts goals).perform cursor = Parser.outcome (alternatives goals cursor) := by
  have hparser : (fun goal : Nonterminal =>
      (Program.call (.attempt goal) .stop : Program (Except ParseFailure ParseTree)).parser) =
      fun goal => Parser.rewinding goal.parser := by
    funext goal cursor
    simp only [Program.parser, Program.perform, Action.parser]
    cases Parser.rewinding goal.parser cursor <;> rfl
  rw [attempts, Program.perform_firstOf, List.map_map, alternatives]
  simp only [Function.comp_def, hparser]
  rfl

mutual

/-- **A step is performed as its program is.** -/
theorem perform_program (cursor : Cursor) (step : Step) :
    step.program.perform cursor = step.perform cursor := by
  match step with
  | .attempt goal | .run goal | .whole | .next rule | .expect rule kinds =>
      rw [program, perform, perform_acting]
      rfl
  | .firstOf goals =>
      rw [program, perform, Program.perform_bind, perform_attempts, reply_eq]
      rfl
  | .peek | .current | .span | .endSpan =>
      rw [program, perform]
      rfl
  | .raise how rule cause =>
      rw [program, perform]
      cases how <;> rfl
  | .group steps fails =>
      have hsteps := perform_programAll cursor steps
      rw [program, perform, Program.perform, Program.perform_bind, hsteps]
      cases fails <;> rfl

/-- **A script is run as its program is performed.** -/
theorem perform_programAll (cursor : Cursor) (steps : List Step) :
    (programAll steps).perform cursor = runAll cursor steps := by
  match steps with
  | [] =>
      rw [programAll, runAll]
      rfl
  | step :: steps =>
      have hstep := perform_program cursor step
      have hsteps := perform_programAll (step.perform cursor).2 steps
      rw [programAll, runAll, Program.perform_bind, hstep, Program.perform, Program.perform_bind,
        hsteps]
      rfl

end

end Step

/-! ## What a program keeps -/

theorem Action.advances {α : Type} (action : Action α) : action.parser.Advances := by
  cases action with
  | next rule => exact Parser.advances_next rule
  | expect rule kinds => exact Parser.advances_expect rule kinds
  | run goal => exact goal.advances_parser
  | attempt goal => exact Parser.advances_rewinding goal.advances_parser
  | whole => exact Parser.advances_wholeExpression

theorem Action.appends {α : Type} (action : Action α) : action.parser.Appends := by
  cases action with
  | next rule => exact Parser.appends_next rule
  | expect rule kinds => exact Parser.appends_expect rule kinds
  | run goal => exact Parser.compositional_appends.parser goal
  | attempt goal =>
      exact Parser.appends_rewinding (Parser.compositional_appends.parser goal)
  | whole => exact Parser.appends_wholeExpression

namespace Parser

variable {α : Type}

theorem Advances.outcome {parser : Parser α} (h : Advances parser) (cursor : Cursor) :
    cursor.Reaches (outcome (parser cursor)).2 := by
  have hreach := h cursor
  cases hrun : parser cursor with
  | ok value later => exact h.of_ok hrun
  | error failure later =>
      rw [hrun] at hreach
      exact hreach

end Parser

theorem Cursor.Reaches.settle {α : Type} {cursor later : Cursor} (h : cursor.Reaches later)
    (result : Except ParseFailure α) : cursor.Reaches (later.settle cursor result) := by
  cases result with
  | ok value => exact h
  | error failure => exact .rewoundTo later cursor

namespace Cursor.SamePlace

variable {α : Type} {cursor other : Cursor}

/-- The same is seen from the same place. -/
theorem read (h : cursor.SamePlace other) (view : View α) : view.read cursor = view.read other := by
  obtain ⟨bare, hcursor, hother⟩ := h.exists_above
  rw [hcursor, hother]
  cases view <;> rfl

/-- Groups that end alike are settled alike. -/
theorem settle {later last : Cursor} (hend : later.SamePlace last) (h : cursor.SamePlace other)
    (result : Except ParseFailure α) :
    (later.settle cursor result).SamePlace (last.settle other result) := by
  cases result with
  | ok value => exact hend
  | error failure => exact ⟨h.behind, h.ahead⟩

end Cursor.SamePlace

namespace Program

variable {α : Type}

/-- Wherever a program ends, it got there by passing tokens. -/
theorem perform_reaches (program : Program α) (cursor : Cursor) :
    cursor.Reaches (program.perform cursor).2 := by
  induction program generalizing cursor with
  | stop answer => exact .refl cursor
  | look view next ih => exact ih _ cursor
  | call action next ih => exact (action.advances.outcome cursor).trans (ih _ _)
  | group body next ihBody ih => exact ((ihBody cursor).settle _).trans (ih _ _)

/-- **From the same place a program gives the same answer and ends at the same place.** What was
noted on the way there plays no part. -/
theorem perform_samePlace (program : Program α) {cursor other : Cursor}
    (h : cursor.SamePlace other) :
    (program.perform cursor).1 = (program.perform other).1 ∧
      (program.perform cursor).2.SamePlace (program.perform other).2 := by
  induction program generalizing cursor other with
  | stop answer => exact ⟨rfl, h⟩
  | look view next ih =>
      have hseen : view.read cursor = view.read other := h.read view
      simp only [perform, hseen]
      exact ih _ h
  | call action next ih =>
      obtain ⟨hresult, hplace⟩ := action.appends.samePlace h
      simp only [perform, hresult]
      exact ih _ hplace
  | group body next ihBody ih =>
      obtain ⟨hanswer, hplace⟩ := ihBody h
      simp only [perform, hanswer]
      exact ih _ (hplace.settle h _)

end Program

/-! ## What every call keeps -/

/-- A call after which everything is as if it had not been made. -/
def Call.Undone (call : Call) : Prop :=
  call.stop.SamePlace call.start ∧
    ∀ (α : Type) (rest : Program α),
      (rest.perform call.stop).1 = (rest.perform call.start).1 ∧
        (rest.perform call.stop).2.SamePlace (rest.perform call.start).2

theorem Call.undone_of_samePlace {call : Call} (h : call.stop.SamePlace call.start) :
    call.Undone := ⟨h, fun _ rest => rest.perform_samePlace h⟩

/-- What a call keeps to that is made while a program reads some tokens. The program was started
behind the given number of them. -/
structure Call.Orderly (tokens : List Token) (origin : Nat) (call : Call) : Prop where
  /-- The call finds the tokens as they were. -/
  start_buffer : call.start.buffer = tokens
  /-- It leaves them so. -/
  stop_buffer : call.stop.buffer = tokens
  /-- The program has not gone back behind its start. -/
  origin_le : origin ≤ call.start.position
  /-- Nor does the call go back behind its own. -/
  start_le : call.start.position ≤ call.stop.position
  /-- The call does not pass more tokens than there are. -/
  stop_le : call.stop.position ≤ tokens.length
  /-- A call that is to stay if it fails does so, and what follows does not notice it. -/
  undone : call.callee.undoesFailure = true → call.failure ≠ none → call.Undone
  /-- An expression that is to be the rest of the text stays if it fails, unless something follows
  it; then it ends directly behind the expression. -/
  whole : call.callee = .whole → ∀ failure ∈ call.failure,
    (failure.cause ≠ .expectedEof → call.Undone) ∧
      (failure.cause = .expectedEof → ∃ tree,
        Parser.expression call.start = .ok tree call.stop ∧
          tree.leaves.getLast? = call.stop.behind.head?)

theorem Cursor.Reaches.position_le {cursor later : Cursor} (h : cursor.Reaches later) :
    cursor.position ≤ later.position := by
  obtain ⟨passed, -, hbehind⟩ := h
  rw [position, position, hbehind, List.length_append]
  omega

theorem Cursor.position_le_length (cursor : Cursor) : cursor.position ≤ cursor.buffer.length := by
  rw [position, buffer, List.length_append, List.length_reverse]
  omega

namespace Parser

/-- An expression that fails does not fail because of what follows it. -/
theorem cause_of_expression_error {cursor later : Cursor} {failure : ParseFailure}
    (h : expression cursor = .error failure later) : failure.cause ≠ .expectedEof := by
  have hexplained := explained_expression cursor
  rw [h] at hexplained
  obtain ⟨seen, frontier, rest, -, -, hobstacle⟩ := hexplained
  cases hobstacle <;> simp

/-- **A whole expression that fails goes back, unless something follows it.** In that case the
expression itself was read, and the cursor stays at its end. -/
theorem wholeExpression_error_cases {cursor later : Cursor} {failure : ParseFailure}
    (h : wholeExpression cursor = .error failure later) :
    (failure.cause ≠ .expectedEof ∧ later.SamePlace cursor) ∨
      (failure.cause = .expectedEof ∧ ∃ tree, expression cursor = .ok tree later) := by
  unfold wholeExpression at h
  cases hrun : expression cursor with
  | error failure' last =>
      rw [bind_of_error (rewinding_of_error hrun)] at h
      cases h
      exact Or.inl ⟨cause_of_expression_error hrun, .rewoundTo last cursor⟩
  | ok tree last =>
      rw [bind_of_ok (rewinding_eq_ok.2 hrun)] at h
      cases hpeek : last.peek? with
      | none =>
          have hdone : nothingLeft last = .ok () last := by simp only [nothingLeft, hpeek]
          rw [bind_of_ok hdone] at h
          cases h
      | some token =>
          have hleft : nothingLeft last =
              .error (last.fatalFailure .expression .expectedEof) last := by
            simp only [nothingLeft, hpeek]
          rw [bind_of_error hleft] at h
          cases h
          exact Or.inr ⟨rfl, tree, rfl⟩

end Parser

/-- An action that is to stay if it fails does so. -/
theorem Action.samePlace_of_error {α : Type} {action : Action α} {cursor later : Cursor}
    {failure : ParseFailure} (hundoes : action.callee.undoesFailure = true)
    (h : action.parser cursor = .error failure later) : later.SamePlace cursor := by
  cases action with
  | next rule =>
      rw [parser, Parser.next] at h
      split at h
      · cases h
      · cases h
        exact .refl cursor
  | expect rule kinds =>
      rw [parser, Parser.expect] at h
      split at h
      · split at h
        · cases h
        · cases h
          exact .refl cursor
      · cases h
        exact .refl cursor
  | run goal => cases hundoes
  | attempt goal =>
      cases hrun : goal.parser cursor with
      | ok tree last =>
          rw [parser, Parser.rewinding_eq_ok.2 hrun] at h
          cases h
      | error failure' last =>
          rw [parser, Parser.rewinding_of_error hrun] at h
          cases h
          exact .rewoundTo last cursor
  | whole => cases hundoes

namespace Call.Orderly

variable {cursor later : Cursor}

/-- A call that passes tokens is orderly if it keeps its promise about failures. -/
theorem of_reaches {callee : Callee} {failure : Option ParseFailure} (h : cursor.Reaches later)
    (hundone : callee.undoesFailure = true → failure ≠ none → later.SamePlace cursor)
    (hwhole : callee = .whole → ∀ reason ∈ failure,
      (reason.cause ≠ .expectedEof ∧ later.SamePlace cursor) ∨
        (reason.cause = .expectedEof ∧ ∃ tree, Parser.expression cursor = .ok tree later)) :
    Call.Orderly cursor.buffer cursor.position ⟨callee, cursor, later, failure⟩ where
  start_buffer := rfl
  stop_buffer := h.buffer_eq
  origin_le := Nat.le_refl _
  start_le := h.position_le
  stop_le := h.buffer_eq ▸ later.position_le_length
  undone hundoes hfailed := Call.undone_of_samePlace (hundone hundoes hfailed)
  whole hcallee reason hmem := by
    rcases hwhole hcallee reason hmem with ⟨hcause, hplace⟩ | ⟨hcause, tree, hrun⟩
    · exact ⟨fun _ => Call.undone_of_samePlace hplace, fun heof => absurd heof hcause⟩
    · obtain ⟨-, -, -, -, hlast⟩ := Parser.leaves_of_sound Parser.sound_expression
        Parser.advances_expression Parser.endsBehindToken_expression hrun
      exact ⟨fun hother => absurd hcause hother, fun _ => ⟨tree, hrun, hlast⟩⟩

/-- A call of the rest of a run is one of the run. -/
theorem of_rest {call : Call} (h : cursor.Reaches later)
    (hcall : call.Orderly later.buffer later.position) :
    call.Orderly cursor.buffer cursor.position :=
  { h.buffer_eq ▸ hcall with origin_le := Nat.le_trans h.position_le hcall.origin_le }

end Call.Orderly

/-- An action is an orderly call. -/
theorem Action.orderly {α : Type} (action : Action α) (cursor : Cursor) :
    Call.Orderly cursor.buffer cursor.position
      ⟨action.callee, cursor, (Parser.outcome (action.parser cursor)).2,
        failureOf (Parser.outcome (action.parser cursor)).1⟩ := by
  refine .of_reaches (action.advances.outcome cursor) ?_ ?_
  · intro hundoes hfailed
    cases hrun : action.parser cursor with
    | ok value later =>
        rw [hrun] at hfailed
        exact absurd rfl hfailed
    | error failure later => exact samePlace_of_error hundoes hrun
  · intro hcallee reason hmem
    cases action with
    | whole =>
        cases hrun : Parser.wholeExpression cursor with
        | ok tree later => simp [parser, hrun, Parser.outcome, failureOf] at hmem
        | error failure later =>
            obtain rfl : failure = reason := by
              simpa [parser, hrun, Parser.outcome, failureOf] using hmem
            simpa [parser, hrun, Parser.outcome] using Parser.wholeExpression_error_cases hrun
    | next | expect | run | attempt => cases hcallee

/-- A group is an orderly call. -/
theorem Call.Orderly.group {β : Type} {cursor later : Cursor} (h : cursor.Reaches later)
    (result : Except ParseFailure β) :
    Call.Orderly cursor.buffer cursor.position
      ⟨.group, cursor, later.settle cursor result, failureOf result⟩ := by
  refine .of_reaches (h.settle result) ?_ fun hcallee => by cases hcallee
  intro _ hfailed
  cases result with
  | ok value => exact absurd rfl hfailed
  | error failure => exact .rewoundTo later cursor

/-- **Every call of a run is orderly.** The induction is on the program; a call made inside a group
is one of the body's run, which starts where the group does. -/
theorem Program.calls_orderly {α : Type} (program : Program α) (cursor : Cursor) :
    ∀ call ∈ program.calls cursor, call.Orderly cursor.buffer cursor.position := by
  induction program generalizing cursor with
  | stop answer => simp [calls]
  | look view next ih =>
      intro call hmem
      rcases List.mem_cons.1 hmem with rfl | hmem
      · exact .of_reaches (.refl cursor) (fun hundoes => by cases hundoes)
          fun hcallee => by cases hcallee
      · exact ih _ cursor call hmem
  | call action next ih =>
      intro call hmem
      rcases List.mem_cons.1 hmem with rfl | hmem
      · exact action.orderly cursor
      · exact .of_rest (action.advances.outcome cursor) (ih _ _ call hmem)
  | group body next ihBody ih =>
      intro call hmem
      have hreach := body.perform_reaches cursor
      rcases List.mem_append.1 hmem with hmem | hmem
      · exact ihBody cursor call hmem
      · rcases List.mem_cons.1 hmem with rfl | hmem
        · exact .group hreach _
        · exact .of_rest (hreach.settle _) (ih _ _ call hmem)

/-- **The state of the parser in any run.** Whatever a program does with a parser that stands
somewhere in a text, the tokens stay those of the text and the parser stands behind at most all of
them, at the end and at every call, however deeply nested. No call goes back behind the place where
it was made. Taking a token, expecting one, attempting a rule and running a group leave the parser
where it was if they fail, and every program that is run then does as it would have done before. So
does reading a whole expression, unless something follows the expression: then the parser stands
directly behind it. -/
theorem perform_orderly (text : String) (cursor : Cursor) (h : cursor.buffer = tokenize text)
    (α : Type) (program : Program α) :
    (program.perform cursor).2.buffer = tokenize text ∧
      cursor.position ≤ (program.perform cursor).2.position ∧
      (program.perform cursor).2.position ≤ (tokenize text).length ∧
      ∀ call ∈ program.calls cursor, call.Orderly (tokenize text) cursor.position := by
  have hreach := program.perform_reaches cursor
  have hbuffer := hreach.buffer_eq.trans h
  refine ⟨hbuffer, hreach.position_le, ?_, fun call hmem => ?_⟩
  · exact hbuffer ▸ (program.perform cursor).2.position_le_length
  · exact h ▸ program.calls_orderly cursor call hmem

/-- Two groups in `f[x] + -`, one inside the other, both taken back: the operand that is run behind
the sum sign passes a minus sign before it fails. -/
theorem perform_orderly_nested :
    ∃ program : Program (Except ParseFailure ParseTree),
      ((program.calls (Cursor.ofText "f[x] + -")).map fun call =>
          (call.callee, call.start.position, call.stop.position, call.failure.isSome)) =
        [(.attempt, 0, 4, false), (.next, 4, 6, false), (.run, 6, 8, true), (.group, 4, 4, true),
          (.group, 0, 0, true)] ∧
      (Cursor.ofText "f[x] + -").buffer = tokenize "f[x] + -" ∧
      (program.perform (Cursor.ofText "f[x] + -")).2.buffer = tokenize "f[x] + -" ∧
      ∀ call ∈ program.calls (Cursor.ofText "f[x] + -"),
        call.Orderly (tokenize "f[x] + -") (Cursor.ofText "f[x] + -").position := by
  refine ⟨.group (.call (.attempt .function) fun _ =>
    .group (.call (.next .single) fun _ => .call (.run .single) fun result => .stop ((), result))
      fun answer => .stop answer) fun answer => .stop answer.2, ?_, rfl, ?_⟩
  · simp only [Program.calls, Program.perform, Action.parser, Action.callee]
    cbv
  · obtain ⟨hbuffer, -, -, hcalls⟩ := perform_orderly "f[x] + -" (Cursor.ofText "f[x] + -") rfl _ _
    exact ⟨hbuffer, hcalls⟩

end AlgebraText
