import AlgebraText.Proofs.Grammar.ViablePrefix

/-!
# The failures there are

There are few ways in which a text fails to be an expression, and each has its own cause, its own
number of places and its own reason to be fatal. The cause of a failure tells what the tokens before
the failure and the tokens after it look like: whether an operand is missing, which bracket is still
open and which token stands in the way (`ParseFailure.Classified`). That a token is of none of the
kinds a step expects is never the cause in the end; every rule that takes such a step turns its
failure into another.

## What this module delivers

* `ParseFailure.Classified`, what each cause says about the tokens before a failure and after it;
* `PlacedWithin`, spans that lie within a text one after another;
* `parseTree_error_classified`: every failure is classified, it is fatal unless an operand is
  missing outside of all brackets, its spans are in order, and each has its label.
-/

set_option autoImplicit false

namespace AlgebraText

/-! ## Places -/

/-- The place where a text goes on with some tokens: at the first of them, or at the end of the
text. -/
def nextPlace (text : String) (rest : List Token) : Span :=
  (rest.head?.map Token.span).getD (Span.point text.utf8ByteSize)

theorem Cursor.spanAt_ofText (text : String) (rest : List Token) :
    (Cursor.ofText text).spanAt rest = nextPlace text rest := by
  rw [spanAt, endSpan_ofText, nextPlace]

/-- Spans that lie within a text one after another. -/
def PlacedWithin (text : String) (spans : List Span) : Prop :=
  (∀ span ∈ spans, span.start ≤ span.stop ∧ span.stop ≤ text.utf8ByteSize) ∧
    spans.Pairwise fun earlier later => earlier.stop ≤ later.start

namespace PlacedWithin

variable {text : String} {seen rest : List Token}

theorem singleton {span : Span} (hle : span.start ≤ span.stop)
    (hwithin : span.stop ≤ text.utf8ByteSize) : PlacedWithin text [span] := by
  simp [PlacedWithin, hle, hwithin]

theorem pair {first second : Span} (hfirst : PlacedWithin text [first])
    (hsecond : PlacedWithin text [second]) (hordered : first.stop ≤ second.start) :
    PlacedWithin text [first, second] := by
  simp only [PlacedWithin, List.mem_singleton, forall_eq] at hfirst hsecond
  simp [PlacedWithin, hfirst, hsecond, hordered]

theorem token {token : Token} (h : token ∈ significantTokens (tokenize text)) :
    PlacedWithin text [token.span] := by
  obtain ⟨hlt, hwithin⟩ := within_of_mem_significantTokens h
  exact .singleton (Nat.le_of_lt hlt) hwithin

theorem next (hseen : significantTokens (tokenize text) = seen ++ rest) :
    PlacedWithin text [nextPlace text rest] := by
  cases rest with
  | nil => exact .singleton (Nat.le_refl _) (Nat.le_refl _)
  | cons token after => exact .token (by rw [hseen]; simp)

/-- A token that was read ends before the place where the text goes on. -/
theorem stop_le_next (hseen : significantTokens (tokenize text) = seen ++ rest) {token : Token}
    (hmem : token ∈ seen) : token.span.stop ≤ (nextPlace text rest).start := by
  have hordered := pairwise_significantTokens text
  rw [hseen] at hordered
  cases rest with
  | nil => exact (within_of_mem_significantTokens (by rw [hseen]; simp [hmem])).2
  | cons next after =>
      exact (List.pairwise_append.1 hordered).2.2 token hmem next List.mem_cons_self

end PlacedWithin

/-! ## Classes of failures -/

/-- What the cause of a failure says about its rule, about its spans, about the significant tokens
before it and about those after it. -/
def ParseFailure.Classified (failure : ParseFailure) (text : String) (seen rest : List Token) :
    Prop :=
  match failure.cause with
  | .unexpectedEof =>
    failure.rule = .single ∧ OperandPosition seen ∧ rest = [] ∧
      failure.spans = [Span.point text.utf8ByteSize]
  | .expectedExpr found =>
    failure.rule = .single ∧ OperandPosition seen ∧
      found ∉ [TokenKind.openParen, .name, .int, .float, .dot] ∧
      ∃ token after, rest = token :: after ∧ token.kind = found ∧ failure.spans = [token.span]
  | .malformedDecimal =>
    failure.rule = .decimal ∧ ∃ dot after, rest = dot :: after ∧ dot.kind = .dot ∧
      (OperandPosition seen ∧ failure.spans = [dot.span] ∨
        ∃ before number, seen = before ++ [number] ∧ number.kind ∈ [TokenKind.int, .float] ∧
          [number, dot] <:+: tokenize text ∧ failure.spans = [number.span.through dot.span])
  | .unclosedParenthesis =>
    failure.rule = .paren ∧ ∃ opening outer, openBrackets seen = opening :: outer ∧
      opening.kind = .openParen ∧ failure.spans = [opening.span, nextPlace text rest]
  | .unclosedBracket =>
    failure.rule = .function ∧ ∃ opening outer, openBrackets seen = opening :: outer ∧
      opening.kind = .openSquare ∧ failure.spans = [opening.span, nextPlace text rest]
  | .expectedEof =>
    failure.rule = .expression ∧ Derivable .expression seen ∧
      ∃ token after, rest = token :: after ∧ failure.spans = [token.span]
  | .unexpectedToken _ _ => False

namespace Diagnosis

variable {text : String} {seen rest : List Token} {frontier : Frontier} {failure : ParseFailure}

theorem classified (h : Diagnosis (Cursor.ofText text) seen frontier rest failure)
    (hread : Frontier.start.run seen = some frontier) : failure.Classified text seen rest := by
  have hopened := Frontier.opened_eq hread
  have hposition := Frontier.operandPosition_iff hread
  cases h with
  | leftover _ => exact ⟨rfl, derivable_iff_run.2 ⟨_, hread, rfl, _, rfl⟩, _, _, rfl, rfl⟩
  | obstacle h =>
      cases h with
      | missing _ =>
          exact ⟨rfl, hposition.1 ⟨_, rfl⟩, rfl, by rw [Cursor.endSpan_ofText]⟩
      | misplaced _ hdot hstuck =>
          refine ⟨rfl, hposition.1 ⟨_, rfl⟩, ?_, _, _, rfl, rfl, rfl⟩
          have hstart := Frontier.not_mem_operandStarts_of_step hstuck
          simp only [Parser.operandStarts, List.mem_cons, List.not_mem_nil, or_false,
            not_or] at hstart
          simp [hstart, hdot]
      | leadingPoint hdot =>
          exact ⟨rfl, _, _, rfl, hdot, Or.inl ⟨hposition.1 ⟨_, rfl⟩, rfl⟩⟩
      | trailingPoint hnumber hdot hadjacent =>
          exact ⟨rfl, _, _, rfl, hdot, Or.inr ⟨_, _, rfl, hnumber, hadjacent, rfl⟩⟩
      | unclosedParenthesis hopening _ =>
          exact ⟨rfl, _, _, hopened.symm, hopening, by rw [Cursor.spanAt_ofText]⟩
      | unclosedBracket hopening _ =>
          exact ⟨rfl, _, _, hopened.symm, hopening, by rw [Cursor.spanAt_ofText]⟩

/-- Only a missing operand outside of all brackets leaves room for another reading. -/
theorem fatal_eq_false_iff (h : Diagnosis (Cursor.ofText text) seen frontier rest failure)
    (hread : Frontier.start.run seen = some frontier) :
    failure.fatal = false ↔
      (failure.cause = .unexpectedEof ∨ ∃ found, failure.cause = .expectedExpr found) ∧
        openBrackets seen = [] := by
  have hopened := Frontier.opened_eq hread
  have hnegate : ∀ {fatal : Bool} {opened : List Token}, (fatal = true ↔ opened ≠ []) →
      (fatal = false ↔ opened = []) := by
    intro fatal opened hfatal
    rw [← Bool.not_eq_true, hfatal, not_not]
  cases h with
  | leftover _ => simp
  | obstacle h =>
      cases h with
      | missing hfatal => simp [hnegate hfatal, ← hopened]
      | misplaced hfatal _ _ => simp [hnegate hfatal, ← hopened]
      | leadingPoint _ => simp
      | trailingPoint _ _ _ => simp
      | unclosedParenthesis _ _ => simp
      | unclosedBracket _ _ => simp

theorem placedWithin (h : Diagnosis (Cursor.ofText text) seen frontier rest failure)
    (hseen : significantTokens (tokenize text) = seen ++ rest)
    (hread : Frontier.start.run seen = some frontier) : PlacedWithin text failure.spans := by
  have hnext := PlacedWithin.next hseen
  -- an open bracket has been read, so it stands before the place where the text goes on
  have hpair : ∀ opening ∈ frontier.opened,
      PlacedWithin text [opening.span, nextPlace text rest] := by
    intro opening hmem
    rw [Frontier.opened_eq hread] at hmem
    have hmem := (mem_of_mem_openBrackets hmem).1
    refine .pair (.token ?_) hnext (PlacedWithin.stop_le_next hseen hmem)
    rw [hseen]
    exact List.mem_append_left _ hmem
  cases h with
  | leftover _ => exact hnext
  | obstacle h =>
      cases h with
      | missing _ =>
          rw [Cursor.endSpan_ofText]
          exact hnext
      | misplaced _ _ _ => exact hnext
      | leadingPoint _ => exact hnext
      | trailingPoint _ _ hadjacent =>
          have hstart := start_le_of_adjacent hadjacent
          simp only [PlacedWithin, List.mem_singleton, forall_eq] at hnext
          obtain ⟨⟨hle, hwithin⟩, -⟩ := hnext
          exact .singleton (hstart.trans hle) hwithin
      | unclosedParenthesis _ _ =>
          rw [Cursor.spanAt_ofText]
          exact hpair _ List.mem_cons_self
      | unclosedBracket _ _ =>
          rw [Cursor.spanAt_ofText]
          exact hpair _ List.mem_cons_self

/-- A failure has as many spans as its cause has labels. -/
theorem length_spans (h : Diagnosis (Cursor.ofText text) seen frontier rest failure) :
    failure.spans.length = failure.cause.notice.labels.length := by
  cases h with
  | leftover _ => rfl
  | obstacle h => cases h <;> rfl

end Diagnosis

/-- **Every failure is classified.** Its cause tells its rule, its spans, and what the tokens before
it and after it look like; no failure is caused by a token of an unexpected kind. It is fatal unless
an operand is missing while no bracket is open. Its spans lie within the text one after another, and
its report has each of them with one of the labels, and all the labels. -/
theorem parseTree_error_classified {text : String} {failure : ParseFailure}
    (h : parseTree text = .error failure) :
    (∃ seen rest, significantTokens (tokenize text) = seen ++ rest ∧
      failure.Classified text seen rest ∧
      (failure.fatal = false ↔
        (failure.cause = .unexpectedEof ∨ ∃ found, failure.cause = .expectedExpr found) ∧
          openBrackets seen = [])) ∧
    (∀ expected found, failure.cause ≠ .unexpectedToken expected found) ∧
    PlacedWithin text failure.spans ∧
    failure.spans.length = failure.cause.notice.labels.length ∧
    failure.report.labels.map Prod.fst = failure.spans ∧
    failure.report.labels.map Prod.snd = failure.cause.notice.labels := by
  obtain ⟨seen, frontier, rest, hseen, hread, hdiagnosis⟩ := diagnosis_of_parseTree h
  have hclassified := hdiagnosis.classified hread
  have hlength := hdiagnosis.length_spans
  refine ⟨⟨seen, rest, hseen, hclassified, hdiagnosis.fatal_eq_false_iff hread⟩, ?_,
    hdiagnosis.placedWithin hseen hread, hlength, ?_, ?_⟩
  · intro expected found hcause
    simp only [ParseFailure.Classified, hcause] at hclassified
  · exact List.map_fst_zip (Nat.le_of_eq hlength)
  · exact List.map_snd_zip (Nat.le_of_eq hlength.symm)

/-- Inside two brackets the operand after a plus sign is missing: the failure is fatal, and it
points at the square bracket that stands in its place. -/
theorem parseTree_error_classified_nested :
    parseTree "f[(2 + ]" = .error ⟨.single, [⟨7, 8⟩], true, .expectedExpr .closeSquare⟩ ∧
      (∃ seen rest, significantTokens (tokenize "f[(2 + ]") = seen ++ rest ∧
        ParseFailure.Classified ⟨.single, [⟨7, 8⟩], true, .expectedExpr .closeSquare⟩ "f[(2 + ]"
          seen rest ∧
        openBrackets seen ≠ []) ∧
      PlacedWithin "f[(2 + ]" [⟨7, 8⟩] := by
  have hrun : parseTree "f[(2 + ]" =
      .error ⟨.single, [⟨7, 8⟩], true, .expectedExpr .closeSquare⟩ := by cbv
  obtain ⟨⟨seen, rest, hseen, hclassified, hfatal⟩, -, hplaced, -⟩ :=
    parseTree_error_classified hrun
  refine ⟨hrun, ⟨seen, rest, hseen, hclassified, fun hclosed => ?_⟩, hplaced⟩
  cases hfatal.2 ⟨Or.inr ⟨_, rfl⟩, hclosed⟩

end AlgebraText
