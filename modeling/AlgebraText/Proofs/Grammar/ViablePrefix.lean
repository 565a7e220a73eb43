import AlgebraText.Proofs.Parser.Diagnosis
import AlgebraText.Proofs.Token.Spans

/-!
# A failure points at the first impossible token

The tokens up to some place may be the start of a sentence, which is to say that further tokens make
them one. Where the parser fails it points at the first token with which this ends: the tokens
before it start a sentence, and with it they do not. If they start sentences all the way, the
failure points at the end of the text, and the text is no sentence yet.

The machine of frontiers decides all of this. It comes to an end exactly on the sentences, since the
parser reads them and is followed by the machine, and since every failure of the parser has an
obstacle that stops the machine. As every frontier can be led to an end, the machine runs exactly on
the starts of sentences.

## What this module delivers

* `derivable_iff_run` and `viablePrefix_iff_run`: the machine decides sentences and their starts;
* `ParseFailure.PointsAt`, the token at which a failure points last;
* `parseTree_error_pointsAt`: this is the first impossible token.
-/

set_option autoImplicit false

namespace AlgebraText

/-! ## Sentences and their starts -/

theorem Cursor.pending_ofTokens {tokens : List Token}
    (h : ∀ token ∈ tokens, token.isBlank = false) : (Cursor.ofTokens tokens).pending = tokens :=
  significantTokens_eq_self h

/-- **The machine comes to an end exactly on the sentences.** -/
theorem derivable_iff_run {tokens : List Token} :
    Derivable .expression tokens ↔
      ∃ final, Frontier.start.run tokens = some final ∧ final.isFinal := by
  constructor
  · rintro ⟨full, hfull, rfl⟩
    have hpending := Cursor.pending_ofTokens hfull.isBlank_of_mem_leaves
    -- the parser reads the whole sentence, and the machine follows it
    obtain ⟨later, hrun, hlater⟩ := hfull.reads (Cursor.ofTokens full.leaves) []
      (by rw [hpending, List.append_nil]) (.nil _)
    have hexplained := Parser.explained_expression (Cursor.ofTokens full.leaves)
    rw [show Parser.expression _ = _ from hrun] at hexplained
    obtain ⟨named, ⟨-, seen, hseen, hread⟩, -⟩ := hexplained
    rw [hpending, hlater, List.append_nil] at hseen
    exact ⟨_, hseen ▸ hread, rfl, named, rfl⟩
  · rintro ⟨final, hread, hfinal⟩
    have hpending := Cursor.pending_ofTokens (Frontier.isBlank_of_run hread)
    cases hrun : Parser.wholeExpression (Cursor.ofTokens tokens) with
    | ok tree later =>
        obtain ⟨hrun, hlater⟩ := Parser.wholeExpression_eq_ok.1 hrun
        obtain ⟨full, hfull, -, hleaves⟩ := Parser.sound_expression _ tree later hrun
        rw [hpending, hlater, List.append_nil] at hleaves
        exact ⟨full, hfull, hleaves.symm⟩
    | error failure later =>
        -- a failure would have stopped the machine before an end
        obtain ⟨seen, frontier, rest, hseen, hread', hdiagnosis⟩ :=
          Parser.diagnosis_of_wholeExpression hrun
        rw [hpending] at hseen
        exact absurd hfinal (hdiagnosis.not_isFinal_of_run hread' (hseen ▸ hread))

/-- Tokens that further tokens make a sentence. -/
def ViablePrefix (tokens : List Token) : Prop := ∃ more, Derivable .expression (tokens ++ more)

/-- **The machine runs exactly on the starts of sentences.** -/
theorem viablePrefix_iff_run {tokens : List Token} :
    ViablePrefix tokens ↔ ∃ frontier, Frontier.start.run tokens = some frontier := by
  constructor
  · rintro ⟨more, hsentence⟩
    obtain ⟨final, hread, -⟩ := derivable_iff_run.1 hsentence
    rw [Frontier.run_append, Option.bind_eq_some_iff] at hread
    obtain ⟨frontier, hread, -⟩ := hread
    exact ⟨frontier, hread⟩
  · rintro ⟨frontier, hread⟩
    obtain ⟨more, final, hread, hfinal⟩ := Frontier.exists_completion hread
    exact ⟨more, derivable_iff_run.2 ⟨final, hread, hfinal⟩⟩

/-! ## Where a failure points -/

/-- The index of the significant token at which a failure points last: the token that ends where the
last span of the failure does, or the end of the text if this span is the empty one there. -/
def ParseFailure.PointsAt (failure : ParseFailure) (text : String) (index : Nat) : Prop :=
  ∃ last, failure.spans.getLast? = some last ∧
    if last = Span.point text.utf8ByteSize then
      index = (significantTokens (tokenize text)).length
    else
      ∃ token, (significantTokens (tokenize text))[index]? = some token ∧
        token.span.stop = last.stop

/-- Two significant tokens of a text do not end at the same place. -/
theorem index_eq_of_stop_eq {text : String} {i j : Nat} {first second : Token}
    (hi : (significantTokens (tokenize text))[i]? = some first)
    (hj : (significantTokens (tokenize text))[j]? = some second)
    (hstop : first.span.stop = second.span.stop) : i = j := by
  have hordered := List.pairwise_iff_getElem.1 (pairwise_significantTokens text)
  obtain ⟨hi', rfl⟩ := List.getElem?_eq_some_iff.1 hi
  obtain ⟨hj', rfl⟩ := List.getElem?_eq_some_iff.1 hj
  -- the later token is not empty, so it would end past the earlier one
  have hfirst := (within_of_mem_significantTokens (List.getElem_mem hi')).1
  have hsecond := (within_of_mem_significantTokens (List.getElem_mem hj')).1
  rcases Nat.lt_trichotomy i j with hlt | heq | hlt
  · have hbefore := hordered i j hi' hj' hlt
    omega
  · exact heq
  · have hbefore := hordered j i hj' hi' hlt
    omega

/-- A token that stands before another in a text starts before it. -/
theorem start_le_of_adjacent {text : String} {first second : Token}
    (h : [first, second] <:+: tokenize text) : first.span.start ≤ second.span.start := by
  have hfirst := (tiles_tokenize text).within (h.subset List.mem_cons_self)
  have hpair := (tiles_tokenize text).pairwise.sublist h.sublist
  have hbefore := List.rel_of_pairwise_cons hpair List.mem_cons_self
  omega

theorem Cursor.endSpan_ofText (text : String) :
    (Cursor.ofText text).endSpan = Span.point text.utf8ByteSize := by
  rw [endSpan, endOffset_ofText]

namespace Diagnosis

variable {text : String} {seen rest : List Token} {frontier : Frontier} {failure : ParseFailure}

/-- A failure points last at the token that stops the machine. The span may start before it, as that
of a number with the point behind it does. -/
theorem last_span (h : Diagnosis (Cursor.ofText text) seen frontier rest failure) :
    ∃ last, failure.spans.getLast? = some last ∧
      last.start ≤ ((Cursor.ofText text).spanAt rest).start ∧
      last.stop = ((Cursor.ofText text).spanAt rest).stop := by
  cases h with
  | leftover _ => exact ⟨_, rfl, Nat.le_refl _, rfl⟩
  | obstacle h =>
      cases h with
      | missing _ => exact ⟨_, rfl, Nat.le_refl _, rfl⟩
      | misplaced _ _ _ => exact ⟨_, rfl, Nat.le_refl _, rfl⟩
      | leadingPoint _ => exact ⟨_, rfl, Nat.le_refl _, rfl⟩
      | trailingPoint _ _ hadjacent => exact ⟨_, rfl, start_le_of_adjacent hadjacent, rfl⟩
      | unclosedParenthesis _ _ => exact ⟨_, rfl, Nat.le_refl _, rfl⟩
      | unclosedBracket _ _ => exact ⟨_, rfl, Nat.le_refl _, rfl⟩

/-- Where the machine is stopped by the end of the text, the last span is the empty one there. -/
theorem last_span_of_end (h : Diagnosis (Cursor.ofText text) seen frontier [] failure) :
    failure.spans.getLast? = some (Span.point text.utf8ByteSize) := by
  rw [← Cursor.endSpan_ofText]
  cases h with
  | obstacle h => cases h <;> rfl

/-- **A failure points at the token after those that were read.** -/
theorem pointsAt_iff (h : Diagnosis (Cursor.ofText text) seen frontier rest failure)
    (hseen : significantTokens (tokenize text) = seen ++ rest) (index : Nat) :
    failure.PointsAt text index ↔ index = seen.length := by
  cases rest with
  | nil =>
      have hlast := h.last_span_of_end
      rw [List.append_nil] at hseen
      constructor
      · rintro ⟨last, hlast', hindex⟩
        obtain rfl := Option.some.inj (hlast.symm.trans hlast')
        rw [if_pos rfl, hseen] at hindex
        exact hindex
      · rintro rfl
        exact ⟨_, hlast, by rw [if_pos rfl, hseen]⟩
  | cons token after =>
      obtain ⟨last, hlast, hstart, hstop⟩ := h.last_span
      have hstart : last.start ≤ token.span.start := hstart
      have hstop : last.stop = token.span.stop := hstop
      have hmem : token ∈ significantTokens (tokenize text) := by rw [hseen]; simp
      have htoken : (significantTokens (tokenize text))[seen.length]? = some token := by
        rw [hseen]; simp
      -- the token is not empty, so the span is not the empty one at the end
      have hsome : last ≠ Span.point text.utf8ByteSize := by
        have hpos := (within_of_mem_significantTokens hmem).1
        rintro rfl
        simp only [Span.point] at hstart hstop
        omega
      constructor
      · rintro ⟨last', hlast', hindex⟩
        obtain rfl := Option.some.inj (hlast.symm.trans hlast')
        rw [if_neg hsome] at hindex
        obtain ⟨other, hother, hstop'⟩ := hindex
        exact index_eq_of_stop_eq hother htoken (hstop'.trans hstop)
      · rintro rfl
        exact ⟨last, hlast, by rw [if_neg hsome]; exact ⟨token, htoken, hstop.symm⟩⟩

end Diagnosis

/-- **A failure points at the first impossible token.** There is exactly one place at which it
points last. The tokens before this place are the start of a sentence. If it is a token, then no
sentence starts with the tokens up to and including it, and if it is the end of the text, then the
text is no sentence. -/
theorem parseTree_error_pointsAt {text : String} {failure : ParseFailure}
    (h : parseTree text = .error failure) :
    (∃! place, failure.PointsAt text place) ∧
      ∀ place, failure.PointsAt text place →
        place ≤ (significantTokens (tokenize text)).length ∧
        ViablePrefix ((significantTokens (tokenize text)).take place) ∧
        (place < (significantTokens (tokenize text)).length →
          ¬ ViablePrefix ((significantTokens (tokenize text)).take (place + 1))) ∧
        (place = (significantTokens (tokenize text)).length →
          ¬ Derivable .expression (significantTokens (tokenize text))) := by
  obtain ⟨seen, frontier, rest, hseen, hread, hdiagnosis⟩ := diagnosis_of_parseTree h
  have hpoints := hdiagnosis.pointsAt_iff hseen
  refine ⟨⟨seen.length, (hpoints _).2 rfl, fun place hplace => (hpoints place).1 hplace⟩, ?_⟩
  intro place hplace
  obtain rfl := (hpoints place).1 hplace
  rw [hseen]
  refine ⟨by simp, ?_, ?_, ?_⟩
  · rw [List.take_left]
    exact viablePrefix_iff_run.2 ⟨frontier, hread⟩
  · intro htoken hviable
    cases rest with
    | nil => simp at htoken
    | cons token after =>
        rw [List.take_length_add_append, List.take_succ_cons, List.take_zero] at hviable
        obtain ⟨next, hnext⟩ := viablePrefix_iff_run.1 hviable
        rw [Frontier.run_append_of_run hread,
          Frontier.run_cons_of_stuck (hdiagnosis.stuck token rfl)] at hnext
        cases hnext
  · intro _ hsentence
    obtain ⟨final, hend, hfinal⟩ := derivable_iff_run.1 hsentence
    exact hdiagnosis.not_isFinal_of_run hread hend hfinal

/-- After the argument of a function its bracket has to be closed: the tokens up to `a` start a
sentence, those up to `b` do not. -/
theorem parseTree_error_pointsAt_unclosed :
    parseTree "f[ a b" = .error ⟨.function, [⟨1, 2⟩, ⟨5, 6⟩], true, .unclosedBracket⟩ ∧
      ParseFailure.PointsAt ⟨.function, [⟨1, 2⟩, ⟨5, 6⟩], true, .unclosedBracket⟩ "f[ a b" 3 ∧
      ViablePrefix ((significantTokens (tokenize "f[ a b")).take 3) ∧
      ¬ ViablePrefix ((significantTokens (tokenize "f[ a b")).take 4) := by
  have hrun : parseTree "f[ a b" =
      .error ⟨.function, [⟨1, 2⟩, ⟨5, 6⟩], true, .unclosedBracket⟩ := by cbv
  have htokens : significantTokens (tokenize "f[ a b") =
      [⟨.name, "f", ⟨0, 1⟩⟩, ⟨.openSquare, "[", ⟨1, 2⟩⟩, ⟨.name, "a", ⟨3, 4⟩⟩,
        ⟨.name, "b", ⟨5, 6⟩⟩] := by cbv
  have hplace : ParseFailure.PointsAt
      ⟨.function, [⟨1, 2⟩, ⟨5, 6⟩], true, .unclosedBracket⟩ "f[ a b" 3 := by
    refine ⟨⟨5, 6⟩, rfl, ?_⟩
    rw [if_neg (by decide), htokens]
    exact ⟨_, rfl, rfl⟩
  obtain ⟨-, hall⟩ := parseTree_error_pointsAt hrun
  obtain ⟨-, hviable, himpossible, -⟩ := hall 3 hplace
  exact ⟨hrun, hplace, hviable, himpossible (by rw [htokens]; decide)⟩

end AlgebraText
