import AlgebraText.Proofs.Expr.Provenance
import AlgebraText.Proofs.Token.Spacing

/-!
# Blanks have no meaning

What is read depends on the words of a text only. Blanks between tokens change none of them, so with
blanks put in a text is read as an equal expression if it was read before, and not at all if it was
not. The parser itself does look at blanks: a point right after a number is reported as a malformed
decimal, and one that stands apart as text after the expression. But it reads neither, since the
grammar has no place for a point.

## What this module delivers

* `parse_of_words_eq`: texts with the same words are read as the same, up to origins;
* `exists_failure_of_kind`: a text with a token that the grammar has no place for is not read;
* `parse_respace`: blanks at the boundaries of a text change nothing.
-/

set_option autoImplicit false

namespace AlgebraText

/-- **Texts with the same words are read as the same expression**, whose origins are moved. -/
theorem parse_of_words_eq {text text' : String} {e : Expr}
    (hwords : words text.toList = words text'.toList) (h : parse text = .ok e) :
    ∃ start stop, parse text' = .ok (e.relocate start stop) := by
  obtain ⟨start, stop, htokens⟩ := exists_relocate_of_words_eq hwords
  refine ⟨start, stop, ?_⟩
  rw [parse_eq_ok_iff_phrase] at h ⊢
  rw [htokens]
  exact h.relocate start stop

/-- A text is read or it is not. -/
theorem exists_failure_of_not_ok {text : String} (h : ∀ e, parse text ≠ .ok e) :
    ∃ failure, parse text = .error failure := by
  cases hparse : parse text with
  | error failure => exact ⟨failure, rfl⟩
  | ok e => exact absurd hparse (h e)

/-- Of a text that is read, every significant token has a place in the grammar. -/
theorem isTerminal_of_parse {text : String} {e : Expr} (h : parse text = .ok e) :
    ∀ token ∈ significantTokens (tokenize text), token.kind.isTerminal = true := by
  obtain ⟨full, hfull, hleaves, -⟩ := (parse_eq_ok_iff_phrase.1 h).derives.expression
  rw [← hleaves]
  exact hfull.isTerminal_of_mem_leaves

/-- **A text with a token that the grammar has no place for is not read**, unless the token is
blank. -/
theorem exists_failure_of_kind {text : String} {token : Token} (hmem : token ∈ tokenize text)
    (hblank : token.isBlank = false) (hkind : token.kind.isTerminal = false) :
    ∃ failure, parse text = .error failure := by
  apply exists_failure_of_not_ok
  intro e hparse
  have hterminal := isTerminal_of_parse hparse token
    (List.mem_filter.2 ⟨hmem, by rw [hblank]; rfl⟩)
  rw [hkind] at hterminal
  cases hterminal

/-- **Blanks at the boundaries of a text change nothing.** With blanks put in, a text is read if and
only if it is read without them, and what is read is equal. A text with a point that is part of no
number is read neither way. -/
theorem parse_respace {gap : Nat → String}
    (hgap : ∀ position, ∀ c ∈ (gap position).toList, IsBlank c) (text : String) :
    ((∃ e, parse text = .ok e) ↔ ∃ e, parse (respace gap text) = .ok e) ∧
      (∀ e e', parse text = .ok e → parse (respace gap text) = .ok e' → e.equal e' = true) ∧
      ((∃ token ∈ tokenize text, token.kind = .dot) →
        (∃ failure, parse text = .error failure) ∧
          ∃ failure, parse (respace gap text) = .error failure) := by
  have hwords := words_respace hgap text
  have hiff : (∃ e, parse text = .ok e) ↔ ∃ e, parse (respace gap text) = .ok e := by
    constructor
    · rintro ⟨e, hparse⟩
      obtain ⟨start, stop, hmoved⟩ := parse_of_words_eq hwords.symm hparse
      exact ⟨_, hmoved⟩
    · rintro ⟨e, hparse⟩
      obtain ⟨start, stop, hmoved⟩ := parse_of_words_eq hwords hparse
      exact ⟨_, hmoved⟩
  refine ⟨hiff, ?_, ?_⟩
  · intro e e' hparse hspaced
    obtain ⟨start, stop, hmoved⟩ := parse_of_words_eq hwords.symm hparse
    obtain rfl := Except.ok.inj (hspaced.symm.trans hmoved)
    exact equal_of_parse hparse (e.bare_relocate start stop).symm
  · rintro ⟨point, hmem, hkind⟩
    obtain ⟨failure, hfailure⟩ := exists_failure_of_kind hmem
      (Token.isBlank_of_kind hkind rfl) (congrArg TokenKind.isTerminal hkind)
    refine ⟨⟨failure, hfailure⟩, exists_failure_of_not_ok ?_⟩
    intro e' hspaced
    obtain ⟨e, hparse⟩ := hiff.2 ⟨e', hspaced⟩
    rw [hfailure] at hparse
    cases hparse

/-- A point right after a number and a point that stands apart are different failures. Ends of lines
around the tokens of a difference make no difference. -/
theorem parse_respace_stray_point :
    (respace (fun position => if position = 1 then " " else "") "2." = "2 ." ∧
      parse "2." = .error (.parse ⟨.decimal, [⟨0, 2⟩], true, .malformedDecimal⟩) ∧
      parse "2 ." = .error (.parse ⟨.expression, [⟨2, 3⟩], true, .expectedEof⟩) ∧
      ∃ failure, parse (respace (fun position => if position = 1 then " " else "") "2.") =
        .error failure) ∧
    respace (fun _ => "\r\n") "-25-b" = "\r\n-\r\n25\r\n-\r\nb\r\n" ∧
      ∃ e e', parse "-25-b" = .ok e ∧ parse (respace (fun _ => "\r\n") "-25-b") = .ok e' ∧
        e.equal e' = true := by
  have hspace : ∀ position : Nat, ∀ c ∈ (if position = 1 then " " else "").toList, IsBlank c := by
    intro position c hmem
    split at hmem
    · obtain rfl := List.mem_singleton.1 hmem
      decide
    · cases hmem
  have hbreaks : ∀ position : Nat, ∀ c ∈ "\r\n".toList, IsBlank c := by
    intro _ c hmem
    simp at hmem
    rcases hmem with rfl | rfl <;> decide
  obtain ⟨e, hparse⟩ : ∃ e, parse "-25-b" = .ok e := exists_ok_of_isSome (by cbv)
  obtain ⟨hiff, hequal, -⟩ := parse_respace hbreaks "-25-b"
  obtain ⟨e', hspaced⟩ := hiff.1 ⟨e, hparse⟩
  refine ⟨⟨by cbv, by cbv, by cbv, ?_⟩, by cbv, e, e', hparse, hspaced, hequal e e' hparse hspaced⟩
  have hpoint : tokenize "2." = [⟨.int, "2", ⟨0, 1⟩⟩, ⟨.dot, ".", ⟨1, 2⟩⟩] := by cbv
  apply ((parse_respace hspace "2.").2.2 _).2
  exact ⟨⟨.dot, ".", ⟨1, 2⟩⟩, by simp [hpoint], rfl⟩

end AlgebraText
