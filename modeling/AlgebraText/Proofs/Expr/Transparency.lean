import AlgebraText.Proofs.Expr.Provenance

/-!
# Redundant parentheses

The text of a node can be put in parentheses wherever it stands, and the result is read as before.
The parentheses leave no trace, and they cannot change what surrounds the node: its tokens were read
on their own already, and in parentheses they bind as tightly as anything can.

Two more characters move everything behind them. So the origins change, and what was read is equal
to what is read now but not identical to it.

## What this module delivers

* `tokensFrom_append_mark`: a mark in a text is a token between the tokens of the two parts;
* `Span.enclosed?`, the text with parentheses around a slice;
* `parse_enclosed`: parentheses around the text of any expression are transparent.
-/

set_option autoImplicit false

namespace AlgebraText

/-! ## Marks between tokens -/

/-- The token of a mark at an offset. -/
def Token.mark (c : Char) (offset : Nat) : Token :=
  ⟨markKind c, String.singleton c, ⟨offset, offset + c.utf8Size⟩⟩

/-- A mark in a text is a token between the tokens of the two parts. -/
theorem tokensFrom_append_mark {c : Char} (h : IsMark c) (offset : Nat) (xs ys : List Char) :
    tokensFrom offset (xs ++ c :: ys) =
      tokensFrom offset xs ++ Token.mark c (offset + byteSize xs) ::
        tokensFrom (offset + byteSize xs + c.utf8Size) ys := by
  induction xs using munch_induction generalizing offset with
  | nil =>
      rw [List.nil_append, tokensFrom_cons, munch_mark h, tokensFrom_nil, List.nil_append]
      rfl
  | cons x xs ih =>
      have hcut := munch_append_of_ends (x := x) h.1 (fun _ => h.2.1) (fun _ => h.2.2) xs ys
      have hsize : byteSize (x :: xs) =
          byteSize (x :: (munch x xs).more) + byteSize (munch x xs).rest := by
        rw [← byteSize_append, List.cons_append, munch_append]
      rw [List.cons_append, tokensFrom_cons, hcut, ih, tokensFrom_cons offset x xs, hsize,
        ← Nat.add_assoc]
      rfl

theorem significantTokens_append_mark {c : Char} (h : IsMark c) (offset : Nat)
    (xs ys : List Char) :
    significantTokens (tokensFrom offset (xs ++ c :: ys)) =
      significantTokens (tokensFrom offset xs) ++ Token.mark c (offset + byteSize xs) ::
        significantTokens (tokensFrom (offset + byteSize xs + c.utf8Size) ys) := by
  have hmark : (Token.mark c (offset + byteSize xs)).isBlank = false := isBlank_markKind c
  rw [tokensFrom_append_mark h, significantTokens, List.filter_append]
  exact congrArg _ (significantTokens_cons hmark _)

/-! ## Parentheses around a slice -/

/-- The text with parentheses around the slice under a span. -/
def Span.enclosed? (span : Span) (text : String) : Option String := do
  let before ← (⟨0, span.start⟩ : Span).slice? text
  let piece ← span.slice? text
  let after ← (⟨span.stop, text.utf8ByteSize⟩ : Span).slice? text
  return before ++ "(" ++ piece ++ ")" ++ after

theorem Span.enclosed?_append (before piece after : String) :
    (⟨before.utf8ByteSize, (before ++ piece).utf8ByteSize⟩ : Span).enclosed?
        (before ++ piece ++ after) =
      some (before ++ "(" ++ piece ++ ")" ++ after) := by
  have hbefore : (⟨0, before.utf8ByteSize⟩ : Span).slice? (before ++ piece ++ after) =
      some before :=
    Span.slice?_eq_some.2 ⟨"", piece ++ after, by simp [String.append_assoc], rfl, by simp⟩
  have hpiece : (⟨before.utf8ByteSize, (before ++ piece).utf8ByteSize⟩ : Span).slice?
      (before ++ piece ++ after) = some piece :=
    Span.slice?_eq_some.2 ⟨before, after, rfl, rfl, rfl⟩
  have hafter : (⟨(before ++ piece).utf8ByteSize, (before ++ piece ++ after).utf8ByteSize⟩ :
      Span).slice? (before ++ piece ++ after) = some after :=
    Span.slice?_eq_some.2 ⟨before ++ piece, "", by simp, rfl, rfl⟩
  simp only [enclosed?, hbefore, hpiece, hafter, Option.bind_eq_bind, Option.bind_some,
    Option.pure_def]

/-- The tokens of a text with parentheses in it: those before, the slice one character further on in
parentheses, and those behind it two characters further on. -/
theorem significantTokens_enclosed (before piece after : String) :
    significantTokens (tokenize (before ++ "(" ++ piece ++ ")" ++ after)) =
      significantTokens (tokenize before) ++
        (Token.mark '(' before.utf8ByteSize ::
          ((significantTokens (tokensFrom before.utf8ByteSize piece.toList)).map
              (Token.relocate (· + 1) (· + 1)) ++
            [Token.mark ')' ((before ++ piece).utf8ByteSize + 1)]) ++
        (significantTokens (tokensFrom (before ++ piece).utf8ByteSize after.toList)).map
          (Token.relocate (· + 2) (· + 2))) := by
  have htext : (before ++ "(" ++ piece ++ ")" ++ after).toList =
      before.toList ++ '(' :: (piece.toList ++ ')' :: after.toList) := by
    simp
  rw [tokenize, htext, significantTokens_append_mark (by decide),
    significantTokens_append_mark (by decide), ← significantTokens_map_relocate,
    ← significantTokens_map_relocate, ← tokensFrom_add, ← tokensFrom_add, byteSize_toList,
    byteSize_toList, String.utf8ByteSize_append, tokenize]
  simp only [Nat.zero_add, List.append_assoc, List.cons_append, List.nil_append]
  have hsize : before.utf8ByteSize + '('.utf8Size + piece.utf8ByteSize =
      before.utf8ByteSize + piece.utf8ByteSize + 1 := by
    rw [Nat.add_right_comm]
    rfl
  rw [hsize]
  rfl

/-- **Redundant parentheses are transparent.** If parentheses are put around the text of an
expression inside a text that was read, then the new text is read as an equal expression. -/
theorem parse_enclosed {text : String} {e : Expr} (h : parse text = .ok e) (tree : Nat) :
    ∀ located ∈ (Located.root tree e).preorder, ∀ part, located.node = .expr part →
      ∃ origin enclosed result, part.origin = some origin ∧
        origin.span.enclosed? text = some enclosed ∧ parse enclosed = .ok result ∧
        result.equal e = true := by
  intro located hmem part hpart
  obtain ⟨front, inside, back, hsplit, hoccurrence⟩ :=
    (parse_eq_ok_iff_phrase.1 h).exists_occurrence (below_of_mem_preorder hmem)
  rw [hpart] at hoccurrence
  obtain ⟨hphrase, rule, horigin⟩ := hoccurrence.read
  obtain ⟨before, piece, after, rfl, hfront, hinside, hback, hhull, -⟩ :=
    exists_slice_of_significantTokens hsplit hphrase.tokens_ne_nil
  -- the tokens in parentheses are a phrase of the tightest level, which every place takes
  have hbracketed := @Phrase.bracketed _ _ _ (Token.mark '(' before.utf8ByteSize)
    (Token.mark ')' ((before ++ piece).utf8ByteSize + 1)) (hphrase.relocate (· + 1) (· + 1)) rfl rfl
  obtain ⟨result, hresult, hbare⟩ := hoccurrence.frame part rfl (· + 2) (· + 2) _ _ hbracketed
    (part.bare_relocate _ _)
  have hparse : parse (before ++ "(" ++ piece ++ ")" ++ after) = .ok result := by
    rw [parse_eq_ok_iff_phrase, significantTokens_enclosed, hfront, hinside, hback]
    exact hresult
  refine ⟨_, _, result, horigin, ?_, hparse, equal_of_parse hparse hbare⟩
  rw [hhull]
  exact Span.enclosed?_append before piece after

/-- Parentheses around the body of a sign, the base of a power and every other expression. -/
theorem parse_enclosed_negated_power :
    ∃ e, parse "-a^2 / f[x]" = .ok e ∧
      ∀ located ∈ (Located.root 0 e).preorder, ∀ part, located.node = .expr part →
        ∃ origin enclosed result, part.origin = some origin ∧
          origin.span.enclosed? "-a^2 / f[x]" = some enclosed ∧ parse enclosed = .ok result ∧
          result.equal e = true := by
  obtain ⟨e, hparse⟩ : ∃ e, parse "-a^2 / f[x]" = .ok e := exists_ok_of_isSome (by cbv)
  exact ⟨e, hparse, parse_enclosed hparse 0⟩

end AlgebraText
