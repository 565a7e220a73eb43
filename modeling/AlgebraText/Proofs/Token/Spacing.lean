import AlgebraText.Proofs.Token.Slices

/-!
# Blanks between tokens

Blanks can be put in wherever a text has a boundary between tokens, and the words of the text remain
what they are. What is put in ends the lexeme before it, and the pieces into which a text falls at
its boundaries have the tokens of the text. So the significant tokens of the new text are those of
the old one at other places, and all that the places have to be is in order.

## What this module delivers

* `respace`, with `respace_empty`: a text with blanks put in at its boundaries;
* `words_respace`: blanks change no words;
* `Ordered.exists_relocate`, with `exists_relocate_of_words_eq`: texts with the same words have the
  same significant tokens at other places.
-/

set_option autoImplicit false

namespace AlgebraText

/-! ## Putting in blanks -/

/-- The lexemes of some tokens, with a text put in before each of them and after the last. The first
of them is the token at `position`. -/
def respaceFrom (gap : Nat → String) (position : Nat) : List Token → String
  | [] => gap position
  | token :: rest => gap position ++ token.lexeme ++ respaceFrom gap (position + 1) rest

/-- A text with something put in at its boundaries: `gap 0` before the first token, and `gap n`
after the `n`-th. -/
def respace (gap : Nat → String) (text : String) : String := respaceFrom gap 0 (tokenize text)

theorem toList_respaceFrom_empty (position : Nat) (tokens : List Token) :
    (respaceFrom (fun _ => "") position tokens).toList =
      tokens.flatMap fun token => token.lexeme.toList := by
  induction tokens generalizing position with
  | nil => rfl
  | cons token rest ih =>
      rw [respaceFrom, String.empty_append, String.toList_append, ih, List.flatMap_cons]

/-- Where nothing is put in, nothing changes. -/
theorem respace_empty (text : String) : respace (fun _ => "") text = text := by
  rw [← String.toList_inj, respace, toList_respaceFrom_empty]
  exact flatMap_lexeme_tokensFrom 0 text.toList

/-! ## Words -/

/-- Blanks in front of a text add no words. -/
theorem words_blanks_append {blanks : List Char} (h : ∀ c ∈ blanks, IsBlank c) (cs : List Char) :
    words (blanks ++ cs) = words cs := by
  induction blanks with
  | nil => rfl
  | cons c blanks ih =>
      obtain ⟨hc, hrest⟩ := List.forall_mem_cons.1 h
      rw [List.cons_append, words_blank_cons hc, ih hrest]

/-- Blanks inside a text cut it in two. -/
theorem words_append_blanks {blanks : List Char} (h : ∀ c ∈ blanks, IsBlank c)
    (hne : blanks ≠ []) (xs ys : List Char) :
    words (xs ++ (blanks ++ ys)) = words xs ++ words ys := by
  obtain ⟨c, blanks, rfl⟩ := List.exists_cons_of_ne_nil hne
  obtain ⟨hc, hrest⟩ := List.forall_mem_cons.1 h
  rw [List.cons_append, words_append_blank hc, words_blanks_append hrest]

/-- The lexemes of a run of tokens of a text have the words of these tokens. -/
theorem words_lexemes {text : String} {front inside back : List Token}
    (h : tokenize text = front ++ (inside ++ back)) :
    words (inside.flatMap fun token => token.lexeme.toList) =
      (significantTokens inside).map Token.word := by
  obtain ⟨before, piece, after, -, -, rfl, -⟩ := exists_slice h
  rw [flatMap_lexeme_tokensFrom, map_word_tokensFrom]

theorem significantTokens_append (xs ys : List Token) :
    significantTokens (xs ++ ys) = significantTokens xs ++ significantTokens ys :=
  List.filter_append ..

/-- Blanks are put in after some tokens of a text that stand together (`inside`). If none are put in
at the next boundary, one more token stands together with these. Otherwise the text falls in two,
and the next token starts the second part. -/
theorem words_respaceFrom {gap : Nat → String}
    (hgap : ∀ position, ∀ c ∈ (gap position).toList, IsBlank c) {text : String}
    {front inside back : List Token} (h : tokenize text = front ++ (inside ++ back))
    (position : Nat) :
    words ((inside.flatMap fun token => token.lexeme.toList) ++
        (respaceFrom gap position back).toList) =
      (significantTokens (inside ++ back)).map Token.word := by
  induction back generalizing front inside position with
  | nil =>
      rw [respaceFrom, List.append_nil, ← words_lexemes h]
      cases hblanks : (gap position).toList with
      | nil => rw [List.append_nil]
      | cons c blanks =>
          have hcut := words_append_blanks (hgap position) (by simp [hblanks])
            (inside.flatMap fun token => token.lexeme.toList) []
          rw [List.append_nil, words_nil, List.append_nil, hblanks] at hcut
          exact hcut
  | cons token back ih =>
      rw [respaceFrom, String.append_assoc, String.toList_append]
      cases hblanks : (gap position).toList with
      | nil =>
          have hmore := @ih front (inside ++ [token]) (by rw [h]; simp) (position + 1)
          rw [List.flatMap_append, List.flatMap_singleton, List.append_assoc,
            List.append_assoc] at hmore
          rw [List.nil_append, String.toList_append, hmore]
          rfl
      | cons c blanks =>
          have hnext := @ih (front ++ inside) [token] (by rw [h]; simp) (position + 1)
          rw [List.flatMap_singleton] at hnext
          rw [← hblanks, words_append_blanks (hgap position) (by simp [hblanks]), words_lexemes h,
            String.toList_append, hnext, ← List.map_append, ← significantTokens_append]
          rfl

/-- **Blanks at the boundaries of a text change none of its words.** -/
theorem words_respace {gap : Nat → String}
    (hgap : ∀ position, ∀ c ∈ (gap position).toList, IsBlank c) (text : String) :
    words (respace gap text).toList = words text.toList :=
  @words_respaceFrom gap hgap text [] [] (tokenize text) rfl 0

/-! ## Places -/

/-- Tokens that stand one after another are moved to any other places by moving their ends. -/
theorem Ordered.exists_relocate {tokens tokens' : List Token} (h : Ordered tokens)
    (hwords : tokens.map Token.word = tokens'.map Token.word) :
    ∃ start stop, tokens' = tokens.map (Token.relocate start stop) := by
  induction tokens generalizing tokens' with
  | nil =>
      rw [List.map_nil, eq_comm, List.map_eq_nil_iff] at hwords
      exact ⟨id, id, hwords⟩
  | cons token rest ih =>
      cases tokens' with
      | nil => cases hwords
      | cons token' rest' =>
          rw [List.map_cons, List.map_cons, List.cons.injEq] at hwords
          obtain ⟨start, stop, rfl⟩ := ih (h.sublist (List.sublist_cons_self token rest)) hwords.2
          refine ⟨Function.update start token.span.start token'.span.start,
            Function.update stop token.span.stop token'.span.stop, ?_⟩
          rw [List.map_cons, List.cons.injEq]
          constructor
          · obtain ⟨hkind, hlexeme⟩ := Word.mk.inj hwords.1
            rw [Token.relocate, Span.relocate, Function.update_self, Function.update_self, hkind,
              hlexeme]
          · apply List.map_congr_left
            intro later hlater
            -- a later token shares neither end with the first
            have hbefore : token.span.stop ≤ later.span.start :=
              (List.pairwise_cons.1 h.pairwise).1 later hlater
            have hfirst := h.start_lt_stop token List.mem_cons_self
            have hlast := h.start_lt_stop later (List.mem_cons_of_mem _ hlater)
            rw [Token.relocate, Span.relocate, Token.relocate, Span.relocate,
              Function.update_of_ne (by omega), Function.update_of_ne (by omega)]

/-- **Texts with the same words have the same significant tokens, at other places.** -/
theorem exists_relocate_of_words_eq {text text' : String}
    (h : words text.toList = words text'.toList) :
    ∃ start stop, significantTokens (tokenize text') =
      (significantTokens (tokenize text)).map (Token.relocate start stop) :=
  (ordered_significantTokens text).exists_relocate h

end AlgebraText
