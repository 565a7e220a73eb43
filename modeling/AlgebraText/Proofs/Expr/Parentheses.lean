import AlgebraText.Proofs.Expr.Denotation
import AlgebraText.Proofs.Expr.Equality

/-!
# Printing writes the fewest parentheses

Of all texts that are read as an expression, its printed text has the fewest parentheses and the
fewest words. The texts that are read as an expression are many, so the argument does not compare
them with each other: every text pays, word for word, for the text that is printed for what was read
from it (`Denotes.cheap`), and equal expressions are printed alike.

## What this module delivers

* `parenCount` and `wordCount`, with `parenCount_eq_weight` and `wordCount_eq_weight`;
* `parenCount_print_le` and `wordCount_print_le`: printing what was read adds nothing;
* `print_fewest_parentheses`: no text of an equal expression has fewer parentheses, and no pair of
  them can be left out.
-/

set_option autoImplicit false

namespace AlgebraText

/-- The number of opening parentheses among the tokens of a text. -/
def parenCount (text : String) : Nat :=
  (tokenize text).countP fun token => token.kind == .openParen

/-- The number of tokens of a text that are not blank. -/
def wordCount (text : String) : Nat := (significantTokens (tokenize text)).length

/-- A count of parentheses as a weight. -/
def parenWeight (kind : TokenKind) : Nat := if kind = .openParen then 1 else 0

theorem parenCount_eq_weight (text : String) :
    parenCount text = weight parenWeight (words text.toList) := by
  rw [← words_tokenize, parenCount]
  -- blank tokens are counted on neither side, and a parenthesis is not blank
  induction tokenize text with
  | nil => rfl
  | cons token rest ih =>
      rw [List.countP_cons, ih]
      by_cases hparen : token.kind = .openParen
      · simp [significantTokens, Token.isBlank, hparen, TokenKind.isBlank, Token.word, parenWeight,
          Nat.add_comm]
      · by_cases hblank : token.isBlank = true
        · simp [significantTokens, hblank, hparen]
        · simp [significantTokens, hblank, hparen, Token.word, parenWeight]

theorem wordCount_eq_weight (text : String) :
    wordCount text = weight (fun _ => 1) (words text.toList) := by
  rw [← words_tokenize, wordCount]
  induction significantTokens (tokenize text) with
  | nil => rfl
  | cons token rest ih =>
      rw [List.length_cons, List.map_cons, weight_cons, ih]
      omega

/-! ## Printing what was read adds nothing -/

theorem parenCount_print_le {text : String} {e : Expr} (h : parse text = .ok e) :
    parenCount e.print ≤ parenCount text := by
  rw [parenCount_eq_weight, parenCount_eq_weight, ← words_tokenize text]
  exact (denotes_of_parse h).cheap_words parenWeight (Nat.le_refl 0)

theorem wordCount_print_le {text : String} {e : Expr} (h : parse text = .ok e) :
    wordCount e.print ≤ wordCount text := by
  rw [wordCount_eq_weight, wordCount_eq_weight, ← words_tokenize text]
  exact (denotes_of_parse h).cheap_words (fun _ => 1) (Nat.le_refl 1)

/-! ## No other text does better -/

/-- No negative zero is read. -/
theorem negativeZero_not_mem_decimals {text : String} {e : Expr} (h : parse text = .ok e) :
    Binary64.negativeZero ∉ e.decimals := by
  intro hmem
  rcases decimal_of_parse h _ hmem with hliteral | hinfinite
  · cases hliteral
  · cases hinfinite

/-- Equal expressions that were read are printed alike. -/
theorem print_eq_of_parse {text text' : String} {e e' : Expr} (h : parse text = .ok e)
    (h' : parse text' = .ok e') (hequal : e'.equal e = true) : e'.print = e.print :=
  Expr.print_eq_of_equal hequal (negativeZero_not_mem_decimals h')
    (negativeZero_not_mem_decimals h)

theorem parenCount_append (text text' : String) :
    parenCount (text ++ text') = parenCount text + parenCount text' := by
  simp only [parenCount, countP_openParen_tokenize, String.toList_append, List.count_append]

/-- **Printing writes the fewest parentheses.** What is printed for a text that was read has no more
parentheses and no more words than the text; no text that is read as an equal expression has fewer
of either; and where an opening parenthesis and a closing one are left out of what is printed, the
rest is not read as an equal expression. -/
theorem print_fewest_parentheses {text : String} {e : Expr} (h : parse text = .ok e) :
    parenCount e.print ≤ parenCount text ∧ wordCount e.print ≤ wordCount text ∧
      (∀ (other : String) (e' : Expr), parse other = .ok e' → e'.equal e = true →
        parenCount e.print ≤ parenCount other ∧ wordCount e.print ≤ wordCount other) ∧
      (∀ before inside after : String, e.print = before ++ "(" ++ inside ++ ")" ++ after →
        ∀ e', parse (before ++ inside ++ after) = .ok e' → e'.equal e = false) := by
  have hbest : ∀ (other : String) (e' : Expr), parse other = .ok e' → e'.equal e = true →
      parenCount e.print ≤ parenCount other ∧ wordCount e.print ≤ wordCount other := by
    intro other e' h' hequal
    -- the other text is compared with what is printed for it, which is the same text
    rw [← print_eq_of_parse h h' hequal]
    exact ⟨parenCount_print_le h', wordCount_print_le h'⟩
  refine ⟨parenCount_print_le h, wordCount_print_le h, hbest, ?_⟩
  intro before inside after hprint e' h'
  by_contra hequal
  rw [Bool.not_eq_false] at hequal
  -- the text without the pair has one parenthesis less than the least number
  have hle := (hbest _ e' h' hequal).1
  have hopen : parenCount "(" = 1 := by cbv
  have hclose : parenCount ")" = 0 := by cbv
  rw [hprint] at hle
  simp only [parenCount_append, hopen, hclose] at hle
  omega

/-- A text with one pair of parentheses more than it needs. -/
theorem print_fewest_parentheses_negated_sum :
    ∃ e, parse "(-(x + y))*2" = .ok e ∧ e.print = "-(x + y) * 2" ∧
      parenCount e.print ≤ parenCount "(-(x + y))*2" ∧
      wordCount e.print ≤ wordCount "(-(x + y))*2" ∧
      (∀ (other : String) (e' : Expr), parse other = .ok e' → e'.equal e = true →
        parenCount e.print ≤ parenCount other ∧ wordCount e.print ≤ wordCount other) ∧
      (∀ before inside after : String, e.print = before ++ "(" ++ inside ++ ")" ++ after →
        ∀ e', parse (before ++ inside ++ after) = .ok e' → e'.equal e = false) := by
  have hrun : (parse "(-(x + y))*2").toOption.map Expr.print = some "-(x + y) * 2" := by cbv
  obtain ⟨e, hsome, hprint⟩ := Option.map_eq_some_iff.1 hrun
  have h : parse "(-(x + y))*2" = .ok e := by
    cases hparse : parse "(-(x + y))*2" with
    | error failure =>
        rw [hparse] at hsome
        cases hsome
    | ok e' =>
        rw [hparse] at hsome
        cases hsome
        rfl
  exact ⟨e, h, hprint, print_fewest_parentheses h⟩

end AlgebraText
