import AlgebraText.Proofs.Expr.Denotation
import AlgebraText.Proofs.Expr.RoundTrip

/-!
# The decimals that are read

A decimal literal is a finite number with a positive sign; its text reads back. The decimals of an
expression that was read are the numbers nearest to its decimal tokens, so they are literals as long
as these tokens stay below the point where reading overflows. A token beyond it is read all the
same, as an infinity, which is no literal: its text is a name.

## What this module delivers

* `Token.Overflows`: a decimal token that denotes too large a number;
* `decimals_isLiteral_iff`: all decimals that are read are literals exactly if no token overflows,
  and what becomes of the text of each;
* `parse_powerOfTen`: a power of ten that is read, though its decimal is no literal.
-/

set_option autoImplicit false

namespace AlgebraText

/-- A decimal token whose digits denote at least the least magnitude that is read as an infinity. -/
def Token.Overflows (token : Token) : Prop :=
  token.kind = .float ∧ ∃ whole fraction, IsDigits whole ∧ IsDigits fraction ∧
    token.lexeme.toList = whole ++ '.' :: fraction ∧
    Binary64.overflow * 10 ^ fraction.length ≤ digitsValue (whole ++ fraction)

/-- A decimal token is read as an infinity exactly if it overflows. -/
theorem Token.overflows_iff {token : Token} (hspelled : token.Spelled)
    (hkind : token.kind = .float) :
    token.Overflows ↔ Binary64.read? token.lexeme.toList = some (.infinite false) := by
  constructor
  · rintro ⟨-, whole, fraction, hwhole, hfraction, htext, hlarge⟩
    rw [htext, Binary64.read?_pointed hwhole hfraction.2,
      (Binary64.ofRatio_eq_infinite_iff (by positivity)).2 hlarge]
  · intro hread
    obtain ⟨whole, fraction, hwhole, hfraction, htext⟩ := hspelled.float hkind
    rw [htext, Binary64.read?_pointed hwhole hfraction.2, Option.some.injEq] at hread
    exact ⟨hkind, whole, fraction, hwhole, hfraction, htext,
      (Binary64.ofRatio_eq_infinite_iff (by positivity)).1 hread⟩

/-- The infinities among the decimals that are read are the tokens that overflow. -/
theorem infinite_mem_decimals_iff {text : String} {e : Expr} (h : parse text = .ok e) :
    .infinite false ∈ e.decimals ↔
      ∃ token ∈ significantTokens (tokenize text), token.Overflows := by
  rw [(denotes_of_parse h).decimals, List.mem_filterMap]
  constructor
  · rintro ⟨token, hmem, hvalue⟩
    by_cases hkind : token.kind = .float
    · rw [Token.decimal?, if_pos hkind] at hvalue
      exact ⟨token, hmem, (Token.overflows_iff (spelled_of_mem_tokenize hmem) hkind).2 hvalue⟩
    · rw [Token.decimal?_of_kind_ne hkind] at hvalue
      cases hvalue
  · rintro ⟨token, hmem, hoverflows⟩
    have hkind := hoverflows.1
    refine ⟨token, hmem, ?_⟩
    rw [Token.decimal?, if_pos hkind]
    exact (Token.overflows_iff (spelled_of_mem_tokenize hmem) hkind).1 hoverflows

/-- **The decimals that are read are literals unless a token overflows.** The text of a literal is a
decimal token and reads back; the only other decimal is the positive infinity, whose text is a
name. -/
theorem decimals_isLiteral_iff {text : String} {e : Expr} (h : parse text = .ok e) :
    ((∀ value ∈ e.decimals, value.isLiteral = true) ↔
        ∀ token ∈ significantTokens (tokenize text), ¬ token.Overflows) ∧
      ∀ value ∈ e.decimals,
        (value.isLiteral = true ∧ words value.literal.toList = [⟨.float, value.literal⟩] ∧
          Binary64.read? value.literal.toList = some value) ∨
        (value = .infinite false ∧ words value.literal.toList = [⟨.name, "inf"⟩]) := by
  have hrange := decimal_of_parse h
  have hinfinite := infinite_mem_decimals_iff h
  refine ⟨⟨?_, ?_⟩, ?_⟩
  · intro hall token hmem hoverflows
    exact absurd (hall _ (hinfinite.2 ⟨token, hmem, hoverflows⟩)) (by decide)
  · intro hnone value hmem
    rcases hrange value hmem with hliteral | rfl
    · exact hliteral
    · obtain ⟨token, htoken, hoverflows⟩ := hinfinite.1 hmem
      exact absurd hoverflows (hnone token htoken)
  · intro value hmem
    rcases hrange value hmem with hliteral | rfl
    · obtain ⟨rank, rfl⟩ := Binary64.exists_rank_of_isLiteral hliteral
      refine Or.inl ⟨hliteral, ?_, Binary64.read?_literal rank⟩
      rw [words_of_isPointed (Binary64.isPointed_literal rank), String.ofList_toList]
    · exact Or.inr ⟨rfl, words_of_isName (by decide)⟩

/-! ## Texts that overflow -/

/-- A power of ten as a decimal: one followed by zeros, a point and one more zero. -/
def powerOfTen (zeros : Nat) : List Char := ('1' :: List.replicate zeros '0') ++ ['.', '0']

theorem isDigits_one_zeros (zeros : Nat) : IsDigits ('1' :: List.replicate zeros '0') := by
  refine ⟨by simp, ?_⟩
  intro c hmem
  rcases List.mem_cons.1 hmem with rfl | hmem
  · rfl
  · rw [(List.mem_replicate.1 hmem).2]
    rfl

/-- A power of ten from the 309th on is read as an infinity. -/
theorem read?_powerOfTen {zeros : Nat} (h : 309 ≤ zeros) :
    Binary64.read? (powerOfTen zeros) = some (.infinite false) := by
  -- the zero behind the point counts in the digits and in the places, so it cancels
  have hvalue : digitsValue (('1' :: List.replicate zeros '0') ++ ['0']) = 10 ^ zeros * 10 := by
    have hzeros := digitsValue_append_zeros (zeros + 1) ['1']
    rw [show digitsValue ['1'] = 1 by decide, Nat.one_mul, List.replicate_succ', pow_succ] at hzeros
    exact hzeros
  have hlarge : Binary64.overflow ≤ 10 ^ 309 := by decide +kernel
  have hgrow : 10 ^ 309 ≤ 10 ^ zeros := pow_le_pow_right₀ (by decide) h
  have hreach : Binary64.overflow * 10 ≤ 10 ^ zeros * 10 :=
    Nat.mul_le_mul_right 10 (hlarge.trans hgrow)
  have hzero : IsDigits ['0'] := by decide
  have hread := Binary64.read?_pointed (isDigits_one_zeros zeros) hzero.2
  rw [hvalue, List.length_singleton, pow_one,
    (Binary64.ofRatio_eq_infinite_iff (by decide)).2 hreach] at hread
  exact hread

/-- Such a power of ten is an expression all the same. -/
theorem parse_powerOfTen {zeros : Nat} (h : 309 ≤ zeros) :
    ∃ e, parse (String.ofList (powerOfTen zeros)) = .ok e ∧ .infinite false ∈ e.decimals := by
  have hpointed : IsPointed (powerOfTen zeros) :=
    ⟨_, _, isDigits_one_zeros zeros, ⟨by simp, by simp⟩, rfl⟩
  have hwords := words_tokenize (String.ofList (powerOfTen zeros))
  rw [String.toList_ofList, words_of_isPointed hpointed] at hwords
  obtain ⟨digits, more, htokens, hkind, hlexeme, hmore⟩ := cons_of_map_word hwords
  obtain rfl : more = [] := List.map_eq_nil_iff.1 hmore
  have hread : Binary64.read? digits.lexeme.toList = some (.infinite false) := by
    rw [show digits.lexeme = _ from hlexeme, String.toList_ofList]
    exact read?_powerOfTen h
  -- the token alone is an expression, whatever it denotes
  have hatom : Writes .number [digits] (.decimal (.infinite false) none) :=
    .decimal hkind hread rfl
  have hsingle : Writes (.ofLevel 6) [digits] (.decimal (.infinite false) none) := hatom.plain rfl
  have hexpression := (hsingle.of_le (Nat.le_refl 2) (by decide)).expression
  rw [← htokens] at hexpression
  obtain ⟨result, hparse, hequal⟩ := parse_of_writes hexpression
  refine ⟨result, hparse, ?_⟩
  match result, hequal with
  | .decimal (.infinite false) _, _ => exact List.mem_singleton_self _

/-- The power of ten with 309 zeros is read, and its decimal is no literal. -/
theorem parse_overflow_not_isLiteral :
    ∃ e, parse (String.ofList (powerOfTen 309)) = .ok e ∧
      ¬ ∀ value ∈ e.decimals, value.isLiteral = true := by
  obtain ⟨e, hparse, hmem⟩ := parse_powerOfTen (Nat.le_refl 309)
  exact ⟨e, hparse, fun hall => absurd (hall _ hmem) (by decide)⟩

/-- The same text meets both sides of the condition in the negative. -/
theorem decimals_isLiteral_iff_powerOfTen :
    ∃ e, parse (String.ofList (powerOfTen 309)) = .ok e ∧
      ((∀ value ∈ e.decimals, value.isLiteral = true) ↔
        ∀ token ∈ significantTokens (tokenize (String.ofList (powerOfTen 309))),
          ¬ token.Overflows) ∧
      ∀ value ∈ e.decimals,
        (value.isLiteral = true ∧ words value.literal.toList = [⟨.float, value.literal⟩] ∧
          Binary64.read? value.literal.toList = some value) ∨
        (value = .infinite false ∧ words value.literal.toList = [⟨.name, "inf"⟩]) := by
  obtain ⟨e, hparse, -⟩ := parse_powerOfTen (Nat.le_refl 309)
  exact ⟨e, hparse, decimals_isLiteral_iff hparse⟩

end AlgebraText
