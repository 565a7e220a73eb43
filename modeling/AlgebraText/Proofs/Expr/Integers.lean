import AlgebraText.Expr.Equality
import AlgebraText.Proofs.Expr.Phrase
import AlgebraText.Proofs.Token.LongestMatch

/-!
# Integers are compared as numbers

Integer literals are kept and compared as texts of digits, of any length. Comparing the texts is
comparing the numbers, since each number has one text without a superfluous zero: the digits that
`Nat.toDigits` finds by dividing (`toDigits_digitsValue`). So whatever way a literal is made, from
digits, from a number or by reading a text, it holds the text of its number
(`canonicalDigits?_eq_repr`), and texts of numbers agree only if the numbers do.

## What this module delivers

* `toDigits_digitsValue`: digits without a superfluous zero are the digits of their value;
* `canonicalDigits?_eq_repr` and `canonicalDigits?_eq_none_iff`: what a literal holds, and what is
  no literal;
* `parse_of_isDigits`: what a text of digits is read as;
* `integers_equal_iff`: literals are equal exactly if they denote the same number.
-/

set_option autoImplicit false

namespace AlgebraText

/-! ## Digits and their value -/

/-- A digit is the character of its value. -/
theorem digitChar_digitValue {c : Char} (h : c.isDigit = true) :
    digitValue c < 10 ∧ Nat.digitChar (digitValue c) = c := by
  have hrange : 48 ≤ c.toNat ∧ c.toNat ≤ 57 := Char.isDigit_iff_toNat.1 h
  have hvalue : digitValue c = c.toNat - 48 := rfl
  have hlt : digitValue c < 10 := by omega
  refine ⟨hlt, Char.toNat_inj.1 ?_⟩
  rw [Nat.toNat_digitChar_of_lt_ten hlt]
  omega

/-- One more digit is worth itself and makes those before it worth ten times as much. -/
theorem digitsValue_concat (digits : List Char) (c : Char) :
    digitsValue (digits ++ [c]) = 10 * digitsValue digits + digitValue c := by
  rw [digitsValue, List.foldl_append]
  rfl

/-- The zeros in front of digits are worth nothing. -/
theorem digitsValue_dropWhile_zeros (digits : List Char) :
    digitsValue (digits.dropWhile (· == '0')) = digitsValue digits := by
  induction digits with
  | nil => rfl
  | cons c digits ih =>
      by_cases hc : c = '0'
      · subst hc
        exact ih.trans (digitsValue_zeros 1 digits).symm
      · rw [List.dropWhile_cons_of_neg (by simpa using hc)]

/-- **Digits without a superfluous zero are the digits of their value.** -/
theorem toDigits_digitsValue {digits : List Char} (h : IsCanonical digits) :
    Nat.toDigits 10 (digitsValue digits) = digits := by
  -- dividing by ten takes off the last digit, so the induction adds digits at the end
  induction digits using List.reverseRecOn with
  | nil => exact absurd rfl h.1.1
  | append_singleton front c ih =>
      obtain ⟨⟨-, hdigits⟩, hzero⟩ := h
      obtain ⟨hlt, hchar⟩ := digitChar_digitValue (hdigits c (by simp))
      have hlast : Nat.toDigits 10 (digitValue c) = [c] := by
        rw [Nat.toDigits_of_lt_base hlt, hchar]
      rw [digitsValue_concat]
      cases front with
      | nil =>
          rw [List.nil_append, ← hlast]
          simp [digitsValue]
      | cons first front =>
          -- a zero in front would be the only digit, and there are two
          have hfirst : first ≠ '0' := by
            rintro rfl
            have hlone := hzero rfl
            simp at hlone
          have hfront : Nat.toDigits 10 (digitsValue (first :: front)) = first :: front := by
            refine ih ⟨⟨by simp, fun d hmem => hdigits d (List.mem_append_left _ hmem)⟩, ?_⟩
            intro hhead
            exact absurd (by simpa using hhead) hfirst
          have hpos : 0 < digitsValue (first :: front) := by
            apply Nat.pos_of_ne_zero
            intro hnone
            rw [hnone, Nat.toDigits_zero, List.cons.injEq] at hfront
            exact hfirst hfront.1.symm
          rw [← Nat.toDigits_append_toDigits (by decide) hpos hlt, hfront, hlast]

/-! ## Literals -/

/-- The canonical form of digits denotes the same number. -/
theorem digitsValue_of_canonicalDigits? {digits value : String}
    (h : canonicalDigits? digits = some value) :
    digitsValue value.toList = digitsValue digits.toList := by
  have hvalue := digitsValue_dropWhile_zeros digits.toList
  rw [canonicalDigits?_of_isDigits (isDigits_of_canonicalDigits? h), Option.some.injEq] at h
  subst h
  split
  · -- nothing but zeros
    rename_i hnone
    rw [List.isEmpty_iff.1 hnone] at hvalue
    exact hvalue
  · rw [String.toList_ofList]
    exact hvalue

/-- **A literal holds the text of its number.** -/
theorem canonicalDigits?_eq_repr {digits : String} (h : IsDigits digits.toList) :
    canonicalDigits? digits = some (Nat.repr (digitsValue digits.toList)) := by
  obtain ⟨value, hvalue⟩ : ∃ value, canonicalDigits? digits = some value :=
    ⟨_, canonicalDigits?_of_isDigits h⟩
  have hcanonical := isCanonical_of_canonicalDigits? hvalue
  rw [hvalue, ← digitsValue_of_canonicalDigits? hvalue, Nat.repr_eq_ofList_toDigits,
    toDigits_digitsValue hcanonical, String.ofList_toList]

/-- The text of a number is canonical and denotes it. -/
theorem isCanonical_repr (value : Nat) :
    IsCanonical value.repr.toList ∧ digitsValue value.repr.toList = value := by
  have hvalue : digitsValue value.repr.toList = value := by
    rw [Nat.toList_repr, digitsValue_toDigits]
  have hdigits : IsDigits value.repr.toList := by
    rw [Nat.toList_repr]
    exact ⟨Nat.toDigits_ne_nil, fun c => Nat.isDigit_of_mem_toDigits (by decide) (by decide)⟩
  have hcanonical := canonicalDigits?_eq_repr hdigits
  rw [hvalue] at hcanonical
  exact ⟨isCanonical_of_canonicalDigits? hcanonical, hvalue⟩

/-- Nothing but digits makes a literal, and at least one of them is needed. -/
theorem canonicalDigits?_eq_none_iff (text : String) :
    canonicalDigits? text = none ↔ text = "" ∨ ∃ c ∈ text.toList, c.isDigit = false := by
  have hempty : text.toList = [] ↔ text = "" := by
    rw [← String.toList_inj, String.toList_empty]
  constructor
  · intro hnone
    by_contra hother
    rw [not_or, ← hempty] at hother
    have hdigits : IsDigits text.toList := by
      refine ⟨hother.1, fun c hmem => ?_⟩
      by_contra hdigit
      exact hother.2 ⟨c, hmem, by simpa using hdigit⟩
    rw [canonicalDigits?_eq_repr hdigits] at hnone
    cases hnone
  · intro hother
    by_contra hsome
    obtain ⟨value, hvalue⟩ := Option.ne_none_iff_exists'.1 hsome
    obtain ⟨hne, hdigits⟩ := isDigits_of_canonicalDigits? hvalue
    rcases hother with htext | ⟨c, hmem, hdigit⟩
    · exact hne (hempty.2 htext)
    · rw [hdigits c hmem] at hdigit
      cases hdigit

/-! ## Texts -/

/-- **A text of digits is read as the literal of its number.** -/
theorem parse_of_isDigits {text : String} (h : IsDigits text.toList) :
    parse text = .ok (.integer (Nat.repr (digitsValue text.toList))
      (some ⟨.integer, ⟨0, text.utf8ByteSize⟩⟩)) := by
  have htokens : tokenize text = [⟨.int, text, ⟨0, text.utf8ByteSize⟩⟩] :=
    tokenize_of_matches h (by decide)
  rw [parse_eq_ok_iff_phrase, htokens]
  exact (Phrase.integer rfl (canonicalDigits?_eq_repr h)).of_le (Nat.le_refl 2) (by decide)

/-- Literals of two numbers are equal exactly if the numbers are. -/
theorem equal_integer_repr (m n : Nat) (origin₁ origin₂ : Option Origin) :
    (Expr.integer m.repr origin₁).equal (.integer n.repr origin₂) = true ↔ m = n := by
  rw [Expr.equal, beq_iff_eq, Nat.repr_inj]

/-- **Integers are equal exactly if they denote the same number.** Whatever the length of two texts
of digits, the literals made from them in code and those read from them are equal if and only if the
texts denote the same number, and a literal made from a number equals the literal of a text if and
only if the text denotes it. The digits that a literal holds denote its number and are left as they
are. No literal is made from the empty text and from texts with anything but digits. -/
theorem integers_equal_iff :
    (∀ text : String, Expr.ofDigits? text = none ↔
      text = "" ∨ ∃ c ∈ text.toList, c.isDigit = false) ∧
    ∀ s t : String, IsDigits s.toList → IsDigits t.toList →
      ∃ a b x y : Expr,
        Expr.ofDigits? s = some a ∧ Expr.ofDigits? t = some b ∧
        parse s = .ok x ∧ parse t = .ok y ∧
        (a.equal b = true ↔ digitsValue s.toList = digitsValue t.toList) ∧
        (x.equal y = true ↔ digitsValue s.toList = digitsValue t.toList) ∧
        (∀ n, (Expr.ofNat n).equal a = true ↔ digitsValue s.toList = n) ∧
        ∃ value, a = .integer value none ∧ digitsValue value.toList = digitsValue s.toList ∧
          Expr.ofDigits? value = some a := by
  refine ⟨fun text => ?_, fun s t hs ht => ?_⟩
  · rw [Expr.ofDigits?, Option.map_eq_none_iff, canonicalDigits?_eq_none_iff]
  · have hmade : ∀ {text : String}, IsDigits text.toList → Expr.ofDigits? text =
        some (.integer (Nat.repr (digitsValue text.toList)) none) := by
      intro text htext
      rw [Expr.ofDigits?, canonicalDigits?_eq_repr htext, Option.map_some]
    obtain ⟨hcanonical, hvalue⟩ := isCanonical_repr (digitsValue s.toList)
    refine ⟨_, _, _, _, hmade hs, hmade ht, parse_of_isDigits hs, parse_of_isDigits ht,
      equal_integer_repr _ _ _ _, equal_integer_repr _ _ _ _, fun n => ?_, _, rfl, hvalue, ?_⟩
    · rw [Expr.ofNat, Nat.toString_eq_repr, equal_integer_repr, eq_comm]
    · rw [hmade hcanonical.1, hvalue]

/-- Two spellings of zero. -/
theorem integers_equal_iff_zeros :
    IsDigits "000".toList ∧ IsDigits "0".toList ∧
      ∃ a b x y : Expr,
        Expr.ofDigits? "000" = some a ∧ Expr.ofDigits? "0" = some b ∧
        parse "000" = .ok x ∧ parse "0" = .ok y ∧
        (a.equal b = true ↔ digitsValue "000".toList = digitsValue "0".toList) ∧
        (x.equal y = true ↔ digitsValue "000".toList = digitsValue "0".toList) ∧
        (∀ n, (Expr.ofNat n).equal a = true ↔ digitsValue "000".toList = n) ∧
        ∃ value, a = .integer value none ∧ digitsValue value.toList = digitsValue "000".toList ∧
          Expr.ofDigits? value = some a := by
  have hzeros : IsDigits "000".toList := by decide
  have hzero : IsDigits "0".toList := by decide
  exact ⟨hzeros, hzero, integers_equal_iff.2 "000" "0" hzeros hzero⟩

end AlgebraText
