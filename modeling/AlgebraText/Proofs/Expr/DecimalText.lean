import AlgebraText.Proofs.Expr.Phrase
import AlgebraText.Proofs.Token.LongestMatch

/-!
# Decimal literals keep their bits

A floating-point number goes through a text and comes back: it is printed with the digits that
identify it, the text is one token however many digits there are, and the literal built from this
token is the number again. The bits of a number with a positive sign are its rank, so nothing of
them is lost, also not where the number is zero or lies below the first binade.

## What this module delivers

* `Binary64.isLiteral_ofBits_iff`: the bits of the numbers that are literals;
* `tokenize_print_decimal`: the text of a literal is one token;
* `decimal_text_keeps_bits`: printing, tokenizing and building keep the bits.
-/

set_option autoImplicit false

namespace AlgebraText

/-! ## Bits -/

namespace Binary64

/-- The bits of a finite number with a positive sign are its rank. -/
theorem ofBits_of_lt {bits : Nat} (hfinite : bits < magnitudes) :
    ofBits bits = finite false ⟨bits, hfinite⟩ := by
  have hsign : bits / signBit = 0 := Nat.div_eq_of_lt (hfinite.trans (by decide))
  have hrank : bits % signBit = bits := Nat.mod_eq_of_lt (hfinite.trans (by decide))
  simp only [ofBits, hsign, hrank]
  rw [if_pos hfinite.le, ofRank, dif_pos hfinite]
  rfl

theorem isLiteral_ofRank {negative : Bool} {rank : Nat}
    (h : (ofRank negative rank).isLiteral = true) : negative = false ∧ rank < magnitudes := by
  unfold ofRank at h
  split at h
  · rename_i hfinite
    cases negative with
    | false => exact ⟨rfl, hfinite⟩
    | true => cases h
  · cases h

/-- **The literals are the numbers whose bits are below those of the infinity.** -/
theorem isLiteral_ofBits_iff {bits : Nat} (hbits : bits < 2 ^ 64) :
    (ofBits bits).isLiteral = true ↔ bits < magnitudes := by
  constructor
  · intro h
    unfold ofBits at h
    dsimp only at h
    split at h
    · obtain ⟨hsign, hrank⟩ := isLiteral_ofRank h
      rw [beq_eq_false_iff_ne] at hsign
      -- without the sign bit the bits are those of the rank
      have hzero : bits / signBit = 0 := by
        simp only [signBit] at hsign ⊢
        omega
      rwa [Nat.mod_eq_of_lt (Nat.lt_of_div_eq_zero (by decide) hzero)] at hrank
    · cases h
  · intro h
    rw [ofBits_of_lt h]
    rfl

end Binary64

/-! ## Texts -/

/-- The text of a literal is a number with a point, and so it is one token. -/
theorem tokenize_print_decimal {value : Binary64} (h : value.isLiteral = true)
    (origin : Option Origin) :
    IsPointed (Expr.decimal value origin).print.toList ∧
      tokenize (Expr.decimal value origin).print =
        [⟨.float, (Expr.decimal value origin).print,
          ⟨0, (Expr.decimal value origin).print.utf8ByteSize⟩⟩] := by
  obtain ⟨rank, rfl⟩ := Binary64.exists_rank_of_isLiteral h
  have hpointed := Binary64.isPointed_literal rank
  rw [Expr.print]
  exact ⟨hpointed, tokenize_of_matches hpointed (by decide)⟩

/-- **A decimal literal keeps its bits through its text.** The text of any finite number with a
positive sign is digits, a point and digits, and it is one token. Building that token, at whatever
place it stands, or reading the text gives a decimal with the same bits. -/
theorem decimal_text_keeps_bits {bits : Nat} (hbits : bits < 2 ^ 64)
    (hliteral : (Binary64.ofBits bits).isLiteral = true) (origin : Option Origin) :
    ∃ text, (Expr.decimal (Binary64.ofBits bits) origin).print = text ∧ IsPointed text.toList ∧
      tokenize text = [⟨.float, text, ⟨0, text.utf8ByteSize⟩⟩] ∧
      ∃ back : Binary64, back.toBits = bits ∧
        (∀ span, (ParseTree.ofChildren .decimal [.token ⟨.float, text, span⟩]).build =
          .ok (.decimal back (some ⟨.decimal, span⟩))) ∧
        parse text = .ok (.decimal back (some ⟨.decimal, ⟨0, text.utf8ByteSize⟩⟩)) := by
  have hfinite := (Binary64.isLiteral_ofBits_iff hbits).1 hliteral
  obtain ⟨hpointed, htokens⟩ := tokenize_print_decimal hliteral origin
  have hread : Binary64.read? (Expr.decimal (Binary64.ofBits bits) origin).print.toList =
      some (.finite false ⟨bits, hfinite⟩) := by
    rw [Expr.print, Binary64.ofBits_of_lt hfinite]
    exact Binary64.read?_literal _
  -- from here on all that matters of the text is what is read from it
  generalize (Expr.decimal (Binary64.ofBits bits) origin).print = text at hpointed htokens hread
  have hbuild : ∀ span, (ParseTree.ofChildren .decimal [.token ⟨.float, text, span⟩]).build =
      .ok (.decimal (.finite false ⟨bits, hfinite⟩) (some ⟨.decimal, span⟩)) :=
    fun span => ParseTree.build_decimal rfl hread
  have hphrase : Phrase 7 [⟨.float, text, ⟨0, text.utf8ByteSize⟩⟩]
      (.decimal (.finite false ⟨bits, hfinite⟩) (some ⟨.decimal, ⟨0, text.utf8ByteSize⟩⟩)) :=
    .decimal rfl hread
  refine ⟨text, rfl, hpointed, htokens, .finite false ⟨bits, hfinite⟩, ?_, hbuild, ?_⟩
  · exact Nat.zero_add bits
  · rw [parse_eq_ok_iff_phrase, htokens]
    exact hphrase.of_le (Nat.le_refl 2) (by decide)

/-- The largest finite number. Its text has 309 digits before the point. -/
theorem decimal_text_keeps_bits_largest :
    0x7FEFFFFFFFFFFFFF < 2 ^ 64 ∧ (Binary64.ofBits 0x7FEFFFFFFFFFFFFF).isLiteral = true ∧
      ∃ text, (Expr.decimal (Binary64.ofBits 0x7FEFFFFFFFFFFFFF) none).print = text ∧
        IsPointed text.toList ∧ tokenize text = [⟨.float, text, ⟨0, text.utf8ByteSize⟩⟩] ∧
        ∃ back : Binary64, back.toBits = 0x7FEFFFFFFFFFFFFF ∧
          (∀ span, (ParseTree.ofChildren .decimal [.token ⟨.float, text, span⟩]).build =
            .ok (.decimal back (some ⟨.decimal, span⟩))) ∧
          parse text = .ok (.decimal back (some ⟨.decimal, ⟨0, text.utf8ByteSize⟩⟩)) := by
  have hbits : 0x7FEFFFFFFFFFFFFF < 2 ^ 64 := by decide
  have hliteral : (Binary64.ofBits 0x7FEFFFFFFFFFFFFF).isLiteral = true := by decide
  exact ⟨hbits, hliteral, decimal_text_keeps_bits hbits hliteral none⟩

end AlgebraText
