import AlgebraText.Binary64.Shortest
import AlgebraText.Proofs.Binary64.Nearest
import AlgebraText.Proofs.Token.Words

/-!
# Decimal literals read back

The text of a finite number as a literal is two runs of digits around a point, and reading it gives
the number back. The digits are found by a search over ever finer grids; whatever grid it stops at,
the point it returns was tested to lie between the halfway points of the number (`readsBack`), and
where it never stops it returns the number exactly. Either way the number is the nearest one to its
text, so it is what reading finds.

## What this module delivers

* `nearest_shortest`: a number is the nearest to the numeral that is written for it;
* `read?_pointed`: two runs of digits around a point are read as the number nearest to their value;
* `isPointed_literal` and `read?_literal`: the text of a positive finite number, and what is read
  from it.
-/

set_option autoImplicit false

namespace AlgebraText

namespace Binary64

/-! ## The numeral that is written -/

/-- A rank is nearest to its own magnitude. -/
theorem nearest_unitsOf (rank den : Nat) (hden : 0 < den) :
    Nearest (unitsOf rank * den) den rank := by
  have habove : twiceBelow rank ≤ 2 * unitsOf rank ∧ 2 * unitsOf rank < twiceAbove rank := by
    have hprev : unitsOf (rank - 1) ≤ unitsOf rank := unitsOf_strictMono.monotone (by omega)
    have hnext : unitsOf rank < unitsOf (rank + 1) := unitsOf_strictMono (by omega)
    unfold twiceBelow twiceAbove
    omega
  have hassoc : 2 * (unitsOf rank * den) = 2 * unitsOf rank * den := (Nat.mul_assoc ..).symm
  refine ⟨?_, ?_, ?_⟩
  · rw [hassoc]
    exact Nat.mul_le_mul_right den habove.1
  · rw [hassoc]
    exact Nat.mul_le_mul_right den habove.2.le
  · rw [hassoc]
    rintro (hlow | hhigh)
    · -- only zero is its own lower halfway point
      have hsame := Nat.eq_of_mul_eq_mul_right hden hlow
      rcases Nat.eq_zero_or_pos rank with rfl | hpos
      · rfl
      · have hless : unitsOf (rank - 1) < unitsOf rank := unitsOf_strictMono (by omega)
        unfold twiceBelow at hsame
        omega
    · have hsame := Nat.eq_of_mul_eq_mul_right hden hhigh
      omega

/-- A numeral passes the test of a rank exactly if it lies between its halfway points. -/
theorem readsBack_iff_nearest {rank : Nat} {numeral : Numeral} :
    readsBack rank numeral = true ↔
      Nearest (numeral.digits * 10 ^ numeral.exponent.toNat * unitsPerOne) (10 ^ numeral.places)
        rank := by
  have htwice : 2 * numeral.digits * Nat.pow 10 numeral.exponent.toNat * unitsPerOne =
      2 * (numeral.digits * 10 ^ numeral.exponent.toNat * unitsPerOne) := by
    rw [Nat.mul_assoc 2, Nat.mul_assoc 2]
    rfl
  have hplaces : Nat.pow 10 numeral.places = 10 ^ numeral.places := rfl
  simp only [readsBack, compareTwice, htwice, hplaces, Bool.and_eq_true, Bool.or_eq_true,
    beq_iff_eq, Nat.compare_eq_gt, Nat.compare_eq_eq, Nat.compare_eq_lt]
  -- the test compares with the two halfway points and lets even ranks have them
  change (twiceBelow rank * _ < _ ∨ _ = twiceBelow rank * _ ∧ _) ∧
    (_ < twiceAbove rank * _ ∨ _ = twiceAbove rank * _ ∧ _) ↔ _
  constructor
  · rintro ⟨hlow, hhigh⟩
    refine ⟨?_, ?_, ?_⟩
    · omega
    · omega
    · omega
  · rintro ⟨hlow, hhigh, htie⟩
    omega

theorem readsBack_of_onGrid? {rank : Nat} {exponent : Int} {numeral : Numeral}
    (h : onGrid? rank exponent = some numeral) : readsBack rank numeral = true :=
  List.find?_some h

/-- On a grid as fine as the units a magnitude is written exactly. -/
theorem nearest_finest (rank places : Nat) :
    Nearest (unitsOf rank * 5 ^ places * 2 ^ places) (10 ^ places) rank := by
  have hexact : unitsOf rank * 5 ^ places * 2 ^ places = unitsOf rank * 10 ^ places := by
    rw [Nat.mul_assoc, ← mul_pow, show 5 * 2 = 10 from rfl]
  rw [hexact]
  exact nearest_unitsOf rank (10 ^ places) (by positivity)

/-- The last grid of the search is as fine as the units. -/
theorem search_zero (rank : Nat) : ∃ places : Nat, unitsPerOne = 2 ^ places ∧
    search rank 0 = ⟨unitsOf rank * 5 ^ places, -places⟩ := by
  refine ⟨1074, unitsPerOne_eq, ?_⟩
  rw [search, Nat.cast_ofNat]
  generalize 1074 = places
  rfl

theorem search_succ (rank steps : Nat) :
    search rank (steps + 1) =
      (onGrid? rank (steps + 1 - 1074)).getD (search rank steps) := by
  rw [search]

/-- Whatever the search returns, its rank is the nearest one. -/
theorem nearest_search (rank steps : Nat) :
    Nearest ((search rank steps).digits * 10 ^ (search rank steps).exponent.toNat * unitsPerOne)
      (10 ^ (search rank steps).places) rank := by
  induction steps with
  | zero =>
      -- no grid was fine enough but the last, which holds the magnitude itself
      obtain ⟨places, hunits, hlast⟩ := search_zero rank
      have hwhole : (-(places : Int)).toNat = 0 := by omega
      have hplaces : (- -(places : Int)).toNat = places := by omega
      rw [hlast, hunits, Numeral.places, hwhole, hplaces, pow_zero, Nat.mul_one]
      exact nearest_finest rank places
  | succ steps ih =>
      rw [search_succ]
      cases hgrid : onGrid? rank (steps + 1 - 1074) with
      | none => exact ih
      | some numeral => exact readsBack_iff_nearest.1 (readsBack_of_onGrid? hgrid)

/-- **A number is the nearest to the numeral that is written for it.** -/
theorem nearest_shortest (rank : Nat) :
    Nearest ((shortest rank).digits * 10 ^ (shortest rank).exponent.toNat * unitsPerOne)
      (10 ^ (shortest rank).places) rank := by
  unfold shortest
  split
  · rename_i hzero
    subst hzero
    refine nearest_zero ?_
    dsimp only
    rw [Nat.zero_mul, Nat.zero_mul]
    exact Nat.zero_le _
  · exact nearest_search rank _

end Binary64

/-! ## Digits -/

theorem digitsValue_eq (digits : List Char) :
    digitsValue digits = Nat.ofDigitChars 10 digits 0 := rfl

/-- A zero in front of digits does not change their value. -/
theorem digitsValue_zeros (count : Nat) (digits : List Char) :
    digitsValue (List.replicate count '0' ++ digits) = digitsValue digits := by
  rw [digitsValue_eq, Nat.ofDigitChars_append, Nat.ofDigitChars_replicate_zero]
  rfl

/-- A zero behind digits multiplies their value by ten. -/
theorem digitsValue_append_zeros (count : Nat) (digits : List Char) :
    digitsValue (digits ++ List.replicate count '0') = digitsValue digits * 10 ^ count := by
  rw [digitsValue_eq, Nat.ofDigitChars_append, Nat.ofDigitChars_replicate_zero, Nat.mul_comm]
  rfl

theorem digitsValue_toDigits (value : Nat) : digitsValue (Nat.toDigits 10 value) = value :=
  Nat.ofDigitChars_ten_toDigits

namespace Numeral

theorem isDigit_of_mem_padded {numeral : Numeral} {c : Char} (h : c ∈ numeral.padded) :
    c.isDigit = true := by
  simp only [padded, List.mem_append, List.mem_replicate] at h
  rcases h with ⟨-, rfl⟩ | h | ⟨-, rfl⟩
  · rfl
  · exact Nat.isDigit_of_mem_toDigits (by decide) (by decide) h
  · rfl

/-- The digits on both sides of the point spell the value, without the point. -/
theorem digitsValue_padded (numeral : Numeral) :
    digitsValue numeral.padded = numeral.digits * 10 ^ numeral.exponent.toNat := by
  unfold padded
  rw [digitsValue_zeros, digitsValue_append_zeros, digitsValue_toDigits]

theorem places_lt_length_padded (numeral : Numeral) :
    numeral.places < numeral.padded.length := by
  unfold padded
  simp only [List.length_append, List.length_replicate]
  omega

theorem whole_append_fraction (numeral : Numeral) :
    numeral.whole ++ numeral.fraction = numeral.padded := List.take_append_drop ..

theorem length_fraction (numeral : Numeral) : numeral.fraction.length = numeral.places := by
  have hlength := places_lt_length_padded numeral
  unfold fraction
  rw [List.length_drop]
  omega

theorem isDigits_whole (numeral : Numeral) : IsDigits numeral.whole := by
  refine ⟨?_, fun c hmem => isDigit_of_mem_padded (List.mem_of_mem_take hmem)⟩
  have hlength := places_lt_length_padded numeral
  apply List.ne_nil_of_length_pos
  unfold whole
  rw [List.length_take]
  omega

theorem isDigit_of_mem_fraction {numeral : Numeral} {c : Char} (h : c ∈ numeral.fraction) :
    c.isDigit = true := isDigit_of_mem_padded (List.mem_of_mem_drop h)

end Numeral

/-! ## Texts -/

namespace Binary64

theorem takeSign_of_isDigit {c : Char} (h : c.isDigit = true) (cs : List Char) :
    takeSign (c :: cs) = (false, c :: cs) := by
  unfold takeSign
  split
  · rename_i hshape
    obtain ⟨rfl, -⟩ := List.cons.inj hshape
    cases h
  · rename_i hshape
    obtain ⟨rfl, -⟩ := List.cons.inj hshape
    cases h
  · rfl

/-- No word for an infinity or for not-a-number starts with a digit. -/
theorem toLower_of_isDigit {c : Char} (h : c.isDigit = true) : c.toLower.isDigit = true := by
  have hrange : 48 ≤ c.toNat ∧ c.toNat ≤ 57 := Char.isDigit_iff_toNat.1 h
  have hsame : c.toLower = c := by
    unfold Char.toLower
    rw [dif_neg]
    intro hupper
    have hlow := UInt32.le_iff_toNat_le.1 hupper.1
    change 65 ≤ c.toNat at hlow
    omega
  rw [hsame]
  exact h

/-- **Two runs of digits around a point are read as the number nearest to their value.** -/
theorem read?_pointed {whole fraction : List Char} (hwhole : IsDigits whole)
    (hfraction : ∀ c ∈ fraction, c.isDigit = true) :
    read? (whole ++ '.' :: fraction) =
      some (ofRatio false (digitsValue (whole ++ fraction)) (10 ^ fraction.length)) := by
  obtain ⟨hne, hdigits⟩ := hwhole
  obtain ⟨c, more, rfl⟩ := List.exists_cons_of_ne_nil hne
  have hc := hdigits c List.mem_cons_self
  -- the words for infinities and for not-a-number are tried first and start with letters
  have hfirst : ∀ word : List Char, word.head?.any Char.isDigit = false →
      (c :: (more ++ '.' :: fraction)).map Char.toLower ≠ word := by
    rintro word hword rfl
    rw [List.map_cons, List.head?_cons, Option.any_some, toLower_of_isDigit hc] at hword
    cases hword
  have hnumeral : readNumeral? (c :: more ++ '.' :: fraction) =
      some ⟨digitsValue (c :: more ++ fraction), -(fraction.length : Int)⟩ := by
    unfold readNumeral?
    rw [List.takeWhile_append_of_pos hdigits, List.dropWhile_append_of_pos hdigits]
    have hpoint : Char.isDigit '.' = false := by decide
    simp [hpoint, takeFraction, readExponent?, List.takeWhile_eq_self_iff.2 hfraction,
      List.dropWhile_eq_nil_iff.2 hfraction]
  unfold read?
  rw [List.cons_append, takeSign_of_isDigit hc]
  dsimp only
  rw [if_neg (by
    rintro (hinf | hinf)
    · exact hfirst _ (by decide) hinf
    · exact hfirst _ (by decide) hinf), if_neg (hfirst _ (by decide)),
    ← List.cons_append, hnumeral, Option.map_some, ofNumeral_eq_ofRatio]
  simp [Numeral.places]

theorem exists_rank_of_isLiteral {value : Binary64} (h : value.isLiteral = true) :
    ∃ rank, value = finite false rank := by
  match value, h with
  | finite false rank, _ => exact ⟨rank, rfl⟩

/-- The text of a positive finite number is its digits around a point. -/
theorem toList_literal (rank : Fin magnitudes) :
    (finite false rank).literal.toList = (shortest rank).whole ++
      '.' :: if (shortest rank).fraction.isEmpty then ['0'] else (shortest rank).fraction := by
  simp [literal, signText]

theorem isPointed_literal (rank : Fin magnitudes) :
    IsPointed (finite false rank).literal.toList := by
  refine ⟨_, _, (shortest rank).isDigits_whole, ?_, toList_literal rank⟩
  split
  · exact ⟨by simp, by simp⟩
  · rename_i hne
    refine ⟨?_, fun c hmem => Numeral.isDigit_of_mem_fraction hmem⟩
    simpa using hne

/-- **A decimal literal reads back.** -/
theorem read?_literal (rank : Fin magnitudes) :
    read? (finite false rank).literal.toList = some (finite false rank) := by
  -- the rank is a finite one, so the nearest number is neither rounded away nor an infinity
  have hrank : ∀ {num places : Nat}, Nearest (num * unitsPerOne) (10 ^ places) rank →
      ofRatio false num (10 ^ places) = finite false rank := by
    intro num places hnearest
    rw [ofRatio, rankOfRatio_eq (by positivity) hnearest]
    exact dif_pos rank.isLt
  have hnearest := nearest_shortest rank
  rw [toList_literal]
  generalize shortest rank.val = numeral at hnearest
  rw [← numeral.digitsValue_padded] at hnearest
  by_cases hempty : numeral.fraction.isEmpty = true
  · -- the zero behind the point expands the quotient by ten
    have hfraction : numeral.fraction = [] := List.isEmpty_iff.1 hempty
    have hplaces : numeral.places = 0 := by
      rw [← numeral.length_fraction, hfraction, List.length_nil]
    have hwhole : numeral.whole = numeral.padded := by
      rw [← numeral.whole_append_fraction, hfraction, List.append_nil]
    rw [if_pos hempty, read?_pointed numeral.isDigits_whole (by simp), hwhole]
    have hvalue := digitsValue_append_zeros 1 numeral.padded
    rw [List.replicate_one] at hvalue
    rw [hvalue, List.length_singleton]
    rw [hplaces] at hnearest
    have hexpanded := hnearest.mul (10 ^ 1) (by decide)
    rw [Nat.mul_right_comm, ← pow_add] at hexpanded
    exact congrArg some (hrank hexpanded)
  · rw [if_neg hempty, read?_pointed numeral.isDigits_whole
      (fun c hmem => Numeral.isDigit_of_mem_fraction hmem), numeral.whole_append_fraction,
      numeral.length_fraction]
    exact congrArg some (hrank hnearest)

end Binary64

end AlgebraText
