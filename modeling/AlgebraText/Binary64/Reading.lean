import AlgebraText.Binary64
import AlgebraText.Binary64.Numeral

/-!
# Reading floating-point numbers

A decimal text stands for a rational number; the number read is the one nearest to it, and of two
that are equally near the one of even rank. Texts beyond the finite range give an infinity.

## What this module delivers

* `roundHalfEven`, a quotient rounded to the nearest whole number;
* `Binary64.ofRatio`, the number nearest to a quotient;
* `Binary64.ofNumeral`, the number nearest to a decimal numeral;
* `Binary64.read?`, the reader of texts.
-/

set_option autoImplicit false

namespace AlgebraText

/-- The whole number nearest to `num / den`; of two equally near, the even one. -/
def roundHalfEven (num den : Nat) : Nat :=
  let quotient := num / den
  let remainder := num % den
  if 2 * remainder < den then quotient
  else if den < 2 * remainder then quotient + 1
  else if quotient % 2 = 0 then quotient
  else quotient + 1

namespace Binary64

/-- The rank nearest to the magnitude `num / den`, on the list of ranks that goes on without end.
The quotient is scaled so that its whole part has 53 binary digits, or fewer among the ranks that
are spaced by one unit, and rounded there. -/
def rankOfRatio (num den : Nat) : Nat :=
  let scaled := num * unitsPerOne
  let shift := Nat.log2 (scaled / den) - 52
  shift * binade + roundHalfEven scaled (den * Nat.pow 2 shift)

/-- The number nearest to `num / den` with the given sign. -/
def ofRatio (negative : Bool) (num den : Nat) : Binary64 := ofRank negative (rankOfRatio num den)

/-- The number nearest to a numeral with the given sign. Exponents far outside the range of finite
numbers are decided without computing the power of ten. -/
def ofNumeral (negative : Bool) (numeral : Numeral) : Binary64 :=
  if numeral.digits = 0 then ofRank negative 0
  else if 400 < numeral.exponent then infinite negative
  else if (Nat.log2 numeral.digits : Int) + 3 * numeral.exponent < -1100 then ofRank negative 0
  else ofRatio negative (numeral.digits * Nat.pow 10 numeral.exponent.toNat)
    (Nat.pow 10 numeral.places)

/-- The number nearest to an integer. -/
def ofInt (value : Int) : Binary64 := ofNumeral (value < 0) ⟨value.natAbs, 0⟩

/-! ## Texts -/

/-- A sign that may stand at the head of a text. -/
def takeSign : List Char → Bool × List Char
  | '+' :: rest => (false, rest)
  | '-' :: rest => (true, rest)
  | text => (false, text)

/-- A run of digits that is the whole text. -/
def readDigits? (text : List Char) : Option Nat :=
  if text.isEmpty || !text.all Char.isDigit then none else some (digitsValue text)

/-- The exponent part of a number: nothing, or the letter, an optional sign and digits. -/
def readExponent? : List Char → Option Int
  | [] => some 0
  | letter :: rest =>
    if letter = 'e' ∨ letter = 'E' then
      let (negative, digits) := takeSign rest
      (readDigits? digits).map fun value => if negative then -(value : Int) else value
    else none

/-- What follows the digits before the point: the digits after it, if there is one, and the rest. -/
def takeFraction : List Char → List Char × List Char
  | '.' :: rest => (rest.takeWhile Char.isDigit, rest.dropWhile Char.isDigit)
  | rest => ([], rest)

/-- An unsigned number: digits with an optional point among or around them, at least one digit,
and an optional exponent. -/
def readNumeral? (text : List Char) : Option Numeral :=
  let whole := text.takeWhile Char.isDigit
  let (fraction, rest) := takeFraction (text.dropWhile Char.isDigit)
  if whole.isEmpty && fraction.isEmpty then none
  else (readExponent? rest).map fun exponent =>
    ⟨digitsValue (whole ++ fraction), exponent - fraction.length⟩

/-- The number that a text denotes: an optional sign, then an unsigned number or one of the words
`inf`, `infinity` and `nan` in any case of letters. -/
def read? (text : List Char) : Option Binary64 :=
  let (negative, unsigned) := takeSign text
  let word := unsigned.map Char.toLower
  if word = "inf".toList ∨ word = "infinity".toList then some (infinite negative)
  else if word = "nan".toList then some nan
  else (readNumeral? unsigned).map (ofNumeral negative)

end Binary64

end AlgebraText
