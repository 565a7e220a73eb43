/-!
# Decimal numerals

A numeral is a whole number of digits times a power of ten. It is written positionally, with the
digits before the point and the digits after it as two lists of characters.

## What this module delivers

* `Numeral`, and `digitsValue`, the number that a list of digits denotes;
* `Numeral.whole` and `Numeral.fraction`, the digits on the two sides of the point.
-/

set_option autoImplicit false

namespace AlgebraText

/-- The digit that a character denotes. -/
def digitValue (c : Char) : Nat := c.toNat - '0'.toNat

/-- The number that a list of decimal digits denotes. -/
def digitsValue (digits : List Char) : Nat :=
  digits.foldl (fun value c => 10 * value + digitValue c) 0

/-- The number `digits * 10 ^ exponent`. -/
structure Numeral where
  /-- The significant digits as one natural number. -/
  digits : Nat
  /-- The power of ten they are multiplied by. -/
  exponent : Int
deriving DecidableEq, Repr

namespace Numeral

/-- How many digits stand after the point. -/
def places (numeral : Numeral) : Nat := (-numeral.exponent).toNat

/-- All digits in writing order, with the zeros that fill up to the point on either side. At least
one of them stands before the point. -/
def padded (numeral : Numeral) : List Char :=
  let digits := Nat.toDigits 10 numeral.digits ++ List.replicate numeral.exponent.toNat '0'
  List.replicate (numeral.places + 1 - digits.length) '0' ++ digits

/-- The digits before the point. -/
def whole (numeral : Numeral) : List Char :=
  numeral.padded.take (numeral.padded.length - numeral.places)

/-- The digits after the point. -/
def fraction (numeral : Numeral) : List Char :=
  numeral.padded.drop (numeral.padded.length - numeral.places)

end Numeral

end AlgebraText
