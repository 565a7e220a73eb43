import AlgebraText.Binary64
import AlgebraText.Binary64.Numeral

/-!
# The shortest text of a floating-point number

A number is written with as few digits as identify it. The decimals that are read as a given number
form an interval: from halfway to the neighbour below to halfway to the neighbour above, the ends
included exactly if the rank is even. Going from coarse to fine powers of ten, the first grid with
a point in the interval gives the digits; of two such points the nearer one is taken, and the upper
one if both are equally near.

The search ends, since every number is itself a point of the grid `10 ^ (-1074)`.

## What this module delivers

* `Binary64.readsBack`, the test whether a numeral lies in the interval of a rank;
* `Binary64.shortest`, the numeral that is written;
* `Binary64.text` and `Binary64.literal`, the positional texts without and with a forced point.
-/

set_option autoImplicit false

namespace AlgebraText

namespace Binary64

/-- Twice a numeral in units, compared with a whole number of units. -/
def compareTwice (numeral : Numeral) (units : Nat) : Ordering :=
  compare (2 * numeral.digits * Nat.pow 10 numeral.exponent.toNat * unitsPerOne)
    (units * Nat.pow 10 numeral.places)

/-- Whether a numeral lies in the interval of the decimals that are read as a positive rank. -/
def readsBack (rank : Nat) (numeral : Numeral) : Bool :=
  let lower := compareTwice numeral (unitsOf (rank - 1) + unitsOf rank)
  let upper := compareTwice numeral (unitsOf rank + unitsOf (rank + 1))
  (lower == .gt || (lower == .eq && rank % 2 == 0)) &&
    (upper == .lt || (upper == .eq && rank % 2 == 0))

/-- The largest multiple of `10 ^ exponent` that is not above a rank, as a numeral. -/
def below (rank : Nat) (exponent : Int) : Numeral :=
  ⟨unitsOf rank * Nat.pow 10 (-exponent).toNat / (unitsPerOne * Nat.pow 10 exponent.toNat),
    exponent⟩

/-- The next multiple of the same power of ten. -/
def next (numeral : Numeral) : Numeral := { numeral with digits := numeral.digits + 1 }

/-- The point of the grid `10 ^ exponent` that is written for a rank, if the grid has one. Of the two
points around the magnitude the nearer one comes first, the upper one if both are equally near. -/
def onGrid? (rank : Nat) (exponent : Int) : Option Numeral :=
  let down := below rank exponent
  let up := next down
  let middle : Numeral := { down with digits := 2 * down.digits + 1 }
  let nearerFirst :=
    if compareTwice middle (4 * unitsOf rank) = .gt then [down, up] else [up, down]
  nearerFirst.find? (readsBack rank)

/-- The first grid with a point, from the grid `10 ^ (n - 1074)` on to finer ones. -/
def search (rank : Nat) : Nat → Numeral
  | 0 => ⟨unitsOf rank * Nat.pow 5 1074, -1074⟩
  | n + 1 => (onGrid? rank ((n : Int) + 1 - 1074)).getD (search rank n)

/-- An exponent of ten whose power is above twice the magnitude of a rank, counted from `-1074`. No
multiple of it or of a larger power is in the interval of the rank. -/
def coarsest (rank : Nat) : Nat :=
  let twice : Int := (Nat.log2 (unitsOf rank) : Int) + 2 - 1074
  let exponent := (if 0 ≤ twice then twice * 31 / 100 else twice * 30 / 100) + 1
  (exponent + 1074).toNat

/-- The numeral that is written for a rank. -/
def shortest (rank : Nat) : Numeral :=
  if rank = 0 then ⟨0, 0⟩ else search rank (coarsest rank)

/-! ## Texts -/

/-- The sign of a number in writing. -/
def signText (negative : Bool) : String := if negative then "-" else ""

/-- The text of a number: no exponent, and a point only if digits follow it. -/
def text : Binary64 → String
  | nan => "NaN"
  | infinite negative => signText negative ++ "inf"
  | finite negative rank =>
    let numeral := shortest rank
    signText negative ++ String.ofList
      (numeral.whole ++ if numeral.fraction.isEmpty then [] else '.' :: numeral.fraction)

/-- The text of a number as a decimal literal: a finite number always has a point, with a zero
after it if no other digits follow. -/
def literal : Binary64 → String
  | finite negative rank =>
    let numeral := shortest rank
    signText negative ++ String.ofList
      (numeral.whole ++ '.' :: if numeral.fraction.isEmpty then ['0'] else numeral.fraction)
  | number => number.text

end Binary64

end AlgebraText
