/-!
# Binary floating-point numbers of 64 bits

A finite number is a sign and a rank: the magnitudes that 64 bits can hold are listed in ascending
order, zero first, and the rank is the place in that list. It is also what the 63 bits below the
sign bit say, read as a natural number. Every magnitude is a whole multiple of the least positive
one, `1 / 2^1074`, so `unitsOf` gives it as a natural number and all comparisons are exact.

There is one not-a-number.

## What this module delivers

* `Binary64`, with `Binary64.ofBits` and `Binary64.toBits`;
* `Binary64.unitsOf`, the magnitude of a rank in units of `1 / 2^1074`;
* `Binary64.equal`, numeric equality: the two zeros agree and not-a-number differs from itself.
-/

set_option autoImplicit false

namespace AlgebraText

namespace Binary64

/-- How many finite magnitudes there are. -/
abbrev magnitudes : Nat := 0x7FF0000000000000

/-- How many magnitudes lie between two neighbouring powers of two, the lower one included: the
fifty-second power of two. -/
abbrev binade : Nat := 0x10000000000000

/-- The reciprocal of the least positive magnitude. -/
abbrev unitsPerOne : Nat := Nat.pow 2 1074

/-- The magnitude of a rank in units of the least positive one. The first binade is spaced by one
unit, as are the ranks below it; from then on the spacing doubles with each binade. The formula
goes on past the last finite rank, where it gives the magnitudes of a wider range. -/
def unitsOf (rank : Nat) : Nat :=
  if rank < binade then rank
  else (binade + rank % binade) * Nat.pow 2 (rank / binade - 1)

/-- The weight of the sign bit. -/
abbrev signBit : Nat := 0x8000000000000000

end Binary64

/-- A floating-point number of 64 bits. -/
inductive Binary64 where
  /-- Not a number. -/
  | nan
  /-- An infinity. -/
  | infinite (negative : Bool)
  /-- A finite number; there are two zeros, one of each sign. -/
  | finite (negative : Bool) (rank : Fin Binary64.magnitudes)
deriving DecidableEq, Repr, Inhabited

namespace Binary64

/-- The positive zero. -/
def zero : Binary64 := finite false ⟨0, by decide⟩

/-- The number of a sign and a rank; ranks beyond the finite ones give an infinity. -/
def ofRank (negative : Bool) (rank : Nat) : Binary64 :=
  if h : rank < magnitudes then finite negative ⟨rank, h⟩ else infinite negative

/-- Neither an infinity nor not-a-number. -/
def isFinite : Binary64 → Bool
  | finite .. => true
  | _ => false

/-- A finite number whose sign is positive, zero included and negative zero excluded. -/
def isLiteral : Binary64 → Bool
  | finite false _ => true
  | _ => false

/-- The number that 64 bits encode, the bits given as a natural number. -/
def ofBits (bits : Nat) : Binary64 :=
  let negative := bits / signBit % 2 == 1
  let rank := bits % signBit
  if rank ≤ magnitudes then ofRank negative rank else nan

/-- The 64 bits of a number, as a natural number. -/
def toBits : Binary64 → Nat
  | nan => 0x7FF8000000000000
  | infinite negative => (if negative then signBit else 0) + magnitudes
  | finite negative rank => (if negative then signBit else 0) + rank.val

/-- Numeric equality. -/
def equal : Binary64 → Binary64 → Bool
  | finite negative₁ rank₁, finite negative₂ rank₂ =>
    rank₁ == rank₂ && (negative₁ == negative₂ || rank₁.val == 0)
  | infinite negative₁, infinite negative₂ => negative₁ == negative₂
  | _, _ => false

end Binary64

end AlgebraText
