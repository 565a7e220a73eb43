import AlgebraText.Binary64.Shortest
import AlgebraText.Expr

/-!
# Literals made in code

An integer literal is kept as its decimal digits, with no zero in front unless the number is zero,
so two literals of the same number have the same digits whatever their length. A decimal literal is
finite and not negative.

## What this module delivers

* `canonicalDigits?`, the digits of a literal without superfluous zeros;
* `Expr.ofDigits?`, `Expr.ofNat` and `Expr.ofDecimal`, the literals made in code, and
  `NotALiteral`, the failure of the last.
-/

set_option autoImplicit false

namespace AlgebraText

/-- The digits of a number without the zeros in front; none if the text is empty or holds anything
but decimal digits. -/
def canonicalDigits? (digits : String) : Option String :=
  let cs := digits.toList
  if cs.isEmpty || !cs.all Char.isDigit then none
  else
    let significant := cs.dropWhile (· == '0')
    some (if significant.isEmpty then "0" else String.ofList significant)

/-- A number that is no decimal literal. -/
structure NotALiteral where
  /-- The number. -/
  value : Binary64
deriving DecidableEq, Repr

/-- The message about a number that is no decimal literal. -/
def NotALiteral.message (failure : NotALiteral) : String :=
  "decimal literal must be finite and non-negative, got " ++ failure.value.text

namespace Expr

/-- The integer literal of a text of digits. -/
def ofDigits? (digits : String) : Option Expr :=
  (canonicalDigits? digits).map fun value => .integer value none

/-- The integer literal of a natural number. -/
def ofNat (value : Nat) : Expr := .integer (toString value) none

/-- The decimal literal of a number. Only finite numbers with a positive sign are literals. -/
def ofDecimal (value : Binary64) : Except NotALiteral Expr :=
  if value.isLiteral then .ok (.decimal value none) else .error ⟨value⟩

end Expr

end AlgebraText
