import AlgebraText.Expr.Printer

/-!
# LaTeX

Expressions are rendered as LaTeX math: powers as superscripts, divisions as fractions, function
names upright, and groups in growing parentheses. Numerators, denominators and exponents are
grouped by their braces and need no parentheses.

A sequence is rendered from left to right: the text of the links so far is wrapped as the base of
the next power or as the numerator of the next fraction, or stays as it is on the left of the next
operator.

## What this module delivers

* `Expr.latex`, `Operation.latex` and `Node.latex`.
-/

set_option autoImplicit false

namespace AlgebraText

/-- A text in braces. -/
def braced (text : String) : String := "\x7b" ++ text ++ "\x7d"

/-- A text in growing parentheses, if they are needed. -/
def grouped (needed : Bool) (text : String) : String :=
  if needed then "\\left(" ++ text ++ "\\right)" else text

/-- The text of the links so far with one more link after it. The operand is given twice: plain,
and grouped as the sequence requires. A power of a power has its base in braces. -/
def latexLink (soFar : String) (previous method : Option Method) (plain group : String) : String :=
  match method with
  | some .power =>
    (if previous = some .power then braced soFar else soFar) ++ "^" ++ braced plain
  | some .divide => "\\frac" ++ braced soFar ++ braced plain
  | some .multiply => soFar ++ " \\cdot " ++ group
  | some other => soFar ++ " " ++ other.symbol ++ " " ++ group
  | none => soFar ++ group

mutual

/-- The LaTeX text of an expression. -/
def Expr.latex : Expr → String
  | .integer value _ => value
  | .decimal value _ => value.literal
  | .var name _ => name
  | .app name body _ => "\\mathrm" ++ braced name ++ grouped true body.latex
  | .neg body _ => "-" ++ grouped body.needsParensNegated body.latex
  | .seq operations _ => Operation.latexFirst (Operation.loosest? operations) operations

/-- The LaTeX text of a sequence. The first operand is the numerator of a fraction, and so not
grouped, if a division follows it. -/
def Operation.latexFirst (enclosing : Option Nat) : List Operation → String
  | [] => ""
  | ⟨_, operand, _⟩ :: rest =>
    let numerator := rest.head?.bind Operation.method == some .divide
    Operation.latexRest enclosing
      (grouped (!numerator && operand.needsParens enclosing) operand.latex) none rest

/-- The LaTeX text of a sequence, given the text of its links so far and the last operator. -/
def Operation.latexRest (enclosing : Option Nat) (soFar : String) (previous : Option Method) :
    List Operation → String
  | [] => soFar
  | ⟨method, operand, _⟩ :: rest =>
    Operation.latexRest enclosing
      (latexLink soFar previous method operand.latex
        (grouped (operand.needsParens enclosing) operand.latex))
      method rest

end

/-- The LaTeX text of an operation on its own. -/
def Operation.latex (operation : Operation) : String :=
  match operation.method with
  | some .power => "^" ++ braced operation.operand.latex
  | some .multiply => " \\cdot " ++ operation.operand.latex
  | some method => " " ++ method.symbol ++ " " ++ operation.operand.latex
  | none => operation.operand.latex

/-- The LaTeX text of a node. -/
def Node.latex : Node → String
  | .expr e => e.latex
  | .operation o => o.latex

end AlgebraText
