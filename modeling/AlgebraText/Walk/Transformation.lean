import AlgebraText.Walk.Transformer

/-!
# A catalogue of transformations

Transformers without a state of their own, each changing one or two kinds of node and leaving the
rest to the defaults.

## What this module delivers

* `Transformation`, the transformations by name, and `Transformation.apply`.
-/

set_option autoImplicit false

namespace AlgebraText

/-- The transformations of the catalogue. -/
inductive Transformation where
  /-- Leaves every node as it is. -/
  | identity
  /-- Puts an expression in place of a variable. -/
  | substitute (name : String) (replacement : Expr)
  /-- Turns subtractions into additions, outside of functions. -/
  | subtractionToAddition
  /-- Exchanges operators. -/
  | methods (table : List (Method × Method))
  /-- Negates every leaf. -/
  | negateLeaves
  /-- Leaves out negations. -/
  | dropNegations
  /-- Puts the argument of a function in place of its application. -/
  | inline (name : String)
  /-- Puts every sequence into a sequence of its own. -/
  | wrapSequences

namespace Transformation

/-- An addition in place of a subtraction. -/
def addInstead : Method → Method
  | .subtract => .add
  | method => method

/-- The operator that a table gives for an operator; the operator itself if it gives none. -/
def exchange (table : List (Method × Method)) (method : Method) : Method :=
  (table.lookup method).getD method

/-- The transformer of a transformation. -/
def transformer : Transformation → Transformer Id
  | identity => {}
  | substitute name replacement =>
    { var := fun n origin => if n = name then replacement else .var n origin }
  | subtractionToAddition =>
    { operation := fun o operand => ⟨o.method.map addInstead, operand, none⟩
      app := fun name body origin _ => .app name body origin }
  | methods table =>
    { operation := fun o operand => ⟨o.method.map (exchange table), operand, o.origin⟩ }
  | negateLeaves =>
    { integer := fun value origin => .neg (.integer value origin) none
      decimal := fun value origin => .neg (.decimal value origin) none
      var := fun name origin => .neg (.var name origin) none }
  | dropNegations => { neg := fun _ _ body => body }
  | inline name => { app := fun n _ origin body => if n = name then body else .app n body origin }
  | wrapSequences => { seq := fun _ origin operations => .chain (.seq operations origin) [] }

/-- What a transformation makes of an expression. -/
def apply (transformation : Transformation) (e : Expr) : Expr := e.transform transformation.transformer

end Transformation

end AlgebraText
