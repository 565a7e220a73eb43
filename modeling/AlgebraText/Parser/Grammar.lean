import AlgebraText.ParseTree
import AlgebraText.Parser.Cursor

/-!
# The grammar

One parser for each rule of the grammar. The rules that contain an expression take the parser for
expressions as an argument; `Parser.expression` ties the knot. An expression inside brackets is
always read after an opening bracket was consumed, so each turn of the recursion has fewer tokens
ahead.

Once the opening bracket of a parenthesis or of a function application has been consumed, the text
can be read in no other way, and every failure from there on is fatal. All other failures leave
room for an alternative.

## What this module delivers

* `Parser.chain`, `Parser.single`, `Parser.atom`, `Parser.paren`, `Parser.function`, `Parser.var`,
  `Parser.number`: the rules;
* `Parser.expression` and `Parser.wholeExpression`: an expression, and one that must be followed by
  nothing but blanks;
* `Nonterminal`, the rules that can be run by name.
-/

set_option autoImplicit false

namespace AlgebraText

namespace Parser

/-! ## Chains -/

/-- The operators and operands after the first operand of a chain. -/
def chainRest (rule : Rule) (operand : Parser ParseTree) : Parser (List Element) :=
  recurse fun again => do
    match ← accept rule rule.operators with
    | none => return []
    | some operator =>
      record (.operator rule operator.lexeme operator.span)
      let right ← operand
      let rest ← again
      return .token operator :: .node right :: rest

/-- One or more operands with the operators of the rule between them. A single operand without an
operator is returned as it is. -/
def chain (rule : Rule) (operand : Parser ParseTree) : Parser ParseTree := do
  let first ← operand
  match ← chainRest rule operand with
  | [] => return first
  | rest => return .ofChildren rule (.node first :: rest)

/-! ## Atoms -/

/-- The closing bracket that belongs to an opening one. Without it the failure points at both
places and is fatal. -/
def closing (rule : Rule) (kind : TokenKind) (cause : ParseCause) (opening : Token) :
    Parser Token := fun cursor =>
  match expect rule [kind] cursor with
  | .ok token later => .ok token later
  | .error _ stayed => .error ⟨rule, [opening.span, stayed.span], true, cause⟩ stayed

/-- An expression in parentheses. -/
def paren (expression : Parser ParseTree) : Parser ParseTree := do
  let opening ← expect .paren [.openParen]
  record (.paren opening.span)
  let body ← fatally (rewinding expression)
  let close ← closing .paren .closeParen .unclosedParenthesis opening
  return .ofChildren .paren [.token opening, .node body, .token close]

/-- A function applied to an expression in square brackets. -/
def function (expression : Parser ParseTree) : Parser ParseTree := do
  let name ← expect .function [.name]
  let opening ← expect .function [.openSquare]
  record (.function name.lexeme name.span)
  let body ← fatally (rewinding expression)
  let close ← closing .function .closeSquare .unclosedBracket opening
  return .ofChildren .function [.token name, .token opening, .node body, .token close]

/-- A variable. -/
def var : Parser ParseTree := do
  let name ← expect .var [.name]
  record (.var name.lexeme name.span)
  return .ofChildren .var [.token name]

/-- Fails fatally if a point stands directly after a number. -/
def noPointAfter (number : Token) : Parser Unit := fun cursor =>
  match cursor.current? with
  | some token =>
    if token.kind = .dot then
      .error ⟨.decimal, [number.span.through token.span], true, .malformedDecimal⟩ cursor
    else .ok () cursor
  | none => .ok () cursor

/-- The rule of a number, by the kind of its token. -/
def numberRule (kind : TokenKind) : Rule := if kind = .float then .decimal else .integer

/-- An integer or a decimal. -/
def number : Parser ParseTree := do
  let digits ← expect .integer [.int, .float]
  record (.number digits.lexeme digits.span)
  noPointAfter digits
  return .ofChildren (numberRule digits.kind) [.token digits]

/-- The failure where no operand starts. A point there is a decimal without its first digits. -/
def noOperand : Parser ParseTree := fun cursor =>
  match cursor.peek? with
  | none => .error (cursor.failure .single .unexpectedEof) cursor
  | some token =>
    if token.kind = .dot then .error (cursor.fatalFailure .decimal .malformedDecimal) cursor
    else .error (cursor.failure .single (.expectedExpr token.kind)) cursor

/-- An operand without its sign. -/
def atom (expression : Parser ParseTree) : Parser ParseTree :=
  firstOf
    [rewinding (paren expression), rewinding (function expression), rewinding var,
      rewinding number]
    noOperand

/-- An operand with an optional minus sign before it. -/
def single (expression : Parser ParseTree) : Parser ParseTree := do
  recordHere .single
  let minus ← accept .single [.sub]
  let operand ← atom expression
  return .ofChildren .single ((minus.map Element.token).toList ++ [.node operand])

/-! ## Expressions -/

/-- A chain of powers. -/
def power (expression : Parser ParseTree) : Parser ParseTree := chain .power (single expression)

/-- A chain of divisions. -/
def divide (expression : Parser ParseTree) : Parser ParseTree := chain .divide (power expression)

/-- A chain of multiplications. -/
def multiply (expression : Parser ParseTree) : Parser ParseTree :=
  chain .multiply (divide expression)

/-- A chain of additions and subtractions. -/
def additive (expression : Parser ParseTree) : Parser ParseTree :=
  chain .additive (multiply expression)

/-- An expression, given a parser for the expressions inside its brackets. -/
def expressionBody (inner : Parser ParseTree) : Parser ParseTree := do
  recordHere .expression
  additive inner

/-- An expression. -/
def expression : Parser ParseTree := recurse expressionBody

/-- Fails fatally if a significant token is left. -/
def nothingLeft : Parser Unit := fun cursor =>
  match cursor.peek? with
  | none => .ok () cursor
  | some _ => .error (cursor.fatalFailure .expression .expectedEof) cursor

/-- An expression followed by nothing but blanks. If the expression itself fails, the cursor goes
back; if text is left over, the cursor stays after the expression. -/
def wholeExpression : Parser ParseTree := do
  let tree ← rewinding expression
  nothingLeft
  return tree

end Parser

/-! ## Rules by name -/

/-- The rules that can be run on their own. -/
inductive Nonterminal where
  | expression
  | additive
  | multiply
  | divide
  | power
  | single
  | paren
  | function
  | var
  | number
deriving DecidableEq, Repr

namespace Nonterminal

/-- The name of a rule. -/
def label : Nonterminal → String
  | expression => "Expression"
  | additive => "Additive"
  | multiply => "Multiply"
  | divide => "Divide"
  | power => "Power"
  | single => "Single"
  | paren => "Paren"
  | function => "Function"
  | var => "Variable"
  | number => "Number"

/-- All rules, the loosest first. -/
def all : List Nonterminal :=
  [expression, additive, multiply, divide, power, single, paren, function, var, number]

/-- The rule with a given name. -/
def ofLabel? (text : String) : Option Nonterminal :=
  all.find? fun goal => goal.label == text

/-- The parser of a rule. -/
def parser : Nonterminal → Parser ParseTree
  | expression => Parser.expression
  | additive => Parser.additive Parser.expression
  | multiply => Parser.multiply Parser.expression
  | divide => Parser.divide Parser.expression
  | power => Parser.power Parser.expression
  | single => Parser.single Parser.expression
  | paren => Parser.paren Parser.expression
  | function => Parser.function Parser.expression
  | var => Parser.var
  | number => Parser.number

end Nonterminal

/-- The parse tree of a text, and the log of the run. -/
def runParser (text : String) : Except ParseFailure ParseTree × List Event :=
  match Parser.wholeExpression (Cursor.ofText text) with
  | .ok tree cursor => (.ok tree, cursor.events)
  | .error failure cursor => (.error failure, cursor.events)

/-- The parse tree of a text that is an expression. -/
def parseTree (text : String) : Except ParseFailure ParseTree := (runParser text).1

end AlgebraText
