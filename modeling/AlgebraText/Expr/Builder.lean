import AlgebraText.Binary64.Reading
import AlgebraText.Event
import AlgebraText.Expr.BuildFailure
import AlgebraText.Expr.Literal
import AlgebraText.ParseTree

/-!
# Building expressions from parse trees

Parentheses disappear: a parenthesized node builds to what it encloses. An operand becomes a
negation only if it has a minus sign. A chain becomes a sequence whose first operation has no
operator. Every node built carries the rule and the span it came from.

Trees made by hand may have any shape, so every expectation about children is checked, and the
first one that fails, from left to right, is reported.

## What this module delivers

* `ParseTree.build`, the expression of a parse tree;
* `ParseTree.buildAll`, the expressions of several trees up to the first failure;
* `ParseTree.buildEvents`, the log of a build.
-/

set_option autoImplicit false

namespace AlgebraText

/-- The node does not have the children its rule calls for. -/
def BuildFailure.shape (rule : Rule) (span : Span) (expected : String) : BuildFailure :=
  ⟨rule, span, .unexpectedShape rule expected⟩

/-- The one token of a literal, which must be of the given kind. -/
def literalToken (rule : Rule) (span : Span) (kind : TokenKind) :
    List Element → Except BuildFailure Token
  | [.token t] =>
    if t.kind = kind then .ok t else .error (.shape rule span "a single literal token")
  | _ => .error (.shape rule span "a single literal token")

/-- The literal of an integer node. -/
def buildInteger (span : Span) (children : List Element) : Except BuildFailure Expr := do
  let token ← literalToken .integer span .int children
  match canonicalDigits? token.lexeme with
  | some value => .ok (.integer value (some ⟨.integer, span⟩))
  | none => .error ⟨.integer, span, .invalidLiteral token.lexeme⟩

/-- The literal of a decimal node. -/
def buildDecimal (span : Span) (children : List Element) : Except BuildFailure Expr := do
  let token ← literalToken .decimal span .float children
  match Binary64.read? token.lexeme.toList with
  | some value => .ok (.decimal value (some ⟨.decimal, span⟩))
  | none => .error ⟨.decimal, span, .invalidLiteral token.lexeme⟩

/-- The variable of a variable node. -/
def buildVar (span : Span) (children : List Element) : Except BuildFailure Expr := do
  let token ← literalToken .var span .name children
  .ok (.var token.lexeme (some ⟨.var, span⟩))

/-- The operator of a token in a chain, if it belongs to the level of the chain. -/
def chainMethod? (rule : Rule) (kind : TokenKind) : Option Method :=
  (Method.ofToken? kind).filter fun method => method.rule == rule

/-- The failure of a chain that does not alternate operands and operators. -/
def chainShape (rule : Rule) (span : Span) : BuildFailure :=
  .shape rule span "operands separated by operators"

mutual

/-- The expression of a parse tree. -/
def ParseTree.build : ParseTree → Except BuildFailure Expr
  | ⟨rule, span, children⟩ =>
    match rule with
    | .integer => buildInteger span children
    | .decimal => buildDecimal span children
    | .var => buildVar span children
    | .function => Element.buildFunction span children
    | .paren => Element.buildParen span children
    | .single => Element.buildSingle span children
    | .additive => Element.buildChain .additive span children
    | .multiply => Element.buildChain .multiply span children
    | .divide => Element.buildChain .divide span children
    | .power => Element.buildChain .power span children
    | .expression => .error (.shape .expression span "a concrete grammar rule")

/-- The application of a function node: a name, a bracket, a node and a bracket. -/
def Element.buildFunction (span : Span) : List Element → Except BuildFailure Expr
  | [.token name, .token _, .node body, .token _] =>
    if name.kind = .name then do
      let argument ← body.build
      .ok (.app name.lexeme argument (some ⟨.function, span⟩))
    else .error (.shape .function span "`name[expression]`")
  | _ => .error (.shape .function span "`name[expression]`")

/-- What the node between two tokens builds to. -/
def Element.buildParen (span : Span) : List Element → Except BuildFailure Expr
  | [.token _, .node inner, .token _] => inner.build
  | _ => .error (.shape .paren span "`(expression)`")

/-- What an operand builds to, negated if a minus sign stands before it. -/
def Element.buildSingle (span : Span) : List Element → Except BuildFailure Expr
  | [.node operand] => operand.build
  | [.token minus, .node operand] =>
    if minus.kind = .sub then do
      let body ← operand.build
      .ok (.neg body (some ⟨.single, span⟩))
    else .error (.shape .single span "an operand with an optional leading `-`")
  | _ => .error (.shape .single span "an operand with an optional leading `-`")

/-- The sequence of a chain node: an operand, and at least one operator with its operand. -/
def Element.buildChain (rule : Rule) (span : Span) : List Element → Except BuildFailure Expr
  | .node first :: rest => do
    let operand ← first.build
    let links ← Element.buildLinks rule span rest
    if links.isEmpty then .error (chainShape rule span)
    else .ok (.seq (⟨none, operand, some ⟨rule, first.span⟩⟩ :: links) (some ⟨rule, span⟩))
  | _ => .error (chainShape rule span)

/-- The operations after the first of a chain, from operators and operands in turn. -/
def Element.buildLinks (rule : Rule) (span : Span) :
    List Element → Except BuildFailure (List Operation)
  | [] => .ok []
  | .node _ :: _ => .error (chainShape rule span)
  | .token operator :: rest =>
    match chainMethod? rule operator.kind with
    | none => .error ⟨rule, operator.span, .unknownOperator rule operator.lexeme⟩
    | some method =>
      match rest with
      | .node right :: more => do
        let operand ← right.build
        let links ← Element.buildLinks rule span more
        .ok (⟨some method, operand, some ⟨rule, operator.span.through right.span⟩⟩ :: links)
      | _ => .error (chainShape rule span)

end

namespace ParseTree

/-- The expressions of several trees, up to the first failure. -/
def buildAll (trees : List ParseTree) : Except BuildFailure (List Expr) := trees.mapM build

/-- The log of a build: every node is visited once, each before the nodes below it. -/
def buildEvents (tree : ParseTree) : List Event :=
  tree.preorder.map fun node => .building node.rule node.span

end ParseTree

end AlgebraText
