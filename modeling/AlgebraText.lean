import AlgebraText.Binary64
import AlgebraText.Binary64.Numeral
import AlgebraText.Binary64.Reading
import AlgebraText.Binary64.Shortest
import AlgebraText.Event
import AlgebraText.Expr
import AlgebraText.Expr.BuildFailure
import AlgebraText.Expr.Builder
import AlgebraText.Expr.Equality
import AlgebraText.Expr.Latex
import AlgebraText.Expr.Literal
import AlgebraText.Expr.Printer
import AlgebraText.Json
import AlgebraText.Json.Expr
import AlgebraText.Json.Origin
import AlgebraText.Json.ParseTree
import AlgebraText.Method
import AlgebraText.NodeKind
import AlgebraText.ParseTree
import AlgebraText.Parser.Cursor
import AlgebraText.Parser.Failure
import AlgebraText.Parser.Grammar
import AlgebraText.Parser.Script
import AlgebraText.Proofs.Grammar.Derivation
import AlgebraText.Proofs.Grammar.Operand
import AlgebraText.Proofs.Parser.Recursion
import AlgebraText.Proofs.Parser.Steps
import AlgebraText.Reader
import AlgebraText.Report
import AlgebraText.Rule
import AlgebraText.Span
import AlgebraText.Token
import AlgebraText.Token.Lexer
import AlgebraText.Walk.Condition
import AlgebraText.Walk.Parents
import AlgebraText.Walk.Place
import AlgebraText.Walk.Query
import AlgebraText.Walk.Recorder
import AlgebraText.Walk.Transformation
import AlgebraText.Walk.Transformer
import AlgebraText.Walk.Visitor
import AlgebraText.Proofs.Grammar.Soundness
import AlgebraText.Proofs.Grammar.Exactness
import AlgebraText.Proofs.Binary64.Literal
import AlgebraText.Proofs.Expr.Spelling
import AlgebraText.Proofs.Expr.Building
import AlgebraText.Proofs.Expr.Denotation
import AlgebraText.Proofs.Expr.RoundTrip
import AlgebraText.Proofs.Expr.Equality
import AlgebraText.Proofs.Expr.Parentheses
import AlgebraText.Proofs.Expr.Decimals
import AlgebraText.Proofs.Grammar.Frontier
import AlgebraText.Proofs.Parser.Diagnosis
import AlgebraText.Proofs.Token.Spans
import AlgebraText.Proofs.Grammar.ViablePrefix
import AlgebraText.Proofs.Parser.Classification
import AlgebraText.Proofs.Expr.Totality
import AlgebraText.Proofs.Expr.Normalization
import AlgebraText.Proofs.Grammar.Losslessness
import AlgebraText.Proofs.Token.Slices
import AlgebraText.Proofs.Token.LongestMatch
import AlgebraText.Proofs.Token.Spacing
import AlgebraText.Proofs.Expr.Occurrence
import AlgebraText.Proofs.Expr.Provenance
import AlgebraText.Proofs.Expr.Transparency
import AlgebraText.Proofs.Expr.Spacing
import AlgebraText.Proofs.Latex.Flat
import AlgebraText.Proofs.Latex.Signs
import AlgebraText.Proofs.Latex.Reading
import AlgebraText.Proofs.Grammar.Rendering
import AlgebraText.Proofs.Expr.Construction
import AlgebraText.Proofs.Walk.Places
import AlgebraText.Proofs.Walk.Reach
import AlgebraText.Proofs.Walk.Calls
import AlgebraText.Proofs.Walk.Queries
import AlgebraText.Proofs.Walk.Ancestry
import AlgebraText.Proofs.Walk.Substitution
import AlgebraText.Proofs.Expr.Representative
import AlgebraText.Proofs.Latex.Brackets
import AlgebraText.Proofs.Parser.Noting
import AlgebraText.Proofs.Parser.Endings
import AlgebraText.Proofs.Parser.Programs
import AlgebraText.Proofs.Parser.Entries
import AlgebraText.Proofs.Parser.Singles
import AlgebraText.Proofs.Expr.Integers
import AlgebraText.Proofs.Binary64.Fewest
import AlgebraText.Proofs.Expr.DecimalText
import AlgebraText.Proofs.Json.Rereading
import AlgebraText.Proofs.Parser.Maximality
