import PatternClauses.CommandLine.Arguments
import PatternClauses.CommandLine.Commands
import PatternClauses.Consult
import PatternClauses.Diagnostic
import PatternClauses.Environment
import PatternClauses.Equivalence
import PatternClauses.Evaluation
import PatternClauses.Expression
import PatternClauses.Fault
import PatternClauses.Literal
import PatternClauses.Matching
import PatternClauses.Numeric.Binary64
import PatternClauses.Numeric.Decimal
import PatternClauses.Pattern
import PatternClauses.Pattern.ParseError
import PatternClauses.Pattern.Parser
import PatternClauses.RuntimeType
import PatternClauses.Text.Outline
import PatternClauses.Text.Quoted
import PatternClauses.Text.Unprintable
import PatternClauses.Text.WhiteSpace
import PatternClauses.Token
import PatternClauses.Token.Cursor
import PatternClauses.Token.Lexer
import PatternClauses.TypeExpr
import PatternClauses.Typing.Builtin
import PatternClauses.Typing.Nominal
import PatternClauses.Typing.Oracle
import PatternClauses.Value
import PatternClauses.Value.Comparison
import PatternClauses.Main
import PatternClauses.Proofs.Environment.Extension
import PatternClauses.Proofs.Matching.Atomicity
import PatternClauses.Proofs.Parsing.Grammar
import PatternClauses.Proofs.Parsing.Soundness
import PatternClauses.Proofs.Parsing.Completeness
import PatternClauses.Proofs.Parsing.Language
import PatternClauses.Proofs.Parsing.Irrefutable
import PatternClauses.Proofs.Lexing.Spelling
import PatternClauses.Proofs.Printing.Phrases
import PatternClauses.Proofs.Printing.RoundTrip
import PatternClauses.Proofs.Matching.Faults
import PatternClauses.Proofs.Matching.Order
import PatternClauses.Proofs.Environment.Merge
import PatternClauses.Proofs.Matching.Scope
import PatternClauses.Proofs.Typing.Membership
import PatternClauses.Proofs.Typing.Preorder
import PatternClauses.Proofs.Typing.Qualified
import PatternClauses.Proofs.Parsing.Distribution
import PatternClauses.Proofs.Lexing.Tiling
import PatternClauses.Proofs.Lexing.Spacing
import PatternClauses.Proofs.Lexing.Bytes
import PatternClauses.Proofs.Lexing.ByteReader
import PatternClauses.Proofs.Lexing.ByteLexer
import PatternClauses.Proofs.CommandLine.Literals
import PatternClauses.Proofs.CommandLine.Payloads
import PatternClauses.Proofs.Environment.Refinement
import PatternClauses.Proofs.Environment.Commits
import PatternClauses.Proofs.Environment.Rollback
import PatternClauses.Proofs.Equivalence.Nearest
import PatternClauses.Proofs.Matching.Grouping
import PatternClauses.Proofs.Equivalence.TieBreak
import PatternClauses.Proofs.Equivalence.Slots
import PatternClauses.Proofs.Evaluation.Operands
import PatternClauses.Proofs.Evaluation.Literals
import PatternClauses.Proofs.Matching.Shape
import PatternClauses.Proofs.Matching.Mutability
import PatternClauses.Proofs.Matching.Narrowing
import PatternClauses.Proofs.Numeric.Rounding
import PatternClauses.Proofs.Numeric.Shortest
import PatternClauses.Proofs.Printing.Floats
import PatternClauses.Proofs.Printing.Integers
import PatternClauses.Proofs.Printing.Literals
import PatternClauses.Proofs.Printing.Values
import PatternClauses.Proofs.Parsing.Leaves
import PatternClauses.Proofs.Parsing.Duplicates
import PatternClauses.Proofs.Parsing.Failures
import PatternClauses.Proofs.Parsing.Streaming
import PatternClauses.Proofs.Parsing.Labels
import PatternClauses.Proofs.Parsing.FrontPart
import PatternClauses.Proofs.Parsing.Truncation
