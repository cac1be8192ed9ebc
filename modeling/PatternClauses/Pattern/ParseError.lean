import PatternClauses.Pattern
import PatternClauses.Token.Lexer

/-!
# Parse errors

Why a source is not a pattern: it has no tokens, a token is out of place or missing, a form that
can fail to match stands where only bindings may, or a name is bound twice.
-/

namespace PatternClauses

inductive Expected where
  | pattern
  | caseName
  | type
  | itemEnd
  | literal
  | endOfPattern
  | other (text : String)
  deriving DecidableEq

def Expected.text : Expected → String
  | .pattern => "pattern"
  | .caseName => "enum case name"
  | .type => "type"
  | .itemEnd => "',' or ')'"
  | .literal => "literal expression"
  | .endOfPattern => "end of pattern"
  | .other text => text

/-- The forms of pattern that can fail to match. -/
inductive RefutableForm where
  | typeCasting
  | enumCase
  | optional
  | expression
  deriving DecidableEq

def RefutableForm.text : RefutableForm → String
  | .typeCasting => "type-casting pattern"
  | .enumCase => "enum case pattern"
  | .optional => "optional pattern"
  | .expression => "expression pattern"

inductive ParseError where
  | lexical (error : LexError)
  | unexpectedToken (expected : Expected) (found : Lexeme)
  | unexpectedEnd (expected : Expected) (position : Nat)
  | illegalForm (form : RefutableForm) (span : Span)
  | duplicateBinding (duplicate : DuplicateBinding)
  deriving DecidableEq

def ParseError.diagnostic : ParseError → Diagnostic
  | .lexical error => error.diagnostic
  | .unexpectedToken expected found =>
    { message := "unexpected-token"
      code := "parser::unexpected_token"
      help := "Expected " ++ expected.text ++ ", got " ++ found.token.describe ++ " instead"
      labels := [⟨"Unexpected token: " ++ found.token.describe, found.span⟩] }
  | .unexpectedEnd expected position =>
    { message := "unexpected-eof"
      code := "parser::unexpected_eof"
      help := "Expected " ++ expected.text ++ ", pattern ended instead"
      labels := [⟨"Unexpected end of pattern", ⟨position, position⟩⟩] }
  | .illegalForm form span =>
    { message := "illegal-pattern-kind"
      code := "parser::illegal_pattern_kind"
      help := form.text ++ " can fail to match, only irrefutable patterns are allowed here"
      labels := [⟨"Refutable " ++ form.text ++ " is not allowed in a binding", span⟩] }
  | .duplicateBinding duplicate => duplicate.diagnostic

end PatternClauses
