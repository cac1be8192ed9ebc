import PatternClauses.Numeric.Decimal
import PatternClauses.Text.Outline
import PatternClauses.Diagnostic

/-!
# Tokens

The words of the pattern language, and lexemes: tokens with their place in the source.
-/

namespace PatternClauses

inductive Token where
  | identifier (name : String)
  | integer (value : Int64)
  | float (value : Binary64)
  | boolean (value : Bool)
  | string (value : String)
  | nilKeyword
  | underscore
  | letKeyword
  | varKeyword
  | isKeyword
  | asKeyword
  | leftParen
  | rightParen
  | comma
  | colon
  | dot
  | questionMark
  | minus
  | closedRange
  | halfOpenRange
  deriving DecidableEq

/-- A token and the run of the source that spells it. -/
structure Lexeme where
  token : Token
  span : Span
  deriving DecidableEq

namespace Token

def keywords : List (String × Token) :=
  [("_", underscore), ("let", letKeyword), ("var", varKeyword), ("is", isKeyword),
    ("as", asKeyword), ("true", boolean true), ("false", boolean false), ("nil", nilKeyword)]

def ofWord (word : String) : Token := (keywords.lookup word).getD (.identifier word)

example : ofWord "let" = .letKeyword := by decide
example : ofWord "lets" = .identifier "lets" := by decide

/-- Equal up to the value that a token carries. -/
def sameKind : Token → Token → Bool
  | .identifier _, .identifier _ => true
  | .integer _, .integer _ => true
  | .float _, .float _ => true
  | .boolean _, .boolean _ => true
  | .string _, .string _ => true
  | left, right => left = right

def outline : Token → Outline
  | .identifier name => .applied "Identifier" [.atom (quoted name)]
  | .integer value => .applied "Integer" [.atom (integerText value.toInt)]
  | .float value => .applied "Float" [.atom value.text]
  | .boolean value => .applied "Bool" [.atom (if value then "true" else "false")]
  | .string value => .applied "String" [.atom (quoted value)]
  | .nilKeyword => .atom "Nil"
  | .underscore => .atom "Underscore"
  | .letKeyword => .atom "Let"
  | .varKeyword => .atom "Var"
  | .isKeyword => .atom "Is"
  | .asKeyword => .atom "As"
  | .leftParen => .atom "LeftParen"
  | .rightParen => .atom "RightParen"
  | .comma => .atom "Comma"
  | .colon => .atom "Colon"
  | .dot => .atom "Dot"
  | .questionMark => .atom "QuestionMark"
  | .minus => .atom "Minus"
  | .closedRange => .atom "ClosedRange"
  | .halfOpenRange => .atom "HalfOpenRange"

def describe (token : Token) : String := token.outline.inline

example : (identifier "x").describe = "Identifier(\"x\")" := by decide +kernel

end Token

end PatternClauses
