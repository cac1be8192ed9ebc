import PatternClauses.Numeric.Decimal
import PatternClauses.Text.Quoted
import PatternClauses.Text.Outline

/-!
# Expressions

The expressions of the pattern language: literals, negation and ranges.  An expression has no
value of its own; an evaluator gives it one.
-/

namespace PatternClauses

/-- The two kinds of range: `...` takes in its upper bound, `..<` leaves it out. -/
def rangeMark (closed : Bool) : String := if closed then "..." else "..<"

def booleanText (value : Bool) : String := if value then "true" else "false"

inductive Expression where
  | integer (value : Int64)
  | float (value : Binary64)
  | string (value : String)
  | boolean (value : Bool)
  | nil
  | negate (operand : Expression)
  | range (lower upper : Expression) (closed : Bool)
  deriving DecidableEq

namespace Expression

def text : Expression → String
  | .integer value => integerText value.toInt
  | .float value => value.text
  | .string value => quoted value
  | .boolean value => booleanText value
  | .nil => "nil"
  | .negate operand => "-" ++ operand.text
  | .range lower upper closed => lower.text ++ rangeMark closed ++ upper.text

example : (range (negate (integer 2)) (integer 2) true).text = "-2...2" := by decide

def outline : Expression → Outline
  | .integer value => .applied "Integer" [.atom (integerText value.toInt)]
  | .float value => .applied "Float" [.atom value.text]
  | .string value => .applied "String" [.atom (quoted value)]
  | .boolean value => .applied "Boolean" [.atom (booleanText value)]
  | .nil => .atom "Nil"
  | .negate operand => .applied "Negate" [operand.outline]
  | .range lower upper closed =>
    .applied "Range" [lower.outline, upper.outline, .atom (booleanText closed)]

end Expression

end PatternClauses
