import PatternClauses.Evaluation
import PatternClauses.Pattern.Parser

/-!
# Value literals

Values are written like patterns: a literal, a tuple of values or a case of an enum with values
for its payload.  Only the cases `some` and `none` may leave out the name of their enum.
-/

namespace PatternClauses

inductive LiteralError where
  | unreadable (error : ParseError)
  | notValue (pattern : Pattern)
  | missingEnum (name : String)
  | evaluation (fault : Fault)

def LiteralError.message : LiteralError → String
  | .unreadable error => error.diagnostic.message
  | .notValue pattern => pattern.text ++ " is not a value"
  | .missingEnum name => "enum case ." ++ name ++ " needs its enum name to be used as a value"
  | .evaluation fault => fault.diagnostic.message

namespace Value

/-- The enum of a case whose qualifier may be left out. -/
def enumOf (qualifier : Option String) (name : String) : Except LiteralError String :=
  match qualifier with
  | some enum => .ok enum
  | none =>
    if name = someName ∨ name = noneName then .ok optionalName else .error (.missingEnum name)

mutual

def ofPattern : Pattern → Except LiteralError Value
  | .expression value =>
    match evaluateLiteral value with
    | .ok value => .ok value
    | .error fault => .error (.evaluation fault)
  | .tuple items => do return .tuple (← ofPatterns items)
  | .enumCase qualifier name none => do return .enumCase (← enumOf qualifier name) name []
  | .enumCase qualifier name (some (.tuple items)) => do
    let enum ← enumOf qualifier name
    return .enumCase enum name (← ofPatterns items)
  | .enumCase qualifier name (some payload) => do
    let enum ← enumOf qualifier name
    return .enumCase enum name [← ofPattern payload]
  | pattern => .error (.notValue pattern)

def ofPatterns : List Pattern → Except LiteralError (List Value)
  | [] => .ok []
  | pattern :: rest => do
    let first ← ofPattern pattern
    return first :: (← ofPatterns rest)

end

def parse (text : String) : Except LiteralError Value :=
  match Pattern.parse .full text with
  | .ok pattern => ofPattern pattern
  | .error error => .error (.unreadable error)

theorem parse_eq_ofPattern {text : String} {pattern : Pattern}
    (read : Pattern.parse .full text = .ok pattern) : parse text = ofPattern pattern := by
  rw [parse, read]

example : (parse "some(-2)").toOption.map text = some "Optional.some(-2)" := by decide +kernel

end Value

end PatternClauses
