import PatternClauses.Diagnostic
import PatternClauses.Value

/-!
# Faults

A fault is the failure of a collaborator of the matcher: of the expression evaluator, of an
equivalence resolver or of the type oracle.  It ends a match without an answer, and is never taken
for a value that does not match.
-/

namespace PatternClauses

inductive Collaborator where
  | expressionEvaluator
  | equivalenceResolver
  | typeOracle
  deriving DecidableEq

def Collaborator.text : Collaborator → String
  | .expressionEvaluator => "expression evaluator"
  | .equivalenceResolver => "equivalence resolver"
  | .typeOracle => "type oracle"

inductive Fault where
  | negationOverflow (value : Int64)
  | notNegatable (value : Value)
  | reversedRange (lower upper : Value)
  | incomparableBounds (lower upper : Value)
  | unknownType (name : String)
  /-- An oracle gives a value the shape of a tuple and then has no components for it. -/
  | missingComponents (value : Value)
  /-- A failure that a collaborator describes in its own words. -/
  | reported (collaborator : Collaborator) (message : String)

namespace Fault

def collaborator : Fault → Collaborator
  | .negationOverflow _ | .notNegatable _ | .reversedRange _ _ | .incomparableBounds _ _ =>
    .expressionEvaluator
  | .unknownType _ | .missingComponents _ => .typeOracle
  | .reported collaborator _ => collaborator

def message : Fault → String
  | .negationOverflow value => "integer overflow negating " ++ integerText value.toInt
  | .notNegatable value => "cannot negate " ++ value.text
  | .reversedRange lower upper =>
    "range lower bound " ++ lower.text ++ " is greater than upper bound " ++ upper.text
  | .incomparableBounds lower upper =>
    "range bounds " ++ lower.text ++ " and " ++ upper.text ++ " are not comparable"
  | .unknownType name => "unknown type " ++ quoted name
  | .missingComponents value => value.text ++ " has a tuple shape but no components"
  | .reported _ message => message

def diagnostic (fault : Fault) : Diagnostic where
  message := "match-evaluation-error"
  code := "matcher::evaluation_fault"
  help := fault.collaborator.text ++ " failed: " ++ fault.message
  labels := []

end Fault

theorem except_bind_eq_ok_iff {first : Except ε α} {next : α → Except ε β} {result : β} :
    first >>= next = .ok result ↔ ∃ value, first = .ok value ∧ next value = .ok result := by
  cases first <;> simp [Bind.bind, Except.bind]

end PatternClauses
