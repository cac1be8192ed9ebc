import PatternClauses.Fault
import PatternClauses.Value.Comparison

/-!
# Evaluating expressions

An evaluator gives the expression of a pattern the value it is compared with.  The literal
evaluator knows literals, negation of numbers and ranges whose bounds are in order.
-/

namespace PatternClauses

abbrev Evaluator := Expression → Except Fault Value

def negated : Value → Except Fault Value
  | .integer value =>
    if value = Int64.minValue then .error (.negationOverflow value) else .ok (.integer (-value))
  | .float value => .ok (.float value.negate)
  | value => .error (.notNegatable value)

def rangeOf (lower upper : Value) (closed : Bool) : Except Fault Value :=
  match lower.compare? upper with
  | some .gt => .error (.reversedRange lower upper)
  | some _ => .ok (.range lower upper closed)
  | none => .error (.incomparableBounds lower upper)

def evaluateLiteral : Evaluator
  | .integer value => .ok (.integer value)
  | .float value => .ok (.float value)
  | .string value => .ok (.string value)
  | .boolean value => .ok (.boolean value)
  | .nil => .ok .absent
  | .negate operand => do negated (← evaluateLiteral operand)
  | .range lower upper closed => do
    let first ← evaluateLiteral lower
    let last ← evaluateLiteral upper
    rangeOf first last closed

example : evaluateLiteral (.range (.negate (.integer 2)) (.integer 2) true) =
    .ok (.range (.integer (-2)) (.integer 2) true) := by rfl

end PatternClauses
