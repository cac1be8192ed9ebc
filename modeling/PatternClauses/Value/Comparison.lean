import PatternClauses.Value

/-!
# Comparing values

Equality of values goes part by part and is numeric on floats.  Order is between scalars of one
type only, and a range contains the scalars between its bounds.
-/

namespace PatternClauses

namespace Value

/-! ## Equality -/

mutual

def same : Value → Value → Bool
  | .integer left, .integer right => left == right
  | .float left, .float right => left.same right
  | .boolean left, .boolean right => left == right
  | .string left, .string right => left == right
  | .tuple left, .tuple right => sameEach left right
  | .range leftLower leftUpper leftClosed, .range rightLower rightUpper rightClosed =>
    same leftLower rightLower && same leftUpper rightUpper && leftClosed == rightClosed
  | .enumCase leftEnum leftName left, .enumCase rightEnum rightName right =>
    leftEnum == rightEnum && leftName == rightName && sameEach left right
  | .object leftClass left, .object rightClass right =>
    leftClass == rightClass && sameFields left right
  | _, _ => false

def sameEach : List Value → List Value → Bool
  | [], [] => true
  | left :: leftRest, right :: rightRest => same left right && sameEach leftRest rightRest
  | _, _ => false

def sameFields : List (String × Value) → List (String × Value) → Bool
  | [], [] => true
  | (leftName, left) :: leftRest, (rightName, right) :: rightRest =>
    leftName == rightName && same left right && sameFields leftRest rightRest
  | _, _ => false

end

/-! ## Order -/

/-- The order between two scalars of the same type, if that type has one.  Strings are ordered by
code points. -/
def compare? : Value → Value → Option Ordering
  | .integer left, .integer right => some (compare left.toInt right.toInt)
  | .float left, .float right => left.compare? right
  | .string left, .string right => some (compare left right)
  | _, _ => none

/-- Whether a value lies between two bounds.  A value of another type than the bounds does not. -/
def isBetween (lower upper : Value) (closed : Bool) (value : Value) : Bool :=
  (match lower.compare? value with
    | some .lt | some .eq => true
    | _ => false) &&
  (match value.compare? upper with
    | some .lt => true
    | some .eq => closed
    | _ => false)

def contains? : Value → Value → Option Bool
  | .range lower upper closed, value => some (isBetween lower upper closed value)
  | _, _ => none

example : isBetween (.integer (-2)) (.integer 2) false (.integer 2) = false := by decide
example : isBetween (.string "a") (.string "m") true (.string "hello") = true := by decide

/-- Equality, except that a range matches the scalars it contains. -/
def matchesByDefault (pattern candidate : Value) : Bool :=
  match pattern, candidate with
  | .range _ _ _, .range _ _ _ => pattern.same candidate
  | .range lower upper closed, _ => isBetween lower upper closed candidate
  | _, _ => pattern.same candidate

end Value

end PatternClauses
