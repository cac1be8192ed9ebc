import PatternClauses.Fault
import PatternClauses.RuntimeType
import PatternClauses.TypeExpr

/-!
# Type oracles

The questions about types that a match asks.  A host answers them for its own values; the defaults
are those of the values of this library.
-/

namespace PatternClauses

structure TypeOracle where
  resolve : TypeExpr → Except Fault RuntimeType
  dynamicType : Value → Except Fault RuntimeType
  /-- Whether a value of the first type may stand where the second is expected. -/
  isSubtype : RuntimeType → RuntimeType → Bool
  activeCase? : Value → Option ActiveCase := Value.activeCase?
  components? : Value → Option (List Value) := Value.items?
  shape? : Value → Option Nat := fun value => (components? value).map List.length
  /-- The view of a value as a type that it conforms to. -/
  reinterpret : Value → RuntimeType → Except Fault Value := fun value _ => .ok value

def TypeOracle.conforms (oracle : TypeOracle) (value : Value) (type : TypeExpr) :
    Except Fault Bool := do
  let target ← oracle.resolve type
  let actual ← oracle.dynamicType value
  return actual = target || oracle.isSubtype actual target

def TypeOracle.isSubpair (oracle : TypeOracle) (lower upper : TypePair) : Bool :=
  oracle.isSubtype lower.pattern upper.pattern && oracle.isSubtype lower.candidate upper.candidate

end PatternClauses
