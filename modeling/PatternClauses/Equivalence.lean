import PatternClauses.Consult
import PatternClauses.Typing.Oracle
import PatternClauses.Value.Comparison
import Std.Data.ExtTreeMap

/-!
# Equivalence of values

A host may register its own resolvers for how the value of an expression pattern is compared with
a candidate, each for a pair of types.  A comparison uses the nearest of them: the one for exactly
the types of the two values, or else one for a most specific pair of supertypes.
-/

namespace PatternClauses

/-- A comparison that a host supplies, with the name under which its use is recorded. -/
structure Resolver where
  name : String
  compare : Value → Value → Except Fault Bool

def Resolver.ask (resolver : Resolver) (pattern candidate : Value) : Consult Bool :=
  .ask (.compared resolver.name pattern candidate) (resolver.compare pattern candidate)

structure Registered where
  types : TypePair
  resolver : Resolver

/-- The registered resolvers in the order in which their pairs came, with an index from a pair to
its place. -/
structure ResolverRegistry where
  slots : List Registered
  places : Std.ExtTreeMap TypePair Nat

namespace ResolverRegistry

def empty : ResolverRegistry := ⟨[], ∅⟩

def size (registry : ResolverRegistry) : Nat := registry.slots.length

def isEmpty (registry : ResolverRegistry) : Bool := registry.slots.isEmpty

/-- Register a resolver for a pair.  One that was registered for the pair before gives way and
leaves its place. -/
def register (registry : ResolverRegistry) (types : TypePair) (resolver : Resolver) :
    ResolverRegistry :=
  match registry.places[types]? with
  | some place => { registry with slots := registry.slots.set place ⟨types, resolver⟩ }
  | none =>
    { slots := registry.slots ++ [⟨types, resolver⟩]
      places := registry.places.insert types registry.size }

def outline (registry : ResolverRegistry) : Outline :=
  .list (registry.slots.map (·.types.outline))

/-! ## The nearest resolver -/

/-- Of the best slot so far and another, the one whose pair is below; the earlier stays when the
other is not below it. -/
def lower (oracle : TypeOracle) (best : Option Registered) (slot : Registered) :
    Option Registered :=
  match best with
  | none => some slot
  | some earlier => if oracle.isSubpair slot.types earlier.types then some slot else some earlier

def conforming (registry : ResolverRegistry) (oracle : TypeOracle) (types : TypePair) :
    List Registered :=
  registry.slots.filter fun slot => oracle.isSubpair types slot.types

def nearest? (registry : ResolverRegistry) (oracle : TypeOracle) (types : TypePair) :
    Option Resolver :=
  match registry.places[types]? with
  | some place => registry.slots[place]?.map (·.resolver)
  | none => ((registry.conforming oracle types).foldl (lower oracle) none).map (·.resolver)

/-- Compare the value of a pattern with a candidate by the nearest resolver for their types, and
by the default rule when there is none. -/
def compare (registry : ResolverRegistry) (oracle : TypeOracle) (pattern candidate : Value) :
    Consult Bool := do
  let patternType ← oracle.dynamicType pattern
  let candidateType ← oracle.dynamicType candidate
  match registry.nearest? oracle ⟨patternType, candidateType⟩ with
  | some resolver => resolver.ask pattern candidate
  | none => return pattern.matchesByDefault candidate

end ResolverRegistry

end PatternClauses
