import PatternClauses.Diagnostic
import PatternClauses.Indexing
import PatternClauses.Value.Comparison

/-!
# Environments

The bindings that a match makes, in the order they were made, with an index from names to places
for looking them up.  An environment is `Indexed` when its names are distinct and the index holds
exactly their places; every operation but a `push` of a bound name keeps that.
-/

namespace PatternClauses

structure Binding where
  name : String
  value : Value
  mutable : Bool

def Binding.same (left right : Binding) : Bool :=
  left.name == right.name && left.value.same right.value && left.mutable == right.mutable

structure Environment where
  bindings : List Binding
  places : Std.ExtTreeMap String Nat

/-- The number of bindings at some moment, to return to. -/
structure Checkpoint where
  size : Nat
  deriving DecidableEq

namespace Environment

def empty : Environment := ⟨[], ∅⟩

def size (env : Environment) : Nat := env.bindings.length

def isEmpty (env : Environment) : Bool := env.bindings.isEmpty

def names (env : Environment) : List String := env.bindings.map (·.name)

def same (left right : Environment) : Bool :=
  go left.bindings right.bindings
where
  go : List Binding → List Binding → Bool
    | [], [] => true
    | left :: leftRest, right :: rightRest => left.same right && go leftRest rightRest
    | _, _ => false

/-! ## Looking up -/

def binding? (env : Environment) (name : String) : Option Binding :=
  env.places[name]?.bind (env.bindings[·]?)

def get? (env : Environment) (name : String) : Option Value :=
  (env.binding? name).map (·.value)

def isMutable? (env : Environment) (name : String) : Option Bool :=
  (env.binding? name).map (·.mutable)

def contains (env : Environment) (name : String) : Bool := env.places.contains name

/-! ## Binding -/

/-- Add a binding behind the others.  Its name must not be bound yet. -/
def push (env : Environment) (binding : Binding) : Environment where
  bindings := env.bindings ++ [binding]
  places := env.places.insert binding.name env.size

def bind (env : Environment) (binding : Binding) : Except DuplicateBinding Environment :=
  if env.contains binding.name then .error ⟨binding.name, none⟩ else .ok (env.push binding)

/-- Replace the binding of the same name in its place, or add one behind the others. -/
def shadow (env : Environment) (binding : Binding) : Environment :=
  match env.places[binding.name]? with
  | some place => { env with bindings := env.bindings.set place binding }
  | none => env.push binding

/-- Merge all bindings into an enclosing scope, shadowing the names it has. -/
def commitInto (env scope : Environment) : Environment := env.bindings.foldl shadow scope

/-! ## Going back -/

def checkpoint (env : Environment) : Checkpoint := ⟨env.size⟩

def rollback (env : Environment) (checkpoint : Checkpoint) : Environment where
  bindings := env.bindings.take checkpoint.size
  places := (env.bindings.drop checkpoint.size).foldl (fun places binding =>
    places.erase binding.name) env.places

/-! ## Agreement of bindings and index -/

structure Indexed (env : Environment) : Prop where
  distinct : env.names.Nodup
  places_eq : ∀ (name : String) (place : Nat),
    env.places[name]? = some place ↔ (env.bindings[place]?).map (·.name) = some name

theorem Indexed.indexes {env : Environment} (indexed : env.Indexed) :
    Indexes Binding.name env.places env.bindings := indexed.places_eq

theorem indexed_of_indexes {env : Environment}
    (indexes : Indexes Binding.name env.places env.bindings) : env.Indexed :=
  ⟨indexes.nodup, indexes⟩

theorem indexed_empty : empty.Indexed := indexed_of_indexes .nil

theorem Indexed.contains_iff {env : Environment} (indexed : env.Indexed) (name : String) :
    env.contains name = true ↔ name ∈ env.names := by
  rw [contains, Std.ExtTreeMap.contains_eq_isSome_getElem?, Option.isSome_iff_ne_none, ne_eq,
    indexed.indexes.getElem?_eq_none_iff]
  exact Decidable.not_not

theorem Indexed.push {env : Environment} (indexed : env.Indexed) {binding : Binding}
    (fresh : binding.name ∉ env.names) : (env.push binding).Indexed :=
  indexed_of_indexes (indexed.indexes.append fresh)

example :
    let env := (empty.push ⟨"x", .integer 1, false⟩).push ⟨"y", .integer 2, true⟩
    env.isMutable? "y" = some true ∧ (env.rollback ⟨1⟩).contains "y" = false := by
  decide +kernel

end Environment

end PatternClauses
