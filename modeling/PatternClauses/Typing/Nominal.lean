import PatternClauses.Value

/-!
# Nominal types

Types that a host registers by name, with the supertypes that it gives them.  One nominal type is
a subtype of another when registered supertypes lead from it to a name of the other; the search
visits every name once, so cycles do no harm.
-/

namespace PatternClauses

/-- The registered names, and the pairs of a name and its direct supertype. -/
structure NominalTypes where
  known : List String
  supertypes : List (String × String)

namespace NominalTypes

/-- Only the enum of optionals is known from the start. -/
def initial : NominalTypes := ⟨[optionalName], []⟩

def register (types : NominalTypes) (name : String) : NominalTypes :=
  { types with known := name :: types.known }

/-- Register a direct supertype; both names become known. -/
def registerSupertype (types : NominalTypes) (sub super : String) : NominalTypes where
  known := super :: sub :: types.known
  supertypes := types.supertypes ++ [(sub, super)]

def supertypesOf (types : NominalTypes) (name : String) : List String :=
  (types.supertypes.filter (·.1 = name)).map (·.2)

end NominalTypes

/-- A dotted path that ends in `name`, as `Geometry.Shape` ends in `Shape`. -/
def isQualifiedBy (path name : String) : Bool := ('.' :: name.toList).isSuffixOf path.toList

/-- Two names of one type: they are equal, or one is the other behind a path. -/
def sameNominal (left right : String) : Bool :=
  left == right || isQualifiedBy left right || isQualifiedBy right left

theorem sameNominal_comm (left right : String) :
    sameNominal left right = sameNominal right left := by
  have swap : (left == right) = (right == left) := by
    rw [Bool.eq_iff_iff, beq_iff_eq, beq_iff_eq]
    exact eq_comm
  simp only [sameNominal, swap]
  cases right == left <;> cases isQualifiedBy left right <;> cases isQualifiedBy right left <;> rfl

example : sameNominal "Shape" "Geometry.Shape" = true := by decide
example : sameNominal "Shape" "GeometryShape" = false := by decide

namespace NominalTypes

/-- Search for a name of `target` from the names in `pending`, passing over those `visited`.
Every step takes a name out of `pending`, and each registered supertype enters it at most once. -/
def search (types : NominalTypes) (target : String) :
    (budget : Nat) → (visited pending : List String) → Bool
  | 0, _, _ => false
  | _ + 1, _, [] => false
  | budget + 1, visited, name :: rest =>
    if sameNominal name target then true
    else if name ∈ visited then types.search target budget visited rest
    else types.search target budget (name :: visited) (types.supertypesOf name ++ rest)

def isSubtype (types : NominalTypes) (sub super : String) : Bool :=
  types.search super (types.supertypes.length + 1) [] [sub]

example :
    let types := (initial.registerSupertype "Circle" "Shape").registerSupertype "Shape" "Circle"
    types.isSubtype "Circle" "Geometry.Shape" = true ∧ types.isSubtype "Circle" "Line" = false := by
  decide +kernel

end NominalTypes

end PatternClauses
