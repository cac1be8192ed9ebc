import PatternClauses.Typing.Nominal
import PatternClauses.Typing.Oracle

/-!
# The builtin oracle

The oracle for values of this library over a host's nominal types.  Scalars, tuples and ranges
have types of their own; a case of the enum `Optional` has an optional type, and an empty one fits
every optional.
-/

namespace PatternClauses

def builtinTypes : List (String × RuntimeType) :=
  [("Int", .integer), ("Double", .float), ("Float", .float), ("Bool", .boolean),
    ("String", .string), ("Void", .unit), ("Any", .any)]

namespace Value

/-! ## The type of a value -/

mutual

def dynamicType : Value → RuntimeType
  | .integer _ => .integer
  | .float _ => .float
  | .boolean _ => .boolean
  | .string _ => .string
  | .tuple items => .tuple (dynamicTypeEach items)
  | .range lower _ _ => .range lower.dynamicType
  | .enumCase enum name [item] =>
    if enum = optionalName then
      if name = someName then .optional item.dynamicType else .optional .any
    else .custom enum
  | .enumCase enum _ _ => if enum = optionalName then .optional .any else .custom enum
  | .object className _ => .custom className

def dynamicTypeEach : List Value → List RuntimeType
  | [] => []
  | item :: rest => item.dynamicType :: dynamicTypeEach rest

end

@[simp] theorem dynamicTypeEach_eq_map (items : List Value) :
    dynamicTypeEach items = items.map dynamicType := by
  induction items with
  | nil => rfl
  | cons item rest induction => simp [dynamicTypeEach, induction]

theorem dynamicType_present (item : Value) :
    (enumCase optionalName someName [item]).dynamicType = .optional item.dynamicType := by
  simp [dynamicType]

theorem dynamicType_absent {name : String} {payload : List Value}
    (other : ¬ (name = someName ∧ payload.length = 1)) :
    (enumCase optionalName name payload).dynamicType = .optional .any := by
  match payload with
  | [] => simp [dynamicType]
  | [item] =>
    have different : name ≠ someName := fun same => other ⟨same, rfl⟩
    simp [dynamicType, different]
  | first :: second :: rest => simp [dynamicType]

theorem dynamicType_enumCase {enum : String} (other : enum ≠ optionalName) (name : String)
    (payload : List Value) : (enumCase enum name payload).dynamicType = .custom enum := by
  match payload with
  | [] => simp [dynamicType, other]
  | [item] => simp [dynamicType, other]
  | first :: second :: rest => simp [dynamicType, other]

end Value

namespace NominalTypes

/-! ## The meaning of a type expression -/

mutual

def resolve (types : NominalTypes) : TypeExpr → Except Fault RuntimeType
  | .named name =>
    match builtinTypes.lookup name with
    | some type => .ok type
    | none => if name ∈ types.known then .ok (.custom name) else .error (.unknownType name)
  | .tuple items => do return .tuple (← types.resolveEach items)
  | .optional wrapped => do return .optional (← types.resolve wrapped)

def resolveEach (types : NominalTypes) : List TypeExpr → Except Fault (List RuntimeType)
  | [] => .ok []
  | item :: rest => do
    let first ← types.resolve item
    return first :: (← types.resolveEach rest)

end

/-! ## Subtypes -/

mutual

def isSubtypeOf (types : NominalTypes) : RuntimeType → RuntimeType → Bool
  | _, .any => true
  | .integer, .integer => true
  | .float, .float => true
  | .boolean, .boolean => true
  | .string, .string => true
  | .tuple sub, .tuple super => types.areSubtypesOf sub super
  | .optional .any, .optional _ => true
  | .optional sub, .optional super => types.isSubtypeOf sub super
  | .optional _, .custom name => name == optionalName
  | .range sub, .range super => types.isSubtypeOf sub super
  | .custom sub, .custom super => types.isSubtype sub super
  | _, _ => false

def areSubtypesOf (types : NominalTypes) : List RuntimeType → List RuntimeType → Bool
  | [], [] => true
  | sub :: subRest, super :: superRest =>
    types.isSubtypeOf sub super && types.areSubtypesOf subRest superRest
  | _, _ => false

end

theorem isSubtypeOf_any (types : NominalTypes) (sub : RuntimeType) :
    types.isSubtypeOf sub .any = true := by
  simp [isSubtypeOf]

theorem isSubtypeOf_optional (types : NominalTypes) (sub super : RuntimeType) :
    types.isSubtypeOf (.optional sub) (.optional super) = true ↔
      sub = .any ∨ types.isSubtypeOf sub super = true := by
  cases sub <;> simp [isSubtypeOf]

def oracle (types : NominalTypes) : TypeOracle where
  resolve := types.resolve
  dynamicType value := .ok value.dynamicType
  isSubtype := types.isSubtypeOf

example : initial.isSubtypeOf (.optional .any) (.optional .integer) = true := by decide +kernel
example : initial.isSubtypeOf (.tuple [.integer, .string]) (.tuple [.integer, .any]) = true := by
  decide +kernel

end NominalTypes

end PatternClauses
