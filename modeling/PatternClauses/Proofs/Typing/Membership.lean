import Mathlib.Data.List.Forall2
import PatternClauses.Matching
import PatternClauses.Typing.Builtin
import PatternClauses.Proofs.Typing.Nominal

/-!
# The values of a type

What the values of a type are can be said without the types of values: by the form of the value and
of the type.  A type test, which compares the type of the value with the type that is meant, holds
exactly of these values.
-/

namespace PatternClauses

namespace NominalTypes

/-- The values of a type. -/
inductive Member (types : NominalTypes) : Value → RuntimeType → Prop
  | any : Member types value .any
  | integer : Member types (.integer value) .integer
  | float : Member types (.float value) .float
  | boolean : Member types (.boolean value) .boolean
  | string : Member types (.string value) .string
  | tuple (each : List.Forall₂ (Member types) items itemTypes) :
      Member types (.tuple items) (.tuple itemTypes)
  /-- An optional that holds one value has its type. -/
  | present (inside : Member types item wrapped) :
      Member types (.enumCase optionalName someName [item]) (.optional wrapped)
  /-- Any other case of an optional fits all optional types. -/
  | absent (other : ¬ (name = someName ∧ payload.length = 1)) :
      Member types (.enumCase optionalName name payload) (.optional wrapped)
  /-- The bare name means the enum of optionals itself. -/
  | optionalEnum : Member types (.enumCase optionalName name payload) (.custom optionalName)
  | enumCase (other : enum ≠ optionalName) (leads : types.Leads enum target) :
      Member types (.enumCase enum name payload) (.custom target)
  | object (leads : types.Leads className target) :
      Member types (.object className fields) (.custom target)

end NominalTypes

/-! ## The type of a case -/

namespace Value

/-- The cases of an enum by the type that they have. -/
@[elab_as_elim]
theorem enumCase_cases {motive : String → String → List Value → Prop}
    (present : ∀ item, motive optionalName someName [item])
    (absent : ∀ name payload, ¬ (name = someName ∧ payload.length = 1) →
      motive optionalName name payload)
    (other : ∀ enum name payload, enum ≠ optionalName → motive enum name payload)
    (enum name : String) (payload : List Value) : motive enum name payload := by
  by_cases optional : enum = optionalName
  · subst optional
    by_cases single : name = someName ∧ payload.length = 1
    · rcases single with ⟨rfl, length⟩
      rcases List.length_eq_one_iff.mp length with ⟨item, rfl⟩
      exact present item
    · exact absent name payload single
  · exact other enum name payload optional

theorem dynamicType_ne_any (value : Value) : value.dynamicType ≠ .any := by
  cases value with
  | enumCase enum name payload =>
    cases enum, name, payload using enumCase_cases with
    | present item => rw [dynamicType_present]; nofun
    | absent name payload other => rw [dynamicType_absent other]; nofun
    | other enum name payload other => rw [dynamicType_enumCase other]; nofun
  | _ => simp [dynamicType]

end Value

namespace NominalTypes

variable {types : NominalTypes}

/-! ## Types that are meant -/

def Denotes (types : NominalTypes) (target : RuntimeType) : Prop :=
  ∃ type, types.resolve type = .ok target

theorem resolve_named {name : String} {target : RuntimeType}
    (resolved : types.resolve (.named name) = .ok target) :
    target ∈ [.integer, .float, .float, .boolean, .string, .unit, .any] ∨
      target = .custom name := by
  rw [resolve] at resolved
  split at resolved
  · rename_i type found
    cases resolved
    rcases List.lookup_eq_some_iff.mp found with ⟨before, behind, split, -⟩
    have member : (name, target) ∈ builtinTypes := by simp [split]
    exact .inl (List.mem_map_of_mem (f := Prod.snd) member)
  · split at resolved
    · cases resolved
      exact .inr rfl
    · cases resolved

theorem resolve_tuple {items : List TypeExpr} {target : RuntimeType}
    (resolved : types.resolve (.tuple items) = .ok target) :
    ∃ itemTypes, types.resolveEach items = .ok itemTypes ∧ target = .tuple itemTypes := by
  rw [resolve] at resolved
  rcases except_bind_eq_ok_iff.mp resolved with ⟨itemTypes, each, same⟩
  cases same
  exact ⟨itemTypes, each, rfl⟩

theorem resolve_optional {wrapped : TypeExpr} {target : RuntimeType}
    (resolved : types.resolve (.optional wrapped) = .ok target) :
    ∃ inner, types.resolve wrapped = .ok inner ∧ target = .optional inner := by
  rw [resolve] at resolved
  rcases except_bind_eq_ok_iff.mp resolved with ⟨inner, inside, same⟩
  cases same
  exact ⟨inner, inside, rfl⟩

theorem denotes_of_resolveEach {items : List TypeExpr} {itemTypes : List RuntimeType}
    (resolved : types.resolveEach items = .ok itemTypes) :
    ∀ itemType ∈ itemTypes, types.Denotes itemType := by
  induction items generalizing itemTypes with
  | nil => cases resolved; nofun
  | cons item rest induction =>
    rw [resolveEach] at resolved
    rcases except_bind_eq_ok_iff.mp resolved with ⟨itemType, first, behind⟩
    rcases except_bind_eq_ok_iff.mp behind with ⟨restTypes, others, same⟩
    cases same
    exact List.forall_mem_cons.mpr ⟨⟨item, first⟩, induction others⟩

theorem not_denotes_range (bound : RuntimeType) : ¬ types.Denotes (.range bound) := by
  rintro ⟨type, resolved⟩
  cases type with
  | named name =>
    rcases resolve_named resolved with builtin | custom
    · simp [RuntimeType.unit] at builtin
    · cases custom
  | tuple items =>
    rcases resolve_tuple resolved with ⟨itemTypes, -, same⟩
    cases same
  | optional wrapped =>
    rcases resolve_optional resolved with ⟨inner, -, same⟩
    cases same

theorem Denotes.items {itemTypes : List RuntimeType} (denotes : types.Denotes (.tuple itemTypes)) :
    ∀ itemType ∈ itemTypes, types.Denotes itemType := by
  rcases denotes with ⟨type, resolved⟩
  cases type with
  | named name =>
    rcases resolve_named resolved with builtin | custom
    · have empty : itemTypes = [] := by simpa [RuntimeType.unit] using builtin
      rw [empty]
      nofun
    · cases custom
  | tuple items =>
    rcases resolve_tuple resolved with ⟨resolvedTypes, each, same⟩
    cases same
    exact denotes_of_resolveEach each
  | optional wrapped =>
    rcases resolve_optional resolved with ⟨inner, -, same⟩
    cases same

theorem Denotes.wrapped {inner : RuntimeType} (denotes : types.Denotes (.optional inner)) :
    types.Denotes inner := by
  rcases denotes with ⟨type, resolved⟩
  cases type with
  | named name =>
    rcases resolve_named resolved with builtin | custom
    · simp [RuntimeType.unit] at builtin
    · cases custom
  | tuple items =>
    rcases resolve_tuple resolved with ⟨itemTypes, -, same⟩
    cases same
  | optional wrapped =>
    rcases resolve_optional resolved with ⟨other, inside, same⟩
    cases same
    exact ⟨wrapped, inside⟩

/-! ## Subtypes of a type -/

theorem areSubtypesOf_iff (types : NominalTypes) (subs supers : List RuntimeType) :
    types.areSubtypesOf subs supers = true ↔
      List.Forall₂ (fun sub super => types.isSubtypeOf sub super = true) subs supers := by
  induction subs generalizing supers with
  | nil => cases supers <;> simp [areSubtypesOf]
  | cons sub rest induction =>
    cases supers with
    | nil => simp [areSubtypesOf]
    | cons super others => simp [areSubtypesOf, induction]

theorem scalar_isSubtypeOf_iff {own super : RuntimeType}
    (scalar : own = .integer ∨ own = .float ∨ own = .boolean ∨ own = .string) :
    types.isSubtypeOf own super = true ↔ super = .any ∨ super = own := by
  rcases scalar with rfl | rfl | rfl | rfl <;> cases super <;> simp [isSubtypeOf]

theorem isSubtypeOf_self (types : NominalTypes) (type : RuntimeType) :
    types.isSubtypeOf type type = true := by
  induction type with
  | integer | float | boolean | string | any => simp [isSubtypeOf]
  | range bound induction => simpa [isSubtypeOf] using induction
  | tuple items induction =>
    rw [isSubtypeOf, areSubtypesOf_iff, List.forall₂_same]
    exact induction
  | optional wrapped induction => exact (isSubtypeOf_optional types _ _).mpr (.inr induction)
  | custom name =>
    rw [isSubtypeOf, isSubtype_iff_leads]
    exact ⟨name, .refl, .inl rfl⟩

/-! ## Members -/

/-- For the targets that are meant, the type of the value is a subtype just when the value is a
member. -/
def Decides (types : NominalTypes) (value : Value) : Prop :=
  ∀ target, types.Denotes target →
    (types.isSubtypeOf value.dynamicType target = true ↔ types.Member value target)

theorem decides_scalar {value : Value} {own : RuntimeType}
    (scalar : own = .integer ∨ own = .float ∨ own = .boolean ∨ own = .string)
    (member : types.Member value own)
    (only : ∀ target, types.Member value target → target = .any ∨ target = own)
    (typed : value.dynamicType = own) : types.Decides value := by
  intro target _
  rw [typed, scalar_isSubtypeOf_iff scalar]
  refine ⟨?_, only target⟩
  rintro (rfl | rfl)
  · exact .any
  · exact member

theorem areSubtypesOf_iff_members {items : List Value} (each : ∀ item ∈ items, types.Decides item)
    {itemTypes : List RuntimeType} (denote : ∀ itemType ∈ itemTypes, types.Denotes itemType) :
    types.areSubtypesOf (items.map Value.dynamicType) itemTypes = true ↔
      List.Forall₂ types.Member items itemTypes := by
  induction items generalizing itemTypes with
  | nil => cases itemTypes <;> simp [areSubtypesOf]
  | cons item rest induction =>
    cases itemTypes with
    | nil => simp [areSubtypesOf]
    | cons itemType others =>
      have here := each item (.head _) itemType (denote itemType (.head _))
      have later := induction (fun item member => each item (.tail _ member))
        fun itemType member => denote itemType (.tail _ member)
      rw [List.map_cons, areSubtypesOf, Bool.and_eq_true, here, later, List.forall₂_cons]

theorem decides_tuple {items : List Value} (each : ∀ item ∈ items, types.Decides item) :
    types.Decides (.tuple items) := by
  intro target denotes
  rw [Value.dynamicType, Value.dynamicTypeEach_eq_map]
  cases target with
  | any => exact iff_of_true (isSubtypeOf_any types _) .any
  | tuple itemTypes =>
    rw [isSubtypeOf, areSubtypesOf_iff_members each denotes.items]
    exact ⟨.tuple, fun member => by cases member; assumption⟩
  | _ => exact iff_of_false (by simp [isSubtypeOf]) fun member => by cases member

theorem member_custom_of_optional {name target : String} {payload : List Value} :
    types.Member (.enumCase optionalName name payload) (.custom target) ↔
      target = optionalName := by
  constructor
  · intro member
    cases member with
    | optionalEnum => rfl
    | enumCase other => exact absurd rfl other
  · rintro rfl
    exact .optionalEnum

theorem decides_present {item : Value} (inside : types.Decides item) :
    types.Decides (.enumCase optionalName someName [item]) := by
  intro target denotes
  rw [Value.dynamicType_present]
  cases target with
  | any => exact iff_of_true (isSubtypeOf_any types _) .any
  | optional wrapped =>
    rw [isSubtypeOf_optional, or_iff_right item.dynamicType_ne_any,
      inside wrapped denotes.wrapped]
    refine ⟨.present, fun member => ?_⟩
    cases member with
    | present inside => exact inside
    | absent other => exact absurd ⟨rfl, rfl⟩ other
  | custom name => rw [isSubtypeOf, beq_iff_eq, member_custom_of_optional]
  | _ => exact iff_of_false (by simp [isSubtypeOf]) fun member => by cases member

theorem decides_absent {name : String} {payload : List Value}
    (other : ¬ (name = someName ∧ payload.length = 1)) :
    types.Decides (.enumCase optionalName name payload) := by
  intro target denotes
  rw [Value.dynamicType_absent other]
  cases target with
  | any => exact iff_of_true (isSubtypeOf_any types _) .any
  | optional wrapped => exact iff_of_true (by simp [isSubtypeOf]) (.absent other)
  | custom name => rw [isSubtypeOf, beq_iff_eq, member_custom_of_optional]
  | _ => exact iff_of_false (by simp [isSubtypeOf]) fun member => by cases member

theorem decides_enumCase {enum : String} (other : enum ≠ optionalName) (name : String)
    (payload : List Value) : types.Decides (.enumCase enum name payload) := by
  intro target denotes
  rw [Value.dynamicType_enumCase other]
  cases target with
  | any => exact iff_of_true (isSubtypeOf_any types _) .any
  | custom super =>
    rw [isSubtypeOf, isSubtype_iff_leads]
    refine ⟨.enumCase other, fun member => ?_⟩
    cases member with
    | optionalEnum => exact absurd rfl other
    | enumCase _ leads => exact leads
  | optional wrapped =>
    refine iff_of_false (by simp [isSubtypeOf]) fun member => ?_
    cases member with
    | present => exact other rfl
    | absent => exact other rfl
  | _ => exact iff_of_false (by simp [isSubtypeOf]) fun member => by cases member

theorem decides_object (className : String) (fields : List (String × Value)) :
    types.Decides (.object className fields) := by
  intro target denotes
  rw [Value.dynamicType]
  cases target with
  | any => exact iff_of_true (isSubtypeOf_any types _) .any
  | custom super =>
    rw [isSubtypeOf, isSubtype_iff_leads]
    exact ⟨.object, fun member => by cases member; assumption⟩
  | _ => exact iff_of_false (by simp [isSubtypeOf]) fun member => by cases member

theorem isSubtypeOf_iff_member (types : NominalTypes) (value : Value) : types.Decides value := by
  induction value with
  | integer value =>
    exact decides_scalar (.inl rfl) .integer (fun _ member => by cases member <;> simp) rfl
  | float value =>
    exact decides_scalar (.inr (.inl rfl)) .float (fun _ member => by cases member <;> simp) rfl
  | boolean value =>
    exact decides_scalar (.inr (.inr (.inl rfl))) .boolean
      (fun _ member => by cases member <;> simp) rfl
  | string value =>
    exact decides_scalar (.inr (.inr (.inr rfl))) .string
      (fun _ member => by cases member <;> simp) rfl
  | tuple items induction => exact decides_tuple induction
  | range lower upper closed =>
    intro target denotes
    cases target with
    | any => exact iff_of_true (isSubtypeOf_any types _) .any
    -- Here alone the target has to be meant: a range type would have ranges as subtypes.
    | range bound => exact absurd denotes (not_denotes_range bound)
    | _ =>
      exact iff_of_false (by simp [Value.dynamicType, isSubtypeOf]) fun member => by cases member
  | enumCase enum name payload induction =>
    revert induction
    cases enum, name, payload using Value.enumCase_cases with
    | present item => exact fun inside => decides_present (inside item (.head _))
    | absent name payload other => exact fun _ => decides_absent other
    | other enum name payload other => exact fun _ => decides_enumCase other name payload
  | object className fields => exact decides_object className fields

/-! ## Type tests -/

theorem conforms_eq (types : NominalTypes) (value : Value) {type : TypeExpr}
    {target : RuntimeType} (resolved : types.resolve type = .ok target) :
    types.oracle.conforms value type = .ok (types.isSubtypeOf value.dynamicType target) := by
  have answered : types.oracle.conforms value type =
      .ok (value.dynamicType = target || types.isSubtypeOf value.dynamicType target) := by
    unfold TypeOracle.conforms
    rw [show types.oracle.resolve type = .ok target from resolved]
    rfl
  rw [answered]
  by_cases same : value.dynamicType = target
  · rw [← same, isSubtypeOf_self, Bool.or_true]
  · simp [same]

theorem conforms_eq_true_iff {value : Value} {type : TypeExpr} :
    types.oracle.conforms value type = .ok true ↔
      ∃ target, types.resolve type = .ok target ∧ types.Member value target := by
  constructor
  · intro conforms
    rcases except_bind_eq_ok_iff.mp conforms with ⟨target, resolved, -⟩
    rw [conforms_eq types value resolved, Except.ok.injEq] at conforms
    exact ⟨target, resolved,
      (isSubtypeOf_iff_member types value target ⟨type, resolved⟩).mp conforms⟩
  · rintro ⟨target, resolved, member⟩
    rw [conforms_eq types value resolved, Except.ok.injEq]
    exact (isSubtypeOf_iff_member types value target ⟨type, resolved⟩).mpr member

theorem matchPattern_isType (types : NominalTypes) (evaluate : Evaluator)
    (resolvers : ResolverRegistry) (value : Value) (scope : Environment) {type : TypeExpr}
    {passed : Bool} (conforms : types.oracle.conforms value type = .ok passed) :
    (Collaborators.matchPattern ⟨types.oracle, evaluate, resolvers⟩ (.isType type) value
      scope).answer = .ok (if passed then some scope else none) := by
  rw [Collaborators.matchPattern_eq, Collaborators.matchInto]
  have tested : ((do return (← types.oracle.conforms value type, Environment.empty)) :
      Progress).answer = .ok (passed, .empty) :=
    Consult.bind_answer_eq_ok_iff.mpr ⟨passed, conforms, rfl⟩
  change Except.map _ ((do return (← types.oracle.conforms value type, Environment.empty)) :
      Progress).answer = _
  rw [tested]
  rfl

/-- A type test holds of the members of the type that is meant, and of nothing else. -/
theorem type_test_iff_member (types : NominalTypes) (evaluate : Evaluator)
    (resolvers : ResolverRegistry) (value : Value) (scope : Environment) (type : TypeExpr)
    (target : RuntimeType) (resolved : types.resolve type = .ok target) :
    let test := Collaborators.matchPattern ⟨types.oracle, evaluate, resolvers⟩ (.isType type)
      value scope
    (∃ passed, types.oracle.conforms value type = .ok passed ∧
      (passed = true ↔ types.Member value target)) ∧
    (test.answer = .ok (some scope) ↔ types.Member value target) ∧
    (test.answer = .ok none ↔ ¬ types.Member value target) := by
  intro test
  have decided := isSubtypeOf_iff_member types value target ⟨type, resolved⟩
  have conforms := conforms_eq types value resolved
  have answered := matchPattern_isType types evaluate resolvers value scope conforms
  rw [← decided]
  refine ⟨⟨_, conforms, Iff.rfl⟩, ?_, ?_⟩
  · rw [answered]
    cases types.isSubtypeOf value.dynamicType target <;> simp
  · rw [answered]
    cases types.isSubtypeOf value.dynamicType target <;> simp

/-- `Circle` and `Shape` extend each other, and `Geometry.Shape` is a name of the second.  An empty
optional inside an optional is a member of every optional of optionals, a number inside is not. -/
theorem circle_is_member_of_shape :
    let types := ((initial.registerSupertype "Circle" "Shape").registerSupertype "Shape"
      "Circle").register "Geometry.Shape"
    let type : TypeExpr := .tuple [.named "Geometry.Shape", .optional (.optional (.named "Int"))]
    let target : RuntimeType := .tuple [.custom "Geometry.Shape", .optional (.optional .integer)]
    let pair (inside : Value) : Value := .tuple [.object "Circle" [], .present inside]
    types.resolve type = .ok target ∧ types.Member (pair .absent) target ∧
      ¬ types.Member (pair (.integer 1)) target := by
  intro types type target pair
  have resolved : types.resolve type = .ok target := by rfl
  have conforms : types.oracle.conforms (pair .absent) type = .ok true := by rfl
  have differs : types.oracle.conforms (pair (.integer 1)) type = .ok false := by rfl
  have test (inside : Value) := type_test_iff_member types evaluateLiteral .empty (pair inside)
    .empty type target resolved
  rcases (test .absent).1 with ⟨passed, same, member⟩
  rcases (test (.integer 1)).1 with ⟨refused, other, outside⟩
  rw [conforms] at same
  rw [differs] at other
  cases same
  cases other
  exact ⟨resolved, member.mp rfl, fun inside => Bool.false_ne_true (outside.mpr inside)⟩

end NominalTypes

end PatternClauses
