import PatternClauses.Matching
import PatternClauses.Typing.Builtin

/-!
# Associated values

The associated values of a case stand for one value: a single one for itself, and others for the
tuple of them.  A payload pattern is matched as if it met that value, although a tuple pattern goes
through several associated values without a tuple being made of them.  Only a tuple pattern of one
item, a group, is not: it asks for one associated value, where its item would take any number.  A
payload pattern that is left out stands for the empty tuple pattern in all cases but one: it does
not match a single associated value that is the unit.
-/

namespace PatternClauses

namespace Pattern

def isGroup : Pattern → Bool
  | .tuple [_] => true
  | _ => false

theorem isGroup_iff {pattern : Pattern} :
    pattern.isGroup = true ↔ ∃ item, pattern = .tuple [item] := by
  constructor
  · intro group
    match pattern with
    | .tuple [item] => exact ⟨item, rfl⟩
  · rintro ⟨item, rfl⟩
    rfl

theorem isGroup_eq_false_iff {pattern : Pattern} :
    pattern.isGroup = false ↔ ∀ item, pattern ≠ .tuple [item] := by
  rw [Bool.eq_false_iff, ne_eq, isGroup_iff, not_exists]

/-- A pattern for a case with this payload pattern; an optional that is present is one. -/
inductive IsCase : Pattern → Option String → String → Pattern → Prop
  | enumCase : IsCase (.enumCase qualifier name (some payload)) qualifier name payload
  | optional {inner : Pattern} : IsCase (.optional inner) (some optionalName) someName inner

end Pattern

namespace Collaborators

variable {host : Collaborators}

theorem inCase_congr {qualifier : Option String} {name : String} {value : Value}
    {env : Environment} {payload other : List Value → Progress}
    (same : ∀ active, host.oracle.activeCase? value = some active → active.name = name →
      payload active.payload = other active.payload) :
    host.inCase qualifier name value env payload = host.inCase qualifier name value env other := by
  unfold inCase
  cases found : host.oracle.activeCase? value with
  | none => rfl
  | some active =>
    by_cases named : active.name = name
    · simp only [same active found named]
    · simp only [named, if_false]

/-! ## Over nominal types -/

/-- A host that sees values as they are, with any evaluator and resolvers. -/
abbrev overNominal (types : NominalTypes) (evaluate : Evaluator) (resolvers : ResolverRegistry) :
    Collaborators where
  oracle := types.oracle
  evaluate := evaluate
  resolvers := resolvers

section

variable {types : NominalTypes} {evaluate : Evaluator} {resolvers : ResolverRegistry}

theorem inTuple_items (count : Nat) (values : List Value) (env : Environment)
    (items : List Value → Progress) :
    (overNominal types evaluate resolvers).inTuple count (.tuple values) env items =
      inSequence count values env (items values) := by
  change (if values.length = count then inSequence count values env (items values)
    else pure (false, env)) = _
  split
  · rfl
  · rename_i sizes
    rw [inSequence, if_neg fun same => sizes same.symm]

theorem matchInto_payload {pattern : Pattern} (alone : pattern.isGroup = false) (mutable : Bool)
    (values : List Value) (env : Environment) :
    (overNominal types evaluate resolvers).matchInto mutable pattern (.payload values) env =
      (overNominal types evaluate resolvers).matchInto mutable pattern (.value (.tuple values))
        env := by
  -- Only a tuple looks at the items; every other form asks for the subject as one value.
  cases pattern with
  | tuple items =>
    rw [matchInto, matchInto, inTuple_items]
    rintro item rfl
    cases alone
  | enumCase qualifier name payload => cases payload <;> rw [matchInto, matchInto] <;> rfl
  | _ => rw [matchInto, matchInto] <;> rfl

/-- A pattern takes the associated values of a case as one value, unless it is a group and their
number is not one. -/
theorem matchInto_ofPayload {pattern : Pattern} {values : List Value}
    (fits : pattern.isGroup → values.length = 1) (mutable : Bool) (env : Environment) :
    (overNominal types evaluate resolvers).matchInto mutable pattern (.ofPayload values) env =
      (overNominal types evaluate resolvers).matchInto mutable pattern (.value (.ofItems values))
        env := by
  match values with
  | [value] => rfl
  | [] => exact matchInto_payload (by simpa using fits) mutable [] env
  | first :: second :: rest =>
    exact matchInto_payload (by simpa using fits) mutable (first :: second :: rest) env

theorem inCase_enumCase {qualifier : Option String} {enum name : String} {values : List Value}
    (conforms : ∀ path ∈ qualifier,
      types.oracle.conforms (.enumCase enum name values) (.named path) = .ok true)
    (env : Environment) (payload : List Value → Progress) :
    (overNominal types evaluate resolvers).inCase qualifier name (.enumCase enum name values) env
      payload = payload values := by
  have qualified : inCase.qualifies (overNominal types evaluate resolvers) qualifier
      (.enumCase enum name values) = pure true := by
    cases qualifier with
    | none => rfl
    | some path => exact congrArg Consult.ofAnswer (conforms path rfl)
  rw [inCase, qualified, pure_bind, if_pos rfl]
  change (if name = name then payload values else pure (false, env)) = _
  rw [if_pos rfl]

end

/-- A case pattern is matched against a case of its name and enum just as its payload pattern is
matched against the associated values as one value: the bindings, the answer, the queries and every
fault are the same, in any environment.  The payload pattern may be anything but a group. -/
theorem matches_payload_as_one_value (types : NominalTypes) (evaluate : Evaluator)
    (resolvers : ResolverRegistry) (pattern payload : Pattern) (qualifier : Option String)
    (enum name : String) (values : List Value) (isCase : pattern.IsCase qualifier name payload)
    (alone : ∀ item, payload ≠ .tuple [item])
    (conforms : ∀ path ∈ qualifier,
      types.oracle.conforms (.enumCase enum name values) (.named path) = .ok true) :
    let host := overNominal types evaluate resolvers
    (∀ mutable env,
      host.matchInto mutable pattern (.value (.enumCase enum name values)) env =
        host.matchInto mutable payload (.value (.ofItems values)) env) ∧
    ∀ scope, host.matchPattern pattern (.enumCase enum name values) scope =
      host.matchPattern payload (.ofItems values) scope := by
  intro host
  have group : payload.isGroup → values.length = 1 := by
    rw [Pattern.isGroup_eq_false_iff.mpr alone]
    nofun
  have passedOn : ∀ mutable env,
      host.matchInto mutable pattern (.value (.enumCase enum name values)) env =
        host.matchInto mutable payload (.value (.ofItems values)) env := by
    intro mutable env
    rw [← matchInto_ofPayload group]
    cases isCase with
    | enumCase =>
      rw [matchInto]
      exact inCase_enumCase conforms env _
    | optional =>
      rw [matchInto]
      exact inCase_enumCase conforms env _
  refine ⟨passedOn, fun scope => ?_⟩
  rw [matchPattern_eq, matchPattern_eq, passedOn]

theorem matches_values_of_rectangle :
    let types := NominalTypes.initial.register "Shape"
    let host := overNominal types evaluateLiteral .empty
    let sides : Pattern := .binding (.tuple [.identifier "w", .identifier "h"]) true
    let rectangle : Value := .enumCase "Shape" "rect" [.integer 2, .integer 3]
    let pattern : Pattern := .optional (.enumCase (some "Shape") "rect" (some sides))
    types.oracle.conforms rectangle (.named "Shape") = .ok true ∧
      types.oracle.conforms (.present rectangle) (.named optionalName) = .ok true ∧
      host.matchPattern pattern (.present rectangle) .empty =
        host.matchPattern sides (.tuple [.integer 2, .integer 3]) .empty ∧
      ∃ env, (host.matchPattern pattern (.present rectangle) .empty).answer = .ok (some env) ∧
        env.bindings = [⟨"w", .integer 2, true⟩, ⟨"h", .integer 3, true⟩] := by
  intro types host sides rectangle pattern
  have shape : types.oracle.conforms rectangle (.named "Shape") = .ok true := by rfl
  have optional : types.oracle.conforms (.present rectangle) (.named optionalName) = .ok true := by
    rfl
  have outer := (matches_payload_as_one_value types evaluateLiteral .empty pattern _ _ _ _ _
    .optional nofun (by rintro path ⟨⟩; exact optional)).2 .empty
  have inside := (matches_payload_as_one_value types evaluateLiteral .empty _ sides (some "Shape")
    "Shape" "rect" _ .enumCase nofun (by rintro path ⟨⟩; exact shape)).2 .empty
  have whole := outer.trans inside
  exact ⟨shape, optional, whole, _, congrArg Consult.answer whole, rfl⟩

/-! ## No payload pattern -/

theorem inCase_of_foreign {types : NominalTypes} {evaluate : Evaluator}
    {resolvers : ResolverRegistry} {qualifier : Option String} {value : Value}
    (foreign : ¬ ∀ path ∈ qualifier, types.oracle.conforms value (.named path) = .ok true)
    (name : String) (env : Environment) (payload other : List Value → Progress) :
    (overNominal types evaluate resolvers).inCase qualifier name value env payload =
      (overNominal types evaluate resolvers).inCase qualifier name value env other := by
  cases qualifier with
  | none => exact absurd nofun foreign
  | some path =>
    have qualifies : inCase.qualifies (overNominal types evaluate resolvers) (some path) value =
      Consult.ofAnswer (types.oracle.conforms value (.named path)) := rfl
    rw [inCase, inCase, qualifies]
    match conforms : types.oracle.conforms value (.named path) with
    | .error fault => rfl
    | .ok false => rfl
    | .ok true =>
      refine absurd ?_ foreign
      rintro _ ⟨⟩
      exact conforms

theorem matchInto_emptyTuple {types : NominalTypes} {evaluate : Evaluator}
    {resolvers : ResolverRegistry} {value : Value} (other : value ≠ .unit) (mutable : Bool)
    (env : Environment) :
    (overNominal types evaluate resolvers).matchInto mutable (.tuple []) (.value value) env =
      pure (false, env) := by
  rw [matchInto]
  · cases value with
    | tuple items =>
      rw [inTuple_items, inSequence, if_neg]
      intro sizes
      rw [List.length_nil, eq_comm, List.length_eq_zero_iff] at sizes
      exact other (congrArg Value.tuple sizes)
    | _ => rfl
  · nofun

theorem matchInto_bareCase {types : NominalTypes} {evaluate : Evaluator}
    {resolvers : ResolverRegistry} {name : String} {value : Value}
    (other : ∀ enum, value ≠ .enumCase enum name [.unit]) (qualifier : Option String)
    (mutable : Bool) (env : Environment) :
    (overNominal types evaluate resolvers).matchInto mutable (.enumCase qualifier name none)
        (.value value) env =
      (overNominal types evaluate resolvers).matchInto mutable
        (.enumCase qualifier name (some (.tuple []))) (.value value) env := by
  rw [matchInto, matchInto]
  apply inCase_congr
  rintro ⟨_, values⟩ found rfl
  match values with
  | [] => rfl
  | [single] =>
    have noUnit : single ≠ .unit := by
      rintro rfl
      cases value with
      | enumCase enum name payload =>
        cases found
        exact other enum rfl
      | _ => cases found
    exact (matchInto_emptyTuple noUnit mutable env).symm
  | first :: second :: rest => rfl

/-- Without a payload pattern a case is matched as with an empty one: the answer, the queries and
every fault are the same.  The one exception is a case whose only associated value is the unit: the
empty pattern matches that value, and without a pattern the case does not match. -/
theorem matches_without_payload_iff (types : NominalTypes) (evaluate : Evaluator)
    (resolvers : ResolverRegistry) (qualifier : Option String) (name : String) (value : Value)
    (scope : Environment) :
    let host := overNominal types evaluate resolvers
    host.matchPattern (.enumCase qualifier name none) value scope =
        host.matchPattern (.enumCase qualifier name (some (.tuple []))) value scope ↔
      ¬ ((∃ enum, value = .enumCase enum name [.unit]) ∧
        ∀ path ∈ qualifier, types.oracle.conforms value (.named path) = .ok true) := by
  intro host
  constructor
  · rintro same ⟨⟨enum, rfl⟩, conforms⟩
    have bare : host.matchInto false (.enumCase qualifier name none)
        (.value (.enumCase enum name [.unit])) .empty = pure (false, .empty) := by
      rw [matchInto]
      exact inCase_enumCase conforms .empty _
    have empty : host.matchInto false (.enumCase qualifier name (some (.tuple [])))
        (.value (.enumCase enum name [.unit])) .empty = pure (true, .empty) := by
      rw [matchInto]
      exact inCase_enumCase conforms .empty _
    rw [matchPattern_eq, matchPattern_eq, bare, empty] at same
    cases same
  · intro exception
    have alike : host.matchInto false (.enumCase qualifier name none) (.value value) .empty =
        host.matchInto false (.enumCase qualifier name (some (.tuple []))) (.value value)
          .empty := by
      by_cases unit : ∃ enum, value = .enumCase enum name [.unit]
      · rw [matchInto, matchInto]
        exact inCase_of_foreign (fun conforms => exception ⟨unit, conforms⟩) name .empty _ _
      · exact matchInto_bareCase (not_exists.mp unit) qualifier false .empty
    rw [matchPattern_eq, matchPattern_eq, alike]

theorem bare_some_refuses_unit :
    let host := overNominal .initial evaluateLiteral .empty
    let value : Value := .present .unit
    (host.matchPattern (.enumCase none someName none) value .empty).answer = .ok none ∧
      ∃ env, (host.matchPattern (.enumCase none someName (some (.tuple []))) value .empty).answer =
        .ok (some env) ∧ env.bindings = [] :=
  ⟨rfl, _, rfl, rfl⟩

end Collaborators

end PatternClauses
