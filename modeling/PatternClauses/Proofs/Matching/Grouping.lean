import PatternClauses.Proofs.Matching.Congruence
import PatternClauses.Proofs.Parsing.Normal

/-!
# Grouping

A tuple pattern of one item, a group, is never read from a text and is meant as the item alone.  It
is matched so wherever it meets a single value.  Only as the payload of a case it still counts: it
asks for one associated value, where its item would take any number of them as one tuple.
-/

namespace PatternClauses

/-! ## Without groups -/

namespace Pattern

mutual

/-- The pattern with every group replaced by its item. -/
def ungrouped : Pattern → Pattern
  | .tuple items => ofItems (ungroupedEach items)
  | .binding inner mutable => .binding inner.ungrouped mutable
  | .enumCase qualifier name none => .enumCase qualifier name none
  | .enumCase qualifier name (some payload) => .enumCase qualifier name (some payload.ungrouped)
  | .optional inner => .optional inner.ungrouped
  | .cast inner type => .cast inner.ungrouped type
  | .annotated inner type => .annotated inner.ungrouped type
  | .wildcard => .wildcard
  | .identifier name => .identifier name
  | .isType type => .isType type
  | .expression value => .expression value

def ungroupedEach : List Pattern → List Pattern
  | [] => []
  | item :: rest => item.ungrouped :: ungroupedEach rest

end

@[simp] theorem ungroupedEach_eq_map (items : List Pattern) :
    ungroupedEach items = items.map ungrouped := by
  induction items with
  | nil => rfl
  | cons item rest induction => simp [ungroupedEach, induction]

example : ungrouped (.enumCase none "some" (some (.tuple [.tuple [.identifier "x"]]))) =
    .enumCase none "some" (some (.identifier "x")) := by
  decide

theorem length_ne_one_of_mem_ungrouped (pattern : Pattern) :
    ∀ items, .tuple items ∈ pattern.ungrouped.parts → items.length ≠ 1 := by
  induction pattern with
  | wildcard | identifier | isType | expression => simp [ungrouped, parts]
  | binding inner mutable induction | optional inner induction | cast inner type induction
  | annotated inner type induction => simpa [ungrouped, parts] using induction
  | tuple items induction =>
    intro others member
    rw [ungrouped, ungroupedEach_eq_map] at member
    rcases mem_parts_ofItems member with ⟨same, several⟩ | ⟨_, inside, member⟩
    · cases same
      exact several
    · rcases List.mem_map.mp inside with ⟨item, listed, rfl⟩
      exact induction item listed others member
  | enumCase qualifier name payload induction =>
    cases payload with
    | none => simp [ungrouped, parts]
    | some payload => simpa [ungrouped, parts] using induction payload rfl

theorem mem_parts_self (pattern : Pattern) : pattern ∈ pattern.parts := by
  cases pattern with
  | enumCase qualifier name payload => cases payload <;> simp [parts]
  | _ => simp [parts]

theorem isGroup_ungrouped (pattern : Pattern) : pattern.ungrouped.isGroup = false := by
  rw [Bool.eq_false_iff]
  intro group
  rcases isGroup_iff.mp group with ⟨item, same⟩
  exact length_ne_one_of_mem_ungrouped pattern [item] (same ▸ mem_parts_self _) rfl

theorem ungrouped_eq_self (pattern : Pattern) :
    (∀ items, .tuple items ∈ pattern.parts → items.length ≠ 1) → pattern.ungrouped = pattern := by
  induction pattern with
  | wildcard | identifier | isType | expression => exact fun _ => rfl
  | binding inner mutable induction | optional inner induction | cast inner type induction
  | annotated inner type induction =>
    intro several
    rw [ungrouped, induction fun items member => several items (.tail _ member)]
  | tuple items induction =>
    intro several
    have each : ∀ item ∈ items, item.ungrouped = item := by
      intro item listed
      refine induction item listed fun others member => several others (.tail _ ?_)
      rw [partsEach_eq_flatMap]
      exact List.mem_flatMap.mpr ⟨item, listed, member⟩
    rw [ungrouped, ungroupedEach_eq_map, List.map_congr_left each, List.map_id']
    exact ofItems_of_length_ne_one (several items (.head _))
  | enumCase qualifier name payload induction =>
    intro several
    cases payload with
    | none => rfl
    | some payload =>
      rw [ungrouped, induction payload rfl fun items member => several items (.tail _ member)]

/-- What is read has no groups; only a pattern that is put together otherwise can have them. -/
theorem ungrouped_of_parse {context : PatternContext} {source : String} {pattern : Pattern}
    (read : parse context source = .ok pattern) : pattern.ungrouped = pattern :=
  ungrouped_eq_self pattern fun items member => shaped_of_parse read (.tuple items) member

theorem bindings_ungrouped (pattern : Pattern) : pattern.ungrouped.bindings = pattern.bindings := by
  induction pattern with
  | wildcard | identifier | isType | expression => rfl
  | binding inner mutable induction | optional inner induction | cast inner type induction
  | annotated inner type induction => simpa [ungrouped, bindings] using induction
  | tuple items induction =>
    rw [ungrouped, ungroupedEach_eq_map, bindings_ofItems, List.flatMap_map, bindings,
      bindingsEach_eq_flatMap]
    exact List.flatMap_congr induction
  | enumCase qualifier name payload induction =>
    cases payload with
    | none => rfl
    | some payload => simpa [ungrouped, bindings] using induction payload rfl

end Pattern

/-! ## Where groups count -/

def Value.InCase (name : String) (value : Value) (holds : List Value → Prop) : Prop :=
  ∀ active, value.activeCase? = some active → active.name = name → holds active.payload

namespace Pattern

mutual

/-- Wherever the value is in a case whose payload pattern is a group, the case has one associated
value. -/
def GroupsMeetOne : Pattern → Value → Prop
  | .wildcard, _ | .identifier _, _ | .isType _, _ | .expression _, _ => True
  | .enumCase _ _ none, _ => True
  | .binding inner _, value | .cast inner _, value | .annotated inner _, value =>
    inner.GroupsMeetOne value
  | .tuple [item], value => item.GroupsMeetOne value
  | .tuple items, value => ∀ values, value.items? = some values → GroupsMeetOneEach items values
  | .enumCase _ name (some payload), value =>
    value.InCase name fun values =>
      (payload.isGroup → values.length = 1) ∧ payload.GroupsMeetOne (.ofItems values)
  | .optional inner, value =>
    value.InCase someName fun values =>
      (inner.isGroup → values.length = 1) ∧ inner.GroupsMeetOne (.ofItems values)

def GroupsMeetOneEach : List Pattern → List Value → Prop
  | item :: items, value :: values => item.GroupsMeetOne value ∧ GroupsMeetOneEach items values
  | _, _ => True

end

theorem groupsMeetOneEach_iff {items : List Pattern} {values : List Value} :
    GroupsMeetOneEach items values ↔ ∀ pair ∈ items.zip values, pair.1.GroupsMeetOne pair.2 := by
  induction items generalizing values with
  | nil => simp [GroupsMeetOneEach]
  | cons item rest induction =>
    cases values with
    | nil => simp [GroupsMeetOneEach]
    | cons value values => rw [GroupsMeetOneEach, induction, List.zip_cons_cons, List.forall_mem_cons]

end Pattern

namespace Collaborators

variable {host : Collaborators}

theorem matchInto_group_payload (host : Collaborators) (mutable : Bool) (item : Pattern)
    {values : List Value} (other : values.length ≠ 1) (env : Environment) :
    host.matchInto mutable (.tuple [item]) (.ofPayload values) env = pure (false, env) := by
  rw [Subject.ofPayload_of_length_ne_one other, matchInto, inSequence, if_neg]
  exact fun sizes => other sizes.symm

section

variable {types : NominalTypes} {evaluate : Evaluator} {resolvers : ResolverRegistry}

def AlikeUngrouped (host : Collaborators) (pattern : Pattern) : Prop :=
  ∀ mutable value env, pattern.GroupsMeetOne value →
    host.matchInto mutable pattern (.value value) env =
      host.matchInto mutable pattern.ungrouped (.value value) env

theorem alike_tuple {items : List Pattern}
    (each : ∀ item ∈ items, AlikeUngrouped (overNominal types evaluate resolvers) item) :
    AlikeUngrouped (overNominal types evaluate resolvers) (.tuple items) := by
  intro mutable value env fits
  rw [Pattern.ungrouped, Pattern.ungroupedEach_eq_map]
  by_cases single : items.length = 1
  · rcases List.length_eq_one_iff.mp single with ⟨item, rfl⟩
    rw [matchInto]
    exact each item (.head _) mutable value env fits
  · rw [Pattern.GroupsMeetOne] at fits
    · rw [Pattern.ofItems_of_length_ne_one (by rwa [List.length_map])]
      apply matchInto_tuple_congr single
      intro values components pair member env
      have fit := Pattern.groupsMeetOneEach_iff.mp (fits values components) pair member
      exact each pair.1 (List.of_mem_zip member).1 mutable pair.2 env fit
    · exact fun item same => single (same ▸ rfl)

theorem alike_payload {payload : Pattern}
    (inside : AlikeUngrouped (overNominal types evaluate resolvers) payload)
    {qualifier : Option String} {name : String} {value : Value}
    (fits : value.InCase name fun values =>
      (payload.isGroup → values.length = 1) ∧ payload.GroupsMeetOne (.ofItems values))
    (mutable : Bool) (env : Environment) :
    let host := overNominal types evaluate resolvers
    (host.inCase qualifier name value env fun values =>
        host.matchInto mutable payload (.ofPayload values) env) =
      host.inCase qualifier name value env fun values =>
        host.matchInto mutable payload.ungrouped (.ofPayload values) env := by
  intro host
  apply inCase_congr
  intro active found named
  rcases fits active found named with ⟨group, fits⟩
  exact matchInto_ofPayload_congr group payload.isGroup_ungrouped (inside mutable _ env fits)

theorem alike_ungrouped (pattern : Pattern) :
    AlikeUngrouped (overNominal types evaluate resolvers) pattern := by
  induction pattern with
  | wildcard | identifier | isType | expression => exact fun _ _ _ _ => rfl
  | binding inner innerMutable induction =>
    intro mutable value env fits
    rw [Pattern.ungrouped, matchInto, matchInto]
    exact induction innerMutable value env fits
  | tuple items induction => exact alike_tuple induction
  | enumCase qualifier name payload induction =>
    intro mutable value env fits
    cases payload with
    | none => rfl
    | some payload =>
      rw [Pattern.ungrouped, matchInto, matchInto]
      exact alike_payload (induction payload rfl) fits mutable env
  | optional inner induction =>
    intro mutable value env fits
    rw [Pattern.ungrouped, matchInto, matchInto]
    exact alike_payload induction fits mutable env
  | cast inner type induction =>
    intro mutable value env fits
    rw [Pattern.ungrouped]
    exact matchInto_cast_congr (induction mutable value env fits) type
  | annotated inner type induction =>
    intro mutable value env fits
    rw [Pattern.ungrouped]
    exact matchInto_annotated_congr (induction mutable value env fits) type

end

/-! ## Whole patterns -/

/-- Groups make no difference to a match over nominal types: the pattern without them binds the same
names, and the answer, the queries and every fault are the same.  The condition leaves out only
values that bring a case with none or several associated values to a payload that is a group. -/
theorem matches_like_ungrouped (types : NominalTypes) (evaluate : Evaluator)
    (resolvers : ResolverRegistry) (pattern : Pattern) (value : Value)
    (fits : pattern.GroupsMeetOne value) (scope : Environment) :
    let host := overNominal types evaluate resolvers
    let plain := pattern.ungrouped
    (∀ items, .tuple items ∈ plain.parts → items.length ≠ 1) ∧ plain.bindings = pattern.bindings ∧
      host.matchPattern pattern value scope = host.matchPattern plain value scope := by
  intro host plain
  have alike : host.matchInto false pattern (.value value) .empty =
      host.matchInto false plain (.value value) .empty :=
    alike_ungrouped pattern false value .empty fits
  refine ⟨pattern.length_ne_one_of_mem_ungrouped, pattern.bindings_ungrouped, ?_⟩
  rw [matchPattern_eq, matchPattern_eq, alike]

theorem matches_like_ungrouped_of_circle :
    let host := overNominal .initial evaluateLiteral .empty
    let pattern : Pattern := .tuple [.tuple [.tuple [.tuple [.identifier "x"], .wildcard]],
      .enumCase none "circle" (some (.tuple [.binding (.identifier "r") true]))]
    let value : Value := .tuple [.tuple [.integer 1, .integer 2],
      .enumCase "Shape" "circle" [.integer 3]]
    pattern.GroupsMeetOne value ∧
      host.matchPattern pattern value .empty = host.matchPattern pattern.ungrouped value .empty ∧
      ∃ env, (host.matchPattern pattern value .empty).answer = .ok (some env) ∧
        env.bindings = [⟨"x", .integer 1, false⟩, ⟨"r", .integer 3, true⟩] := by
  intro host pattern value
  have fits : pattern.GroupsMeetOne value := by
    simp [pattern, value, Pattern.GroupsMeetOne, Pattern.GroupsMeetOneEach, Value.items?,
      Value.InCase, Value.activeCase?]
  have general := matches_like_ungrouped .initial evaluateLiteral .empty pattern value fits .empty
  exact ⟨fits, general.2.2, _, rfl, rfl⟩

theorem matchPattern_grouped_name (types : NominalTypes) (evaluate : Evaluator)
    (resolvers : ResolverRegistry) (enum name bound : String) {values : List Value}
    (other : values.length ≠ 1) (scope : Environment) :
    let host := overNominal types evaluate resolvers
    let pattern : Pattern := .enumCase none name (some (.tuple [.identifier bound]))
    let value : Value := .enumCase enum name values
    host.matchPattern pattern value scope = pure none ∧
      host.matchPattern pattern.ungrouped value scope =
        pure (some ((Environment.empty.push ⟨bound, .tuple values, false⟩).commitInto scope)) := by
  intro host pattern value
  have grouped : host.matchInto false pattern (.value value) .empty = pure (false, .empty) := by
    rw [matchInto]
    exact (inCase_enumCase (by rintro path ⟨⟩) .empty _).trans
      (matchInto_group_payload host false (.identifier bound) other .empty)
  have named : host.matchInto false pattern.ungrouped (.value value) .empty =
      pure (true, Environment.empty.push ⟨bound, .tuple values, false⟩) := by
    rw [Pattern.ungrouped, matchInto]
    refine (inCase_enumCase (by rintro path ⟨⟩) .empty _).trans ?_
    rw [Subject.ofPayload_of_length_ne_one other]
    rfl
  rw [matchPattern_eq, matchPattern_eq, grouped, named]
  exact ⟨rfl, rfl⟩

theorem grouped_name_refuses_rectangle :
    let host := overNominal .initial evaluateLiteral .empty
    let pattern : Pattern := .enumCase none "rect" (some (.tuple [.identifier "size"]))
    let value : Value := .enumCase "Shape" "rect" [.integer 2, .integer 3]
    pattern.checkBindings = .ok () ∧
      (host.matchPattern pattern value .empty).answer = .ok none ∧
      ∃ env, (host.matchPattern pattern.ungrouped value .empty).answer = .ok (some env) ∧
        env.bindings = [⟨"size", .tuple [.integer 2, .integer 3], false⟩] := by
  intro host pattern value
  have two : [Value.integer 2, Value.integer 3].length ≠ 1 := by decide
  rcases matchPattern_grouped_name .initial evaluateLiteral .empty "Shape" "rect" "size" two .empty
    with ⟨grouped, alone⟩
  exact ⟨rfl, congrArg Consult.answer grouped, _, congrArg Consult.answer alone, rfl⟩

end Collaborators

end PatternClauses
