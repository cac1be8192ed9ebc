import PatternClauses.Proofs.Matching.Congruence
import PatternClauses.Proofs.Matching.Scope
import PatternClauses.Proofs.Parsing.Normal

/-!
# Mutability

A match carries the mutability of the innermost binding form down to the names.  The same pattern
with each of its names in a binding form of its own, and no other binding forms, is matched alike:
a binding form around a pattern distributes to its names, except for those inside another one.
-/

namespace PatternClauses

namespace Pattern

def Groupless (pattern : Pattern) : Prop :=
  ∀ items, .tuple items ∈ pattern.parts → items.length ≠ 1

mutual

/-- Every name in a binding form of its own, for the mutability that it has under the innermost
binding form around it, or under one around the pattern. -/
def handedDown (mutable : Bool) : Pattern → Pattern
  | .identifier name => .binding (.identifier name) mutable
  | .binding inner innerMutable => inner.handedDown innerMutable
  | .tuple items => .tuple (handedDownEach mutable items)
  | .enumCase qualifier name none => .enumCase qualifier name none
  | .enumCase qualifier name (some payload) =>
    .enumCase qualifier name (some (payload.handedDown mutable))
  | .optional inner => .optional (inner.handedDown mutable)
  | .cast inner type => .cast (inner.handedDown mutable) type
  | .annotated inner type => .annotated (inner.handedDown mutable) type
  | .wildcard => .wildcard
  | .isType type => .isType type
  | .expression value => .expression value

def handedDownEach (mutable : Bool) : List Pattern → List Pattern
  | [] => []
  | item :: rest => item.handedDown mutable :: handedDownEach mutable rest

end

@[simp] theorem handedDownEach_eq_map (mutable : Bool) (items : List Pattern) :
    handedDownEach mutable items = items.map (handedDown mutable) := by
  induction items with
  | nil => rfl
  | cons item rest induction => simp [handedDownEach, induction]

example : handedDown true (.tuple [.identifier "x", .binding (.tuple []) true,
    .binding (.tuple [.identifier "y", .binding (.identifier "z") true]) false]) =
    .tuple [.binding (.identifier "x") true, .tuple [],
      .tuple [.binding (.identifier "y") false, .binding (.identifier "z") true]] := by
  decide

mutual

/-- The names that a pattern binds with their mutability, from left to right. -/
def flags (mutable : Bool) : Pattern → List (String × Bool)
  | .identifier name => [(name, mutable)]
  | .binding inner innerMutable => inner.flags innerMutable
  | .optional inner | .cast inner _ | .annotated inner _ => inner.flags mutable
  | .tuple items => flagsEach mutable items
  | .enumCase _ _ (some payload) => payload.flags mutable
  | .enumCase _ _ none | .wildcard | .isType _ | .expression _ => []

def flagsEach (mutable : Bool) : List Pattern → List (String × Bool)
  | [] => []
  | item :: rest => item.flags mutable ++ flagsEach mutable rest

end

@[simp] theorem flagsEach_eq_flatMap (mutable : Bool) (items : List Pattern) :
    flagsEach mutable items = items.flatMap (flags mutable) := by
  induction items with
  | nil => rfl
  | cons item rest induction => simp [flagsEach, induction]

theorem map_flags (pattern : Pattern) (mutable : Bool) :
    (pattern.flags mutable).map (·.1) = pattern.bindings := by
  induction pattern generalizing mutable with
  | wildcard | identifier | isType | expression => simp [flags, bindings]
  | binding inner innerMutable induction => exact induction innerMutable
  | optional inner induction | cast inner type induction | annotated inner type induction =>
    exact induction mutable
  | tuple items induction =>
    rw [flags, flagsEach_eq_flatMap, bindings, bindingsEach_eq_flatMap, List.map_flatMap]
    exact List.flatMap_congr fun item member => induction item member mutable
  | enumCase qualifier name payload induction =>
    cases payload with
    | none => rfl
    | some payload => exact induction payload rfl mutable

namespace Groupless

theorem items {items : List Pattern} (groupless : (tuple items).Groupless) :
    items.length ≠ 1 ∧ ∀ item ∈ items, item.Groupless := by
  refine ⟨groupless items (.head _), fun item listed others member => groupless others (.tail _ ?_)⟩
  rw [partsEach_eq_flatMap]
  exact List.mem_flatMap.mpr ⟨item, listed, member⟩

theorem isGroup {pattern : Pattern} (groupless : pattern.Groupless) : pattern.isGroup = false := by
  rw [isGroup_eq_false_iff]
  rintro item rfl
  exact groupless.items.1 rfl

theorem isGroup_handedDown {pattern : Pattern} (groupless : pattern.Groupless) (mutable : Bool) :
    (pattern.handedDown mutable).isGroup = false := by
  induction pattern generalizing mutable with
  | binding inner innerMutable induction =>
    exact induction (fun items member => groupless items (.tail _ member)) innerMutable
  | tuple items induction =>
    rw [handedDown, handedDownEach_eq_map, isGroup_eq_false_iff]
    intro item same
    have lengths := congrArg List.length (Pattern.tuple.inj same)
    rw [List.length_map] at lengths
    exact groupless.items.1 lengths
  | enumCase qualifier name payload => cases payload <;> rfl
  | _ => rfl

end Groupless

end Pattern

namespace Collaborators

variable {types : NominalTypes} {evaluate : Evaluator} {resolvers : ResolverRegistry}

/-! ## Binding forms at the names -/

/-- Whatever the mutability outside is, the pattern with a binding form at each name is matched like
the pattern under one for this mutability. -/
def AlikeHandedDown (host : Collaborators) (pattern : Pattern) : Prop :=
  ∀ mutable outer value env, host.matchInto mutable pattern (.value value) env =
    host.matchInto outer (pattern.handedDown mutable) (.value value) env

theorem handedDown_payload {payload : Pattern} (groupless : payload.Groupless)
    (inside : AlikeHandedDown (overNominal types evaluate resolvers) payload)
    (qualifier : Option String) (name : String) (value : Value) (mutable outer : Bool)
    (env : Environment) :
    let host := overNominal types evaluate resolvers
    (host.inCase qualifier name value env fun values =>
        host.matchInto mutable payload (.ofPayload values) env) =
      host.inCase qualifier name value env fun values =>
        host.matchInto outer (payload.handedDown mutable) (.ofPayload values) env := by
  intro host
  apply inCase_congr
  intro active _ _
  -- Without its binding form a tuple goes through the values and not through the tuple of them.
  exact matchInto_ofPayload_congr (by simp [groupless.isGroup])
    (groupless.isGroup_handedDown mutable) (inside mutable outer _ env)

theorem alike_handedDown (pattern : Pattern) :
    pattern.Groupless → AlikeHandedDown (overNominal types evaluate resolvers) pattern := by
  induction pattern with
  | wildcard | identifier | isType | expression => exact fun _ _ _ _ _ => rfl
  | binding inner innerMutable induction =>
    intro groupless mutable outer value env
    rw [Pattern.handedDown, matchInto]
    exact induction (fun items member => groupless items (.tail _ member)) innerMutable outer value
      env
  | tuple items induction =>
    intro groupless mutable outer value env
    rw [Pattern.handedDown, Pattern.handedDownEach_eq_map]
    apply matchInto_tuple_congr groupless.items.1
    intro values _ pair member env
    have listed := (List.of_mem_zip member).1
    exact induction pair.1 listed (groupless.items.2 pair.1 listed) mutable outer pair.2 env
  | enumCase qualifier name payload induction =>
    intro groupless mutable outer value env
    cases payload with
    | none => rfl
    | some payload =>
      have inner : payload.Groupless := fun items member => groupless items (.tail _ member)
      rw [Pattern.handedDown, matchInto, matchInto]
      exact handedDown_payload inner (induction payload rfl inner) qualifier name value mutable
        outer env
  | optional inner induction =>
    intro groupless mutable outer value env
    have inside : inner.Groupless := fun items member => groupless items (.tail _ member)
    rw [Pattern.handedDown, matchInto, matchInto]
    exact handedDown_payload inside (induction inside) (some optionalName) someName value mutable
      outer env
  | cast inner type induction =>
    intro groupless mutable outer value env
    have inside : inner.Groupless := fun items member => groupless items (.tail _ member)
    rw [Pattern.handedDown]
    exact matchInto_cast_congr (induction inside mutable outer value env) type
  | annotated inner type induction =>
    intro groupless mutable outer value env
    have inside : inner.Groupless := fun items member => groupless items (.tail _ member)
    rw [Pattern.handedDown]
    exact matchInto_annotated_congr (induction inside mutable outer value env) type

end Collaborators

/-! ## The flags of what is bound -/

def Environment.flags (env : Environment) : List (String × Bool) :=
  env.bindings.map fun binding => (binding.name, binding.mutable)

def Progress.Adds (added : List (String × Bool)) (env : Environment) (progress : Progress) : Prop :=
  ∀ after, progress.answer = .ok (true, after) → after.flags = env.flags ++ added

namespace Progress

variable {added : List (String × Bool)} {env : Environment}

theorem Adds.refuse (left : Environment) : Adds added env (pure (false, left)) :=
  fun after answered => by cases answered

theorem Adds.test (test : Consult Bool) : Adds [] env (do return (← test, env)) := by
  intro after answered
  rcases Consult.bind_answer_eq_ok_iff.mp answered with ⟨passed, -, same⟩
  cases same
  exact (List.append_nil _).symm

theorem Adds.after {first : Consult α} {next : α → Progress}
    (each : ∀ value, Adds added env (next value)) : Adds added env (first >>= next) := by
  intro after answered
  rcases Consult.bind_answer_eq_ok_iff.mp answered with ⟨value, -, rest⟩
  exact each value after rest

theorem Adds.guarded {test : Consult Bool} {next : Progress} (adds : Adds added env next) :
    Adds added env (do if ← test then next else return (false, env)) := by
  apply Adds.after
  intro passed
  cases passed with
  | true => exact adds
  | false => exact .refuse env

theorem Adds.append {more : List (String × Bool)} {progress : Progress}
    {next : Bool × Environment → Progress} (here : Adds added env progress)
    (later : ∀ after, Adds more after (next (true, after)))
    (ends : ∀ after, ∃ left, next (false, after) = pure (false, left)) :
    Adds (added ++ more) env (progress >>= next) := by
  intro last answered
  rcases Consult.bind_answer_eq_ok_iff.mp answered with ⟨⟨matched, after⟩, first, rest⟩
  cases matched with
  | true => rw [later after last rest, here after first, List.append_assoc]
  | false =>
    rcases ends after with ⟨left, ended⟩
    rw [ended] at rest
    cases rest

end Progress

namespace Collaborators

open Progress

variable {host : Collaborators}

def AddsFlags (host : Collaborators) (pattern : Pattern) : Prop :=
  ∀ mutable subject env,
    Adds (pattern.flags mutable) env (host.matchInto mutable pattern subject env)

theorem adds_inCase {added : List (String × Bool)} {qualifier : Option String} {name : String}
    {value : Value} {env : Environment} {payload : List Value → Progress}
    (inside : ∀ values, Adds added env (payload values)) :
    Adds added env (host.inCase qualifier name value env payload) := by
  apply Adds.guarded
  split
  · split
    · exact inside _
    · exact .refuse env
  · exact .refuse env

theorem adds_matchEach {items : List Pattern} (each : ∀ item ∈ items, host.AddsFlags item)
    {mutable : Bool} {values : List Value} {env : Environment}
    (sizes : items.length = values.length) :
    Adds (items.flatMap (Pattern.flags mutable)) env
      (host.matchEach mutable items values env) := by
  induction items generalizing values env with
  | nil =>
    cases List.length_eq_zero_iff.mp sizes.symm
    exact Adds.test (pure true)
  | cons item rest induction =>
    cases values with
    | nil => cases sizes
    | cons value values =>
      have eachLater : ∀ item ∈ rest, host.AddsFlags item :=
        fun item member => each item (.tail _ member)
      rw [matchEach, List.flatMap_cons]
      exact (each item (.head _) mutable (.value value) env).append
        (fun after => induction eachLater (Nat.succ.inj sizes)) fun after => ⟨after, rfl⟩

theorem adds_inSequence {items : List Pattern} (each : ∀ item ∈ items, host.AddsFlags item)
    {mutable : Bool} {values : List Value} {env : Environment} :
    Adds (items.flatMap (Pattern.flags mutable)) env
      (inSequence items.length values env (host.matchEach mutable items values env)) := by
  unfold inSequence
  split
  · rename_i sizes
    rw [← List.append_nil (items.flatMap (Pattern.flags mutable))]
    exact (adds_matchEach each sizes).append (fun after => Adds.test (pure true))
      fun after => ⟨after.rollback env.checkpoint, rfl⟩
  · exact .refuse env

theorem addsFlags_tuple {items : List Pattern} (each : ∀ item ∈ items, host.AddsFlags item) :
    host.AddsFlags (.tuple items) := by
  intro mutable subject env
  rw [Pattern.flags, Pattern.flagsEach_eq_flatMap]
  cases subject with
  | payload values =>
    rw [matchInto]
    exact adds_inSequence each
  | value value =>
    by_cases single : ∃ item, items = [item]
    · rcases single with ⟨item, rfl⟩
      rw [List.flatMap_singleton, matchInto]
      exact each item (.head _) mutable (.value value) env
    · rw [matchInto]
      · unfold inTuple
        split
        · split
          · split
            · exact adds_inSequence each
            · exact fun after answered => by cases answered
          · exact .refuse env
        · exact .refuse env
      · exact fun item equal => single ⟨item, equal⟩

theorem addsFlags (host : Collaborators) (pattern : Pattern) : host.AddsFlags pattern := by
  induction pattern with
  | wildcard => exact fun _ _ _ => Adds.test (pure true)
  | identifier name =>
    intro mutable subject env after answered
    cases answered
    simp [Environment.flags, Environment.push, Pattern.flags]
  | binding inner innerMutable induction =>
    intro mutable subject env
    rw [Pattern.flags, matchInto]
    exact induction innerMutable _ env
  | tuple items induction => exact addsFlags_tuple induction
  | enumCase qualifier name payload induction =>
    intro mutable subject env
    cases payload with
    | none =>
      rw [Pattern.flags, matchInto]
      exact adds_inCase fun values => Adds.test (pure values.isEmpty)
    | some payload =>
      rw [Pattern.flags, matchInto]
      exact adds_inCase fun values => induction payload rfl mutable (.ofPayload values) env
  | optional inner induction =>
    intro mutable subject env
    rw [Pattern.flags, matchInto]
    exact adds_inCase fun values => induction mutable (.ofPayload values) env
  | isType type =>
    intro mutable subject env
    rw [Pattern.flags, matchInto]
    exact Adds.test _
  | cast inner type induction =>
    intro mutable subject env
    rw [Pattern.flags, matchInto]
    exact .guarded (.after fun target => .after fun view => induction mutable (.value view) env)
  | expression expression =>
    intro mutable subject env
    rw [Pattern.flags, matchInto]
    exact Adds.test _
  | annotated inner type induction =>
    intro mutable subject env
    rw [Pattern.flags, matchInto]
    exact .guarded (induction mutable (.value subject.toValue) env)

/-! ## Whole patterns -/

theorem isMutable?_of_bound {pattern : Pattern} (distinct : pattern.checkBindings = .ok ())
    {value : Value} {scope out : Environment} (indexed : scope.Indexed)
    (bound : (host.matchPattern pattern value scope).answer = .ok (some out)) {name : String}
    {flag : Bool} (flagged : (name, flag) ∈ pattern.flags false) :
    out.isMutable? name = some flag := by
  rcases matchPattern_eq_some_iff.mp bound with ⟨env, matched, rfl⟩
  have envIndexed := (indexed_of_matched distinct matched).1
  have flags : env.flags = pattern.flags false :=
    (addsFlags host pattern false (.value value) .empty env matched).trans (List.nil_append _)
  rw [← flags] at flagged
  rcases List.mem_map.mp flagged with ⟨binding, member, same⟩
  cases same
  have found : env.binding? binding.name = some binding := by
    rw [envIndexed.binding?_eq]
    exact envIndexed.indexes.find?_eq_some_iff.mpr ⟨member, rfl⟩
  rw [Environment.isMutable?, envIndexed.binding?_commitInto indexed, found, Option.some_or,
    Option.map_some]

/-- A binding form around a pattern without groups distributes to its names.  Over nominal types it
is matched like the pattern with a binding form at each name instead: the bindings, the queries and
every fault are the same.  So each name has the mutability of the innermost binding form around
it. -/
theorem binding_form_distributes (types : NominalTypes) (evaluate : Evaluator)
    (resolvers : ResolverRegistry) (pattern : Pattern) (groupless : pattern.Groupless)
    (distinct : pattern.checkBindings = .ok ()) (mutable : Bool) (value : Value)
    (scope : Environment) (indexed : scope.Indexed) :
    let host := overNominal types evaluate resolvers
    let run := host.matchPattern (.binding pattern mutable) value scope
    run = host.matchPattern (pattern.handedDown mutable) value scope ∧
      (pattern.flags mutable).map (·.1) = pattern.bindings ∧
      ∀ out, run.answer = .ok (some out) → ∀ name flag, (name, flag) ∈ pattern.flags mutable →
        out.isMutable? name = some flag := by
  intro host run
  have alike : host.matchInto false (.binding pattern mutable) (.value value) .empty =
      host.matchInto false (pattern.handedDown mutable) (.value value) .empty := by
    rw [matchInto]
    exact alike_handedDown pattern groupless mutable false value .empty
  refine ⟨?_, pattern.map_flags mutable, ?_⟩
  · exact (matchPattern_eq _ _ _ _).trans (alike ▸ (matchPattern_eq _ _ _ _).symm)
  · intro out bound name flag flagged
    have checked : (Pattern.binding pattern mutable).checkBindings = .ok () := distinct
    exact isMutable?_of_bound checked indexed bound flagged

/-- The binding form of a pair of sides stands inside one of constants.  Without it the pair goes
through the two values of a rectangle. -/
theorem sides_of_rectangle_variable :
    let host := overNominal .initial evaluateLiteral .empty
    let pattern : Pattern := .tuple [.identifier "x", .enumCase none "rect" (some
      (.binding (.tuple [.identifier "w", .identifier "h"]) true))]
    let value : Value := .tuple [.integer 1, .enumCase "Shape" "rect" [.integer 2, .integer 3]]
    let scope := Environment.empty.push ⟨"w", .integer 0, false⟩
    let run := host.matchPattern (.binding pattern false) value scope
    pattern.Groupless ∧ pattern.checkBindings = .ok () ∧ scope.Indexed ∧
      run = host.matchPattern (pattern.handedDown false) value scope ∧
      ∃ out, run.answer = .ok (some out) ∧ out.isMutable? "x" = some false ∧
        out.isMutable? "w" = some true := by
  intro host pattern value scope run
  have groupless : pattern.Groupless := by simp [pattern, Pattern.Groupless, Pattern.parts]
  have distinct : pattern.checkBindings = .ok () := by rfl
  have indexed : scope.Indexed := Environment.indexed_empty.push List.not_mem_nil
  have general := binding_form_distributes .initial evaluateLiteral .empty pattern groupless distinct
    false value scope indexed
  have bound : run.answer = .ok (some (((Environment.empty.push ⟨"x", .integer 1, false⟩).push
      ⟨"w", .integer 2, true⟩).push ⟨"h", .integer 3, true⟩ |>.commitInto scope)) := by rfl
  exact ⟨groupless, distinct, indexed, general.1, _, bound,
    general.2.2 _ bound "x" false (.head _), general.2.2 _ bound "w" true (.tail _ (.head _))⟩

end Collaborators

end PatternClauses
