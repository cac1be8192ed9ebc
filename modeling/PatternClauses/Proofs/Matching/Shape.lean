import PatternClauses.Proofs.Matching.Payload
import PatternClauses.Proofs.Typing.Membership

/-!
# The shape of an irrefutable pattern

An irrefutable pattern has the form of the values that it is for: tuples inside tuples, with types
that are annotated.  It matches the values of that shape, and no others, and it is settled by the
value and its types alone: nothing is evaluated and no values are compared.
-/

namespace PatternClauses

namespace NominalTypes

/-- The values that have the shape of an irrefutable pattern. -/
inductive Fits (types : NominalTypes) : Value → Pattern → Prop
  | wildcard : Fits types value .wildcard
  | identifier : Fits types value (.identifier name)
  | binding {inner : Pattern} (inside : Fits types value inner) :
      Fits types value (.binding inner mutable)
  | group (inside : Fits types value item) : Fits types value (.tuple [item])
  | tuple (several : items.length ≠ 1) (each : List.Forall₂ (Fits types) values items) :
      Fits types (.tuple values) (.tuple items)
  | annotated {inner : Pattern} (resolved : types.resolve type = .ok target)
      (member : types.Member value target) (inside : Fits types value inner) :
      Fits types value (.annotated inner type)

variable {types : NominalTypes} {value : Value}

theorem fits_binding_iff {inner : Pattern} {mutable : Bool} :
    types.Fits value (.binding inner mutable) ↔ types.Fits value inner :=
  ⟨fun fits => by cases fits; assumption, .binding⟩

theorem fits_group_iff {item : Pattern} :
    types.Fits value (.tuple [item]) ↔ types.Fits value item := by
  refine ⟨fun fits => ?_, .group⟩
  cases fits with
  | group inside => exact inside
  | tuple several => exact absurd rfl several

theorem fits_tuple_iff {items : List Pattern} (several : items.length ≠ 1) :
    types.Fits value (.tuple items) ↔
      ∃ values, value = .tuple values ∧ List.Forall₂ types.Fits values items := by
  constructor
  · intro fits
    cases fits with
    | group => exact absurd rfl several
    | tuple _ each => exact ⟨_, rfl, each⟩
  · rintro ⟨values, rfl, each⟩
    exact .tuple several each

theorem fits_annotated_iff {inner : Pattern} {type : TypeExpr} :
    types.Fits value (.annotated inner type) ↔
      types.oracle.conforms value type = .ok true ∧ types.Fits value inner := by
  rw [conforms_eq_true_iff]
  constructor
  · intro fits
    cases fits with
    | annotated resolved member inside => exact ⟨⟨_, resolved, member⟩, inside⟩
  · rintro ⟨⟨target, resolved, member⟩, inside⟩
    exact .annotated resolved member inside

end NominalTypes

/-! ## Runs without queries -/

/-- The run asks no query, and it matches if and only if this holds. -/
structure Progress.Tests (holds : Prop) (progress : Progress) : Prop where
  quiet : progress.queries = []
  matched_iff : (∃ after, progress.answer = .ok (true, after)) ↔ holds

namespace Progress

theorem Tests.congr {holds other : Prop} {progress : Progress} (tests : Tests holds progress)
    (same : holds ↔ other) : Tests other progress :=
  ⟨tests.quiet, tests.matched_iff.trans same⟩

theorem Tests.accept (env : Environment) : Tests True (pure (true, env)) where
  quiet := rfl
  matched_iff := iff_of_true ⟨env, rfl⟩ trivial

theorem Tests.refuse {holds : Prop} (fails : ¬ holds) (env : Environment) :
    Tests holds (pure (false, env)) where
  quiet := rfl
  matched_iff := iff_of_false (by rintro ⟨after, answered⟩; cases answered) fails

theorem Tests.fault {holds : Prop} (fails : ¬ holds) (fault : Fault) :
    Tests holds (.ofAnswer (.error fault)) where
  quiet := rfl
  matched_iff := iff_of_false (by rintro ⟨after, answered⟩; cases answered) fails

theorem Tests.guarded {holds : Prop} {test : Except Fault Bool} {env : Environment}
    {next : Progress} (tests : Tests holds next) :
    Tests (test = .ok true ∧ holds) (do if ← test then next else return (false, env)) := by
  cases test with
  | error fault => exact .fault (by simp) fault
  | ok passed =>
    cases passed with
    | false => exact .refuse (by simp) env
    | true => exact tests.congr (by simp)

theorem Tests.append {first second : Prop} {progress : Progress}
    {next : Bool × Environment → Progress} (here : Tests first progress)
    (later : ∀ after, Tests second (next (true, after)))
    (ends : ∀ after, ∃ left, next (false, after) = pure (false, left)) :
    Tests (first ∧ second) (progress >>= next) := by
  rcases progress with ⟨queries, answer⟩
  cases (here.quiet : queries = [])
  rcases answer with fault | ⟨matched, after⟩
  · have fails : ¬ first := fun holds => by
      rcases here.matched_iff.mpr holds with ⟨after, answered⟩
      cases answered
    exact .fault (fun both => fails both.1) fault
  · cases matched with
    | false =>
      have fails : ¬ first := fun holds => by
        rcases here.matched_iff.mpr holds with ⟨left, answered⟩
        cases answered
      rcases ends after with ⟨left, ended⟩
      change Tests (first ∧ second) (next (false, after))
      rw [ended]
      exact .refuse (fun both => fails both.1) left
    | true =>
      have passed : first := here.matched_iff.mp ⟨after, rfl⟩
      exact (later after).congr (by simp [passed])

end Progress

namespace Collaborators

open Progress

variable {types : NominalTypes} {evaluate : Evaluator} {resolvers : ResolverRegistry}

def TestsFit (types : NominalTypes) (evaluate : Evaluator) (resolvers : ResolverRegistry)
    (pattern : Pattern) : Prop :=
  ∀ mutable value env, Tests (types.Fits value pattern)
    ((overNominal types evaluate resolvers).matchInto mutable pattern (.value value) env)

theorem tests_matchEach {items : List Pattern}
    (each : ∀ item ∈ items, TestsFit types evaluate resolvers item) {mutable : Bool}
    {values : List Value} {env : Environment} (sizes : items.length = values.length) :
    Tests (List.Forall₂ types.Fits values items)
      ((overNominal types evaluate resolvers).matchEach mutable items values env) := by
  induction items generalizing values env with
  | nil =>
    cases List.length_eq_zero_iff.mp sizes.symm
    exact (Tests.accept env).congr (by simp)
  | cons item rest induction =>
    cases values with
    | nil => cases sizes
    | cons value values =>
      have eachLater : ∀ item ∈ rest, TestsFit types evaluate resolvers item :=
        fun item member => each item (.tail _ member)
      rw [matchEach, List.forall₂_cons]
      exact (each item (.head _) mutable value env).append
        (fun after => induction eachLater (Nat.succ.inj sizes)) fun after => ⟨after, rfl⟩

theorem tests_inSequence {items : List Pattern}
    (each : ∀ item ∈ items, TestsFit types evaluate resolvers item) {mutable : Bool}
    {values : List Value} {env : Environment} :
    Tests (List.Forall₂ types.Fits values items)
      (inSequence items.length values env
        ((overNominal types evaluate resolvers).matchEach mutable items values env)) := by
  unfold inSequence
  split
  · rename_i sizes
    rw [← and_true (List.Forall₂ types.Fits values items)]
    exact (tests_matchEach each sizes).append (fun after => .accept after)
      fun after => ⟨after.rollback env.checkpoint, rfl⟩
  · rename_i sizes
    exact .refuse (fun fits => sizes fits.length_eq.symm) env

theorem testsFit_tuple {items : List Pattern}
    (each : ∀ item ∈ items, TestsFit types evaluate resolvers item) :
    TestsFit types evaluate resolvers (.tuple items) := by
  intro mutable value env
  by_cases single : items.length = 1
  · rcases List.length_eq_one_iff.mp single with ⟨item, rfl⟩
    rw [matchInto]
    exact (each item (.head _) mutable value env).congr NominalTypes.fits_group_iff.symm
  · rw [matchInto, NominalTypes.fits_tuple_iff single]
    · cases value with
      | tuple values =>
        rw [inTuple_items]
        exact (tests_inSequence each).congr (by simp)
      -- No other value has the shape of a tuple.
      | _ => exact .refuse (by simp) env
    · exact fun item same => single (same ▸ rfl)

theorem testsFit_of_irrefutable (types : NominalTypes) (evaluate : Evaluator)
    (resolvers : ResolverRegistry) (pattern : Pattern) :
    pattern.isRefutable = false → TestsFit types evaluate resolvers pattern := by
  induction pattern with
  | wildcard =>
    intro _ mutable value env
    rw [matchInto]
    exact (Tests.accept env).congr (iff_of_true trivial .wildcard)
  | identifier name =>
    intro _ mutable value env
    rw [matchInto]
    exact (Tests.accept _).congr (iff_of_true trivial .identifier)
  | binding inner innerMutable induction =>
    intro irrefutable mutable value env
    rw [matchInto]
    exact (induction irrefutable innerMutable value env).congr NominalTypes.fits_binding_iff.symm
  | tuple items induction =>
    intro irrefutable
    rw [Pattern.isRefutable, Pattern.anyRefutable_eq_any, List.any_eq_false] at irrefutable
    exact testsFit_tuple fun item member =>
      induction item member (Bool.eq_false_iff.mpr (irrefutable item member))
  | annotated inner type induction =>
    intro irrefutable mutable value env
    rw [matchInto]
    exact (Tests.guarded (induction irrefutable mutable value env)).congr
      NominalTypes.fits_annotated_iff.symm
  | enumCase | optional | isType | cast | expression =>
    intro irrefutable
    cases irrefutable

/-- An irrefutable pattern is bound to the values that have its shape, and to no others.  Whatever
the value is, the match evaluates no expression and asks no resolver. -/
theorem irrefutable_bound_iff_fits (types : NominalTypes) (evaluate : Evaluator)
    (resolvers : ResolverRegistry) (pattern : Pattern) (irrefutable : pattern.isRefutable = false)
    (value : Value) (scope : Environment) :
    let run := (overNominal types evaluate resolvers).matchPattern pattern value scope
    ((∃ env, run.answer = .ok (some env)) ↔ types.Fits value pattern) ∧ run.queries = [] := by
  intro run
  have tests := testsFit_of_irrefutable types evaluate resolvers pattern irrefutable false value
    .empty
  constructor
  · rw [← tests.matched_iff]
    constructor
    · rintro ⟨env, bound⟩
      rcases matchPattern_eq_some_iff.mp bound with ⟨after, matched, -⟩
      exact ⟨after, matched⟩
    · rintro ⟨after, matched⟩
      exact ⟨_, matchPattern_eq_some_iff.mpr ⟨after, matched, rfl⟩⟩
  · exact (congrArg Consult.queries (matchPattern_eq _ _ _ _)).trans tests.quiet

theorem bound_iff_fits_of_circle :
    let types := NominalTypes.initial.registerSupertype "Circle" "Shape"
    let pattern : Pattern := .tuple [.annotated (.identifier "name") (.named "String"),
      .binding (.tuple [.identifier "x", .annotated .wildcard (.named "Shape")]) true]
    let value (inside : Value) : Value := .tuple [.string "a", .tuple [.integer 1, inside]]
    let run (inside : Value) :=
      (overNominal types evaluateLiteral .empty).matchPattern pattern (value inside) .empty
    pattern.isRefutable = false ∧ types.Fits (value (.object "Circle" [])) pattern ∧
      (run (.object "Circle" [])).queries = [] ∧ ¬ types.Fits (value (.integer 2)) pattern := by
  intro types pattern value run
  have general (inside : Value) := irrefutable_bound_iff_fits types evaluateLiteral .empty pattern
    rfl (value inside) .empty
  have circle : ∃ env, (run (.object "Circle" [])).answer = .ok (some env) := ⟨_, rfl⟩
  have number : (run (.integer 2)).answer = .ok none := by rfl
  refine ⟨rfl, (general _).1.mp circle, (general _).2, fun fits => ?_⟩
  rcases (general _).1.mpr fits with ⟨env, bound⟩
  cases number.symm.trans bound

end Collaborators

end PatternClauses
