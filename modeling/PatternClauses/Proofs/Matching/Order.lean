import PatternClauses.Matching
import PatternClauses.Typing.Builtin

/-!
# The order of evaluation

A match evaluates the expressions of its pattern from left to right, each at most once, and stops at
the first part that does not match or that faults.  A choice between patterns is settled by the
first one that does not fail, and nothing behind that one is looked at.
-/

namespace PatternClauses

def Query.expression? : Query → Option Expression
  | .evaluated expression => some expression
  | .compared _ _ _ => none

namespace Consult

/-- The expressions that the evaluator was handed, in order. -/
def evaluated (run : Consult α) : List Expression := run.queries.filterMap Query.expression?

theorem evaluated_bind_of_ok {first : Consult α} {value : α} (next : α → Consult β)
    (answered : first.answer = .ok value) :
    (first >>= next).evaluated = first.evaluated ++ (next value).evaluated := by
  rw [bind_of_ok next answered, evaluated, evaluated, evaluated, List.filterMap_append]

theorem evaluated_bind_of_error {first : Consult α} {fault : Fault} (next : α → Consult β)
    (faulted : first.answer = .error fault) : (first >>= next).evaluated = first.evaluated := by
  rw [bind_of_error next faulted, evaluated, evaluated]

theorem evaluated_ofAnswer (answer : Except Fault α) : (ofAnswer answer).evaluated = [] := rfl

theorem evaluated_bind_eq_nil {first : Consult α} {next : α → Consult β}
    (quiet : first.evaluated = []) (each : ∀ value, (next value).evaluated = []) :
    (first >>= next).evaluated = [] := by
  cases answered : first.answer with
  | ok value => rw [evaluated_bind_of_ok next answered, quiet, each, List.nil_append]
  | error fault => rw [evaluated_bind_of_error next answered, quiet]

end Consult

theorem ResolverRegistry.evaluated_compare (registry : ResolverRegistry) (oracle : TypeOracle)
    (pattern candidate : Value) : (registry.compare oracle pattern candidate).evaluated = [] := by
  apply Consult.evaluated_bind_eq_nil (Consult.evaluated_ofAnswer _)
  intro patternType
  apply Consult.evaluated_bind_eq_nil (Consult.evaluated_ofAnswer _)
  intro candidateType
  split <;> rfl

/-! ## Parts of a pattern -/

/-- The evaluator is handed a front part of the expressions, and all of them if the match
succeeds. -/
structure Progress.Evaluates (expressions : List Expression) (progress : Progress) : Prop where
  front : progress.evaluated <+: expressions
  whole : ∀ after, progress.answer = .ok (true, after) → progress.evaluated = expressions

namespace Progress

theorem Evaluates.nothing {progress : Progress} (quiet : progress.evaluated = []) :
    Evaluates [] progress where
  front := quiet ▸ List.prefix_rfl
  whole _ _ := quiet

theorem Evaluates.refuse (expressions : List Expression) (env : Environment) :
    Evaluates expressions (pure (false, env)) where
  front := List.nil_prefix
  whole after answered := by cases answered

theorem Evaluates.fault (expressions : List Expression) (fault : Fault) :
    Evaluates expressions (.ofAnswer (.error fault)) where
  front := List.nil_prefix
  whole after answered := by cases answered

theorem Evaluates.after {expressions : List Expression} {first : Consult α} {next : α → Progress}
    (quiet : first.evaluated = []) (each : ∀ value, Evaluates expressions (next value)) :
    Evaluates expressions (first >>= next) := by
  cases answered : first.answer with
  | error fault =>
    have evaluated : (first >>= next).evaluated = [] := by
      rw [Consult.evaluated_bind_of_error next answered, quiet]
    refine ⟨evaluated ▸ List.nil_prefix, fun after matched => ?_⟩
    rw [Consult.bind_of_error next answered] at matched
    cases matched
  | ok value =>
    have evaluated : (first >>= next).evaluated = (next value).evaluated := by
      rw [Consult.evaluated_bind_of_ok next answered, quiet, List.nil_append]
    refine ⟨evaluated ▸ (each value).front, fun after matched => ?_⟩
    rw [Consult.bind_of_ok next answered] at matched
    exact evaluated.trans ((each value).whole after matched)

theorem Evaluates.guarded {expressions : List Expression} {env : Environment} {test : Consult Bool}
    {next : Progress} (quiet : test.evaluated = []) (evaluates : Evaluates expressions next) :
    Evaluates expressions (do if ← test then next else return (false, env)) := by
  apply Evaluates.after quiet
  intro passed
  cases passed with
  | true => exact evaluates
  | false => exact .refuse expressions env

theorem Evaluates.append {first second : List Expression} {progress : Progress}
    {next : Bool × Environment → Progress} (here : Evaluates first progress)
    (later : ∀ after, Evaluates second (next (true, after)))
    (ends : ∀ after, ∃ left, next (false, after) = pure (false, left)) :
    Evaluates (first ++ second) (progress >>= next) := by
  cases answered : progress.answer with
  | error fault =>
    constructor
    · rw [Consult.evaluated_bind_of_error _ answered]
      exact here.front.trans (List.prefix_append _ _)
    · intro last matched
      rw [Consult.bind_of_error _ answered] at matched
      cases matched
  | ok outcome =>
    rcases outcome with ⟨matched, after⟩
    cases matched with
    | false =>
      rcases ends after with ⟨left, ended⟩
      have evaluated : (progress >>= next).evaluated = progress.evaluated := by
        rw [Consult.evaluated_bind_of_ok _ answered, ended]
        exact List.append_nil _
      refine ⟨evaluated ▸ here.front.trans (List.prefix_append _ _), fun last matched => ?_⟩
      rw [Consult.bind_of_ok _ answered, ended] at matched
      cases matched
    | true =>
      have evaluated : (progress >>= next).evaluated = first ++ (next (true, after)).evaluated := by
        rw [Consult.evaluated_bind_of_ok _ answered, here.whole after answered]
      refine ⟨?_, fun last matched => ?_⟩
      · rw [evaluated]
        exact (List.prefix_append_right_inj _).mpr (later after).front
      · rw [Consult.bind_of_ok _ answered] at matched
        rw [evaluated, (later after).whole last matched]

end Progress

namespace Collaborators

open Progress

variable {host : Collaborators}

theorem evaluates_inCase {expressions : List Expression} {qualifier : Option String}
    {name : String} {value : Value} {env : Environment} {payload : List Value → Progress}
    (inside : ∀ values, Evaluates expressions (payload values)) :
    Evaluates expressions (host.inCase qualifier name value env payload) := by
  have quiet : (inCase.qualifies host qualifier value).evaluated = [] := by
    cases qualifier with
    | none => rfl
    | some enum => exact Consult.evaluated_ofAnswer _
  apply Evaluates.guarded quiet
  split
  · rename_i active _
    split
    · exact inside active.payload
    · exact .refuse expressions env
  · exact .refuse expressions env

theorem evaluated_compareWith (host : Collaborators) (expression : Expression) (value : Value) :
    (host.compareWith expression value).evaluated = [expression] := by
  unfold compareWith
  cases answered : (Consult.ask (.evaluated expression) (host.evaluate expression)).answer with
  | error fault =>
    rw [Consult.evaluated_bind_of_error _ answered]
    rfl
  | ok pattern =>
    rw [Consult.evaluated_bind_of_ok _ answered, ResolverRegistry.evaluated_compare]
    rfl

def InOrder (host : Collaborators) (pattern : Pattern) : Prop :=
  ∀ mutable subject env,
    Evaluates pattern.expressions (host.matchInto mutable pattern subject env)

theorem evaluates_matchEach {items : List Pattern} (each : ∀ item ∈ items, host.InOrder item)
    {mutable : Bool} {values : List Value} {env : Environment}
    (sizes : items.length = values.length) :
    Evaluates (items.flatMap Pattern.expressions) (host.matchEach mutable items values env) := by
  induction items generalizing values env with
  | nil => exact .nothing rfl
  | cons item rest induction =>
    cases values with
    | nil => cases sizes
    | cons value values =>
      rw [matchEach, List.flatMap_cons]
      have eachLater : ∀ item ∈ rest, host.InOrder item :=
        fun item member => each item (.tail _ member)
      exact (each item (.head _) mutable (.value value) env).append
        (fun after => induction eachLater (Nat.succ.inj sizes)) fun after => ⟨after, rfl⟩

theorem evaluates_inSequence {items : List Pattern} (each : ∀ item ∈ items, host.InOrder item)
    {mutable : Bool} {values : List Value} {env : Environment} :
    Evaluates (items.flatMap Pattern.expressions)
      (inSequence items.length values env (host.matchEach mutable items values env)) := by
  unfold inSequence
  split
  · rename_i sizes
    rw [← List.append_nil (items.flatMap Pattern.expressions)]
    exact (evaluates_matchEach each sizes).append (fun after => .nothing rfl)
      fun after => ⟨after.rollback env.checkpoint, rfl⟩
  · exact .refuse _ env

theorem inOrder_tuple {items : List Pattern} (each : ∀ item ∈ items, host.InOrder item) :
    host.InOrder (.tuple items) := by
  intro mutable subject env
  rw [Pattern.expressions, Pattern.expressionsEach_eq_flatMap]
  cases subject with
  | payload values =>
    rw [matchInto]
    exact evaluates_inSequence each
  | value value =>
    by_cases single : ∃ item, items = [item]
    · rcases single with ⟨item, rfl⟩
      rw [List.flatMap_singleton, matchInto]
      exact each item (.head _) mutable (.value value) env
    · rw [matchInto]
      · unfold inTuple
        split
        · split
          · split
            · exact evaluates_inSequence each
            · exact .fault _ _
          · exact .refuse _ env
        · exact .refuse _ env
      · exact fun item equal => single ⟨item, equal⟩

theorem inOrder_matchInto (host : Collaborators) (pattern : Pattern) : host.InOrder pattern := by
  induction pattern with
  | wildcard | identifier => exact fun _ _ _ => .nothing rfl
  | binding inner innerMutable induction =>
    intro mutable subject env
    rw [matchInto]
    exact induction innerMutable _ env
  | tuple items induction => exact inOrder_tuple induction
  | enumCase qualifier name payload induction =>
    intro mutable subject env
    cases payload with
    | none =>
      rw [Pattern.expressions, matchInto]
      exact evaluates_inCase fun values => .nothing rfl
    | some payload =>
      rw [Pattern.expressions, matchInto]
      exact evaluates_inCase fun values => induction payload rfl mutable (.ofPayload values) env
  | optional inner induction =>
    intro mutable subject env
    rw [matchInto]
    exact evaluates_inCase fun values => induction mutable (.ofPayload values) env
  | isType type =>
    intro mutable subject env
    rw [matchInto]
    exact .after (Consult.evaluated_ofAnswer _) fun passed => .nothing rfl
  | cast inner type induction =>
    intro mutable subject env
    rw [matchInto]
    apply Evaluates.guarded (Consult.evaluated_ofAnswer _)
    apply Evaluates.after (Consult.evaluated_ofAnswer _)
    intro target
    apply Evaluates.after (Consult.evaluated_ofAnswer _)
    intro view
    exact induction mutable (.value view) env
  | expression expression =>
    intro mutable subject env
    have evaluated : (host.matchInto mutable (.expression expression) subject env).evaluated =
        [expression] := by
      rw [matchInto]
      cases answered : (host.compareWith expression subject.toValue).answer with
      | ok same =>
        rw [Consult.evaluated_bind_of_ok _ answered, evaluated_compareWith]
        rfl
      | error fault =>
        rw [Consult.evaluated_bind_of_error _ answered, evaluated_compareWith]
    exact ⟨evaluated ▸ List.prefix_rfl, fun _ _ => evaluated⟩
  | annotated inner type induction =>
    intro mutable subject env
    rw [matchInto]
    exact .guarded (Consult.evaluated_ofAnswer _) (induction mutable (.value subject.toValue) env)

/-! ## Whole patterns -/

theorem evaluated_front (host : Collaborators) (pattern : Pattern) (value : Value)
    (scope : Environment) :
    (host.matchPattern pattern value scope).evaluated <+: pattern.expressions := by
  rw [matchPattern_eq]
  exact (inOrder_matchInto host pattern false (.value value) .empty).front

theorem evaluated_of_bound {pattern : Pattern} {value : Value} {scope env : Environment}
    (bound : (host.matchPattern pattern value scope).answer = .ok (some env)) :
    (host.matchPattern pattern value scope).evaluated = pattern.expressions := by
  rcases matchPattern_eq_some_iff.mp bound with ⟨after, matched, -⟩
  rw [matchPattern_eq]
  exact (inOrder_matchInto host pattern false (.value value) .empty).whole after matched

/-! ## Choosing between patterns -/

def Fails (host : Collaborators) (value : Value) (scope : Environment) (pattern : Pattern) : Prop :=
  (host.matchPattern pattern value scope).answer = .ok none

section

variable {value : Value} {scope : Environment}

theorem go_of_fails {pattern : Pattern} (fails : host.Fails value scope pattern)
    (rest : List Pattern) (index : Nat) :
    firstMatch.go host value scope index (pattern :: rest) =
      ⟨(host.matchPattern pattern value scope).queries ++
          (firstMatch.go host value scope (index + 1) rest).queries,
        (firstMatch.go host value scope (index + 1) rest).answer⟩ := by
  rw [firstMatch.go, Consult.bind_of_ok _ fails]

theorem go_of_each_fails {before : List Pattern}
    (fail : ∀ earlier ∈ before, host.Fails value scope earlier) (rest : List Pattern)
    (index : Nat) :
    firstMatch.go host value scope index (before ++ rest) =
      ⟨(before.flatMap fun earlier => (host.matchPattern earlier value scope).queries) ++
          (firstMatch.go host value scope (index + before.length) rest).queries,
        (firstMatch.go host value scope (index + before.length) rest).answer⟩ := by
  induction before generalizing index with
  | nil => rfl
  | cons pattern before induction =>
    have later := induction (fun earlier member => fail earlier (.tail _ member)) (index + 1)
    rw [List.cons_append, go_of_fails (fail pattern (.head _)), later, List.flatMap_cons,
      List.append_assoc, List.length_cons, Nat.add_right_comm, Nat.add_assoc]

theorem go_of_settled {pattern : Pattern} (settled : ¬ host.Fails value scope pattern)
    (rest : List Pattern) (index : Nat) :
    firstMatch.go host value scope index (pattern :: rest) =
      ⟨(host.matchPattern pattern value scope).queries,
        (host.matchPattern pattern value scope).answer.map (·.map (index, ·))⟩ := by
  rw [firstMatch.go]
  cases answered : (host.matchPattern pattern value scope).answer with
  | error fault => rw [Consult.bind_of_error _ answered]; rfl
  | ok outcome =>
    cases outcome with
    | none => exact absurd answered settled
    | some env =>
      rw [Consult.bind_of_ok _ answered]
      change (⟨_ ++ [], _⟩ : Consult _) = _
      rw [List.append_nil]
      rfl

/-- All patterns before the one at this place fail. -/
structure Reaches (host : Collaborators) (value : Value) (scope : Environment)
    (patterns : List Pattern) (index : Nat) (pattern : Pattern) : Prop where
  here : patterns[index]? = some pattern
  fail : ∀ earlier ∈ patterns.take index, host.Fails value scope earlier

theorem firstMatch_of_reaches {patterns : List Pattern} {index : Nat} {pattern : Pattern}
    (reaches : host.Reaches value scope patterns index pattern)
    (settled : ¬ host.Fails value scope pattern) :
    host.firstMatch patterns value scope =
      ⟨(patterns.take (index + 1)).flatMap fun earlier =>
          (host.matchPattern earlier value scope).queries,
        (host.matchPattern pattern value scope).answer.map (·.map (index, ·))⟩ := by
  rcases List.getElem?_eq_some_iff.mp reaches.here with ⟨inside, same⟩
  have split : patterns = patterns.take index ++ pattern :: patterns.drop (index + 1) := by
    rw [← same, List.getElem_cons_drop, List.take_append_drop]
  have length : (patterns.take index).length = index := List.length_take_of_le (by omega)
  calc host.firstMatch patterns value scope
      = firstMatch.go host value scope 0
          (patterns.take index ++ pattern :: patterns.drop (index + 1)) := by
        rw [← split]
        rfl
    _ = _ := by
        rw [go_of_each_fails reaches.fail, go_of_settled settled, length, Nat.zero_add,
          List.take_add_one, reaches.here, List.flatMap_append, Option.toList_some,
          List.flatMap_singleton]

theorem firstMatch_of_each_fails {patterns : List Pattern}
    (fail : ∀ pattern ∈ patterns, host.Fails value scope pattern) :
    host.firstMatch patterns value scope =
      ⟨patterns.flatMap fun pattern => (host.matchPattern pattern value scope).queries,
        .ok none⟩ := by
  have whole := go_of_each_fails fail [] 0
  rw [List.append_nil] at whole
  rw [firstMatch, whole, firstMatch.go]
  change (⟨_ ++ [], _⟩ : Consult _) = _
  rw [List.append_nil]
  rfl

theorem each_fails_or_reaches (host : Collaborators) (value : Value) (scope : Environment)
    (patterns : List Pattern) :
    (∀ pattern ∈ patterns, host.Fails value scope pattern) ∨
      ∃ index pattern, host.Reaches value scope patterns index pattern ∧
        ¬ host.Fails value scope pattern := by
  induction patterns with
  | nil => exact .inl fun pattern member => by cases member
  | cons first rest induction =>
    by_cases fails : host.Fails value scope first
    · rcases induction with each | ⟨index, pattern, reaches, settled⟩
      · exact .inl (List.forall_mem_cons.mpr ⟨fails, each⟩)
      · refine .inr ⟨index + 1, pattern, ⟨reaches.here, ?_⟩, settled⟩
        rw [List.take_succ_cons]
        exact List.forall_mem_cons.mpr ⟨fails, reaches.fail⟩
    · exact .inr ⟨0, first, ⟨rfl, fun earlier member => by cases member⟩, fails⟩

theorem firstMatch_answer_eq_iff {patterns : List Pattern}
    {answer : Except Fault (Option (Nat × Environment))} (settled : answer ≠ .ok none) :
    (host.firstMatch patterns value scope).answer = answer ↔
      ∃ index pattern, host.Reaches value scope patterns index pattern ∧
        (host.matchPattern pattern value scope).answer.map (·.map (index, ·)) = answer := by
  constructor
  · rintro rfl
    rcases each_fails_or_reaches host value scope patterns with
      each | ⟨index, pattern, reaches, stops⟩
    · rw [firstMatch_of_each_fails each] at settled
      exact absurd rfl settled
    · exact ⟨index, pattern, reaches, by rw [firstMatch_of_reaches reaches stops]⟩
  · rintro ⟨index, pattern, reaches, rfl⟩
    have stops : ¬ host.Fails value scope pattern := by
      intro fails
      rw [fails] at settled
      exact settled rfl
    rw [firstMatch_of_reaches reaches stops]

theorem firstMatch_eq_some_iff {patterns : List Pattern} {index : Nat} {env : Environment} :
    (host.firstMatch patterns value scope).answer = .ok (some (index, env)) ↔
      ∃ pattern, host.Reaches value scope patterns index pattern ∧
        (host.matchPattern pattern value scope).answer = .ok (some env) := by
  have answers : (.ok (some (index, env)) : Except Fault _) ≠ .ok none := nofun
  rw [firstMatch_answer_eq_iff answers]
  constructor
  · rintro ⟨place, pattern, reaches, chosen⟩
    match answered : (host.matchPattern pattern value scope).answer with
    | .error fault => rw [answered] at chosen; cases chosen
    | .ok none => rw [answered] at chosen; cases chosen
    | .ok (some bound) =>
      rw [answered] at chosen
      cases chosen
      exact ⟨pattern, reaches, answered⟩
  · rintro ⟨pattern, reaches, answered⟩
    exact ⟨index, pattern, reaches, by rw [answered]; rfl⟩

theorem firstMatch_eq_error_iff {patterns : List Pattern} {fault : Fault} :
    (host.firstMatch patterns value scope).answer = .error fault ↔
      ∃ index pattern, host.Reaches value scope patterns index pattern ∧
        (host.matchPattern pattern value scope).answer = .error fault := by
  have answers : (.error fault : Except Fault (Option (Nat × Environment))) ≠ .ok none := nofun
  rw [firstMatch_answer_eq_iff answers]
  constructor
  · rintro ⟨index, pattern, reaches, chosen⟩
    cases answered : (host.matchPattern pattern value scope).answer with
    | ok outcome => rw [answered] at chosen; cases chosen
    | error other =>
      rw [answered] at chosen
      cases chosen
      exact ⟨index, pattern, reaches, answered⟩
  · rintro ⟨index, pattern, reaches, answered⟩
    exact ⟨index, pattern, reaches, by rw [answered]; rfl⟩

theorem Reaches.before {patterns : List Pattern} {index : Nat} {pattern : Pattern}
    (reaches : host.Reaches value scope patterns index pattern) (behind : List Pattern) :
    (patterns.take (index + 1) ++ behind).take (index + 1) = patterns.take (index + 1) ∧
      host.Reaches value scope (patterns.take (index + 1) ++ behind) index pattern := by
  rcases List.getElem?_eq_some_iff.mp reaches.here with ⟨inside, same⟩
  have length : (patterns.take (index + 1)).length = index + 1 :=
    List.length_take_of_le (by omega)
  refine ⟨List.take_left' length, ?_, ?_⟩
  · rw [List.getElem?_append_left (by omega), List.getElem?_take_of_lt (Nat.lt_succ_self index)]
    exact reaches.here
  · rw [List.take_append_of_le_length (by omega), List.take_take, Nat.min_eq_left (by omega)]
    exact reaches.fail

theorem firstMatch_behind {patterns : List Pattern} {index : Nat} {pattern : Pattern}
    (reaches : host.Reaches value scope patterns index pattern)
    (settled : ¬ host.Fails value scope pattern) (behind : List Pattern) :
    host.firstMatch (patterns.take (index + 1) ++ behind) value scope =
      host.firstMatch patterns value scope := by
  rcases reaches.before behind with ⟨front, still⟩
  rw [firstMatch_of_reaches still settled, firstMatch_of_reaches reaches settled, front]

theorem evaluated_firstMatch {patterns : List Pattern} {index : Nat} {pattern : Pattern}
    (reaches : host.Reaches value scope patterns index pattern)
    (settled : ¬ host.Fails value scope pattern) :
    (host.firstMatch patterns value scope).evaluated =
      (patterns.take (index + 1)).flatMap fun earlier =>
        (host.matchPattern earlier value scope).evaluated := by
  rw [firstMatch_of_reaches reaches settled]
  exact List.filterMap_flatMap

theorem evaluated_firstMatch_of_each_fails {patterns : List Pattern}
    (fail : ∀ pattern ∈ patterns, host.Fails value scope pattern) :
    (host.firstMatch patterns value scope).evaluated =
      patterns.flatMap fun pattern => (host.matchPattern pattern value scope).evaluated := by
  rw [firstMatch_of_each_fails fail]
  exact List.filterMap_flatMap

end

/-- Evaluation goes from left to right and stops with the answer.  A match hands the evaluator a
front part of the expressions of its pattern, and all of them if it binds.  The first pattern that
does not fail settles a choice: what it answers is the answer, the evaluations are those of the
patterns up to it, and other patterns behind it change neither the answer nor the queries. -/
theorem evaluates_from_left_to_right (host : Collaborators) (patterns : List Pattern)
    (value : Value) (scope : Environment) :
    (∀ pattern, (host.matchPattern pattern value scope).evaluated <+: pattern.expressions ∧
      ∀ env, (host.matchPattern pattern value scope).answer = .ok (some env) →
        (host.matchPattern pattern value scope).evaluated = pattern.expressions) ∧
    (∀ index env, (host.firstMatch patterns value scope).answer = .ok (some (index, env)) ↔
      ∃ pattern, host.Reaches value scope patterns index pattern ∧
        (host.matchPattern pattern value scope).answer = .ok (some env)) ∧
    (∀ fault, (host.firstMatch patterns value scope).answer = .error fault ↔
      ∃ index pattern, host.Reaches value scope patterns index pattern ∧
        (host.matchPattern pattern value scope).answer = .error fault) ∧
    (∀ index pattern, host.Reaches value scope patterns index pattern →
      ¬ host.Fails value scope pattern →
      (host.firstMatch patterns value scope).evaluated =
          ((patterns.take (index + 1)).flatMap fun earlier =>
            (host.matchPattern earlier value scope).evaluated) ∧
        ∀ behind, host.firstMatch (patterns.take (index + 1) ++ behind) value scope =
          host.firstMatch patterns value scope) ∧
    ((∀ pattern ∈ patterns, host.Fails value scope pattern) →
      (host.firstMatch patterns value scope).evaluated =
        patterns.flatMap fun pattern => (host.matchPattern pattern value scope).evaluated) :=
  ⟨fun pattern => ⟨evaluated_front host pattern value scope, fun _ => evaluated_of_bound⟩,
    fun _ _ => firstMatch_eq_some_iff, fun _ => firstMatch_eq_error_iff,
    fun _ _ reaches settled =>
      ⟨evaluated_firstMatch reaches settled, firstMatch_behind reaches settled⟩,
    evaluated_firstMatch_of_each_fails⟩

/-- Against `(1, 2)`, the pattern `(1, 3)` evaluates both literals and fails, `(x, 2)` evaluates one
and is bound, and `(-true, 2)`, whose first expression faults, is not looked at. -/
theorem evaluates_up_to_the_bound_pattern :
    let host : Collaborators := ⟨NominalTypes.initial.oracle, evaluateLiteral, .empty⟩
    let literal (value : Int64) : Pattern := .expression (.integer value)
    let bound : Pattern := .tuple [.identifier "x", literal 2]
    let patterns : List Pattern := [.tuple [literal 1, literal 3], bound,
      .tuple [.expression (.negate (.boolean true)), literal 2]]
    let value : Value := .tuple [.integer 1, .integer 2]
    let env := Environment.empty.push ⟨"x", .integer 1, false⟩
    host.Reaches value .empty patterns 1 bound ∧ ¬ host.Fails value .empty bound ∧
      (host.matchPattern bound value .empty).evaluated = [.integer 2] ∧
      (host.firstMatch patterns value .empty).answer = .ok (some (1, env)) ∧
      (host.firstMatch patterns value .empty).evaluated =
        [.integer 1, .integer 3, .integer 2] ∧
      host.firstMatch (patterns.take 2) value .empty = host.firstMatch patterns value .empty ∧
      (host.firstMatch (patterns.take 1) value .empty).evaluated = [.integer 1, .integer 3] := by
  intro host literal bound patterns value env
  have answered : (host.matchPattern bound value .empty).answer = .ok (some env) := by rfl
  have fails : ∀ pattern ∈ patterns.take 1, host.Fails value .empty pattern := by
    intro pattern member
    cases List.mem_singleton.mp member
    rfl
  have reaches : host.Reaches value .empty patterns 1 bound := ⟨rfl, fails⟩
  have settled : ¬ host.Fails value .empty bound := fun failed => by
    cases answered.symm.trans failed
  have general := evaluates_from_left_to_right host patterns value .empty
  have first := evaluates_from_left_to_right host (patterns.take 1) value .empty
  have choice := general.2.2.2.1 1 bound reaches settled
  exact ⟨reaches, settled, (general.1 bound).2 env answered,
    (general.2.1 1 env).mpr ⟨bound, reaches, answered⟩, choice.1, choice.2 [],
    first.2.2.2.2 fails⟩

end Collaborators

end PatternClauses
