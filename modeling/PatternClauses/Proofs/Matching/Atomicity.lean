import Mathlib.Logic.Relation
import PatternClauses.Matching
import PatternClauses.Typing.Builtin
import PatternClauses.Proofs.Environment.Extension

/-!
# Matching is atomic

A part of a pattern binds all of its names or none.  When it matches, the environment is extended
by one binding for each name, from left to right; when it does not, the environment is the one from
before.  Only a sequence of items goes back to a checkpoint, and that is enough.
-/

namespace PatternClauses

/-- One match for each name in order, or an untouched environment. -/
structure Progress.Atomic (names : List String) (env : Environment) (progress : Progress) :
    Prop where
  matched : ∀ after, progress.answer = .ok (true, after) →
    ∃ added : List Binding, added.map (·.name) = names ∧ after = env.extend added
  failed : ∀ after, progress.answer = .ok (false, after) → after = env

namespace Progress

theorem Atomic.test (test : Consult Bool) (env : Environment) :
    Atomic [] env (do return (← test, env)) where
  matched after answered := by
    rcases Consult.bind_answer_eq_ok_iff.mp answered with ⟨passed, -, same⟩
    cases same
    exact ⟨[], rfl, rfl⟩
  failed after answered := by
    rcases Consult.bind_answer_eq_ok_iff.mp answered with ⟨passed, -, same⟩
    cases same
    rfl

theorem Atomic.refuse (names : List String) (env : Environment) :
    Atomic names env (pure (false, env)) where
  matched after answered := by cases answered
  failed after answered := by cases answered; rfl

theorem Atomic.fault (names : List String) (env : Environment) (fault : Fault) :
    Atomic names env (.ofAnswer (.error fault)) where
  matched after answered := by cases answered
  failed after answered := by cases answered

theorem Atomic.after {names : List String} {env : Environment} (first : Consult α)
    {next : α → Progress} (atomic : ∀ value, Atomic names env (next value)) :
    Atomic names env (first >>= next) where
  matched after answered := by
    rcases Consult.bind_answer_eq_ok_iff.mp answered with ⟨value, -, rest⟩
    exact (atomic value).matched after rest
  failed after answered := by
    rcases Consult.bind_answer_eq_ok_iff.mp answered with ⟨value, -, rest⟩
    exact (atomic value).failed after rest

theorem Atomic.guarded {names : List String} {env : Environment} (test : Consult Bool)
    {next : Progress} (atomic : Atomic names env next) :
    Atomic names env (do if ← test then next else return (false, env)) := by
  apply Atomic.after
  intro passed
  cases passed with
  | true => exact atomic
  | false => exact .refuse names env

end Progress

namespace Collaborators

open Progress

variable {host : Collaborators}

theorem atomic_inCase {names : List String} {qualifier : Option String} {name : String}
    {value : Value} {env : Environment} {payload : List Value → Progress}
    (atomic : ∀ values, Atomic names env (payload values)) :
    Atomic names env (host.inCase qualifier name value env payload) := by
  apply Atomic.guarded
  split
  · rename_i active found
    split
    · exact atomic active.payload
    · exact .refuse names env
  · exact .refuse names env

/-! ## Sequences -/

def AtomicallyMatched (host : Collaborators) (pattern : Pattern) : Prop :=
  ∀ mutable subject env, pattern.bindings.Nodup → env.Lacks pattern.bindings →
    Atomic pattern.bindings env (host.matchInto mutable pattern subject env)

theorem matchEach_extends {items : List Pattern}
    (each : ∀ item ∈ items, host.AtomicallyMatched item) {mutable : Bool} {values : List Value}
    {env : Environment} (sizes : items.length = values.length)
    (unique : (items.flatMap Pattern.bindings).Nodup)
    (lacks : env.Lacks (items.flatMap Pattern.bindings)) {matched : Bool} {after : Environment}
    (answered : (host.matchEach mutable items values env).answer = .ok (matched, after)) :
    ∃ added : List Binding, after = env.extend added ∧
      added.map (·.name) <+: items.flatMap Pattern.bindings ∧
      (matched = true → added.map (·.name) = items.flatMap Pattern.bindings) := by
  induction items generalizing values env with
  | nil =>
    rw [matchEach] at answered
    · cases answered
      exact ⟨[], rfl, List.nil_prefix, fun _ => rfl⟩
    · exact fun _ _ _ _ impossible => by cases impossible
  | cons item rest induction =>
    cases values with
    | nil => cases sizes
    | cons value values =>
      rw [List.flatMap_cons] at unique lacks ⊢
      have parts := List.nodup_append.mp unique
      have atomic := each item (.head _) mutable (.value value) env parts.1
        fun name member => lacks name (List.mem_append_left _ member)
      rw [matchEach, Consult.bind_answer_eq_ok_iff] at answered
      rcases answered with ⟨⟨itemMatched, here⟩, first, others⟩
      cases itemMatched with
      | false =>
        cases others
        exact ⟨[], atomic.failed _ first, List.nil_prefix, fun impossible => by cases impossible⟩
      | true =>
        rcases atomic.matched _ first with ⟨bound, names, rfl⟩
        -- The items behind start with these names bound, none of which is their own.
        have free : (env.extend bound).Lacks (rest.flatMap Pattern.bindings) := by
          apply Environment.Lacks.extend
          · exact fun name member => lacks name (List.mem_append_right _ member)
          · intro name earlier later
            exact parts.2.2 name (names ▸ earlier) name later rfl
        have eachLater : ∀ item ∈ rest, host.AtomicallyMatched item :=
          fun item member => each item (.tail _ member)
        rcases induction eachLater (Nat.succ.inj sizes) parts.2.1 free others with
          ⟨added, rfl, front, all⟩
        refine ⟨bound ++ added, (Environment.extend_append _ _ _).symm, ?_, fun passed => ?_⟩
        · rw [List.map_append, names]
          exact (List.prefix_append_right_inj _).mpr front
        · rw [List.map_append, names, all passed]

/-- The checkpoint before a sequence makes all of it atomic. -/
theorem atomic_inSequence {items : List Pattern}
    (each : ∀ item ∈ items, host.AtomicallyMatched item) {mutable : Bool} {values : List Value}
    {env : Environment} (unique : (items.flatMap Pattern.bindings).Nodup)
    (lacks : env.Lacks (items.flatMap Pattern.bindings)) :
    Atomic (items.flatMap Pattern.bindings) env
      (inSequence items.length values env (host.matchEach mutable items values env)) := by
  unfold inSequence
  split
  · rename_i sizes
    constructor
    · intro after answered
      rcases Consult.bind_answer_eq_ok_iff.mp answered with ⟨⟨matched, reached⟩, first, last⟩
      rcases matchEach_extends each sizes unique lacks first with ⟨added, rfl, -, all⟩
      cases matched with
      | true =>
        cases last
        exact ⟨added, all rfl, rfl⟩
      | false => cases last
    · intro after answered
      rcases Consult.bind_answer_eq_ok_iff.mp answered with ⟨⟨matched, reached⟩, first, last⟩
      rcases matchEach_extends each sizes unique lacks first with ⟨added, rfl, front, -⟩
      cases matched with
      | true => cases last
      | false =>
        cases last
        exact Environment.rollback_extend fun name member => lacks name (front.subset member)
  · exact .refuse _ env

/-! ## Patterns -/

theorem atomic_tuple {items : List Pattern}
    (each : ∀ item ∈ items, host.AtomicallyMatched item) :
    host.AtomicallyMatched (.tuple items) := by
  intro mutable subject env unique lacks
  rw [Pattern.bindings, Pattern.bindingsEach_eq_flatMap] at unique lacks ⊢
  cases subject with
  | payload values =>
    rw [matchInto]
    exact atomic_inSequence each unique lacks
  | value value =>
    by_cases single : ∃ item, items = [item]
    · rcases single with ⟨item, rfl⟩
      rw [List.flatMap_singleton] at unique lacks ⊢
      rw [matchInto]
      exact each item (.head _) mutable _ env unique lacks
    · rw [matchInto]
      · unfold inTuple
        split
        · split
          · split
            · exact atomic_inSequence each unique lacks
            · exact .fault _ env _
          · exact .refuse _ env
        · exact .refuse _ env
      · exact fun item equal => single ⟨item, equal⟩

theorem atomic_matchInto (host : Collaborators) (pattern : Pattern) :
    host.AtomicallyMatched pattern := by
  induction pattern with
  | wildcard =>
    intro mutable subject env _ _
    rw [matchInto]
    exact Atomic.test (pure true) env
  | identifier name =>
    intro mutable subject env _ _
    rw [matchInto]
    constructor
    · intro after answered
      cases answered
      exact ⟨[⟨name, subject.toValue, mutable⟩], rfl, rfl⟩
    · intro after answered
      cases answered
  | binding inner innerMutable induction =>
    intro mutable subject env unique lacks
    rw [matchInto]
    exact induction innerMutable _ env unique lacks
  | tuple items induction => exact atomic_tuple induction
  | enumCase qualifier name payload induction =>
    intro mutable subject env unique lacks
    cases payload with
    | none =>
      rw [matchInto]
      exact atomic_inCase fun values => .test (pure values.isEmpty) env
    | some payload =>
      rw [matchInto]
      exact atomic_inCase fun values =>
        induction payload rfl mutable (.ofPayload values) env unique lacks
  | optional inner induction =>
    intro mutable subject env unique lacks
    rw [matchInto]
    exact atomic_inCase fun values => induction mutable (.ofPayload values) env unique lacks
  | isType type =>
    intro mutable subject env _ _
    rw [matchInto]
    exact .test (liftM (host.oracle.conforms subject.toValue type)) env
  | cast inner type induction =>
    intro mutable subject env unique lacks
    rw [matchInto]
    apply Atomic.guarded
    apply Atomic.after
    intro target
    apply Atomic.after
    intro view
    exact induction mutable (.value view) env unique lacks
  | expression expression =>
    intro mutable subject env _ _
    rw [matchInto]
    exact .test (host.compareWith expression subject.toValue) env
  | annotated inner type induction =>
    intro mutable subject env unique lacks
    rw [matchInto]
    exact .guarded _ (induction mutable (.value subject.toValue) env unique lacks)

/-! ## The matches that a match makes -/

/-- The match of a part of a pattern, in the environment that it starts from. -/
structure Call where
  mutable : Bool
  pattern : Pattern
  subject : Subject
  env : Environment

def Call.run (host : Collaborators) (call : Call) : Progress :=
  host.matchInto call.mutable call.pattern call.subject call.env

/-- The matches that a match may make directly.  What a part is matched against is left open, so
this has every match that a run makes; an item starts from the environment that the items before
it leave. -/
inductive Calls (host : Collaborators) : Call → Call → Prop
  | binding {inner : Pattern} : Calls host ⟨mutable, .binding inner innerMutable, subject, env⟩
      ⟨innerMutable, inner, part, env⟩
  | item (before : List Pattern) (values : List Value) (sizes : before.length = values.length)
      (passed : (host.matchEach mutable before values env).answer = .ok (true, here)) :
      Calls host ⟨mutable, .tuple (before ++ item :: behind), subject, env⟩
        ⟨mutable, item, part, here⟩
  | payload : Calls host ⟨mutable, .enumCase qualifier name (some payload), subject, env⟩
      ⟨mutable, payload, part, env⟩
  | optional {inner : Pattern} : Calls host ⟨mutable, .optional inner, subject, env⟩
      ⟨mutable, inner, part, env⟩
  | cast {inner : Pattern} : Calls host ⟨mutable, .cast inner type, subject, env⟩
      ⟨mutable, inner, part, env⟩
  | annotated {inner : Pattern} : Calls host ⟨mutable, .annotated inner type, subject, env⟩
      ⟨mutable, inner, part, env⟩

structure Call.Ready (call : Call) : Prop where
  unique : call.pattern.bindings.Nodup
  lacks : call.env.Lacks call.pattern.bindings

theorem Call.Ready.indexed_extend {call : Call} (ready : call.Ready) (indexed : call.env.Indexed)
    {added : List Binding} (front : added.map (·.name) <+: call.pattern.bindings) :
    (call.env.extend added).Indexed := by
  apply indexed.extend (ready.unique.sublist front.sublist)
  intro name member bound
  have free := ready.lacks name (front.subset member)
  rw [(indexed.contains_iff name).mpr bound] at free
  cases free

theorem Call.Ready.step {call next : Call} (ready : call.Ready) (step : Calls host call next) :
    next.Ready ∧ (call.env.Indexed → next.env.Indexed) := by
  cases step with
  | binding => exact ⟨⟨ready.unique, ready.lacks⟩, id⟩
  | payload => exact ⟨⟨ready.unique, ready.lacks⟩, id⟩
  | optional => exact ⟨⟨ready.unique, ready.lacks⟩, id⟩
  | cast => exact ⟨⟨ready.unique, ready.lacks⟩, id⟩
  | annotated => exact ⟨⟨ready.unique, ready.lacks⟩, id⟩
  | @item mutable env here item behind subject part before values sizes passed =>
    have names : (Pattern.tuple (before ++ item :: behind)).bindings =
        before.flatMap Pattern.bindings ++ (item.bindings ++ behind.flatMap Pattern.bindings) := by
      simp [Pattern.bindings]
    have unique := ready.unique
    have lacks := ready.lacks
    simp only [names] at unique lacks
    have parts := List.nodup_append.mp unique
    have free : env.Lacks (before.flatMap Pattern.bindings) :=
      fun name member => lacks name (List.mem_append_left _ member)
    have each : ∀ item ∈ before, host.AtomicallyMatched item :=
      fun item _ => atomic_matchInto host item
    rcases matchEach_extends each sizes parts.1 free passed with ⟨added, rfl, front, all⟩
    refine ⟨⟨(List.nodup_append.mp parts.2.1).1, ?_⟩, fun indexed => ?_⟩
    · apply Environment.Lacks.extend
      · intro name member
        exact lacks name (List.mem_append_right _ (List.mem_append_left _ member))
      · intro name earlier later
        exact parts.2.2 name (front.subset earlier) name (List.mem_append_left _ later) rfl
    · apply ready.indexed_extend indexed
      rw [names]
      exact front.trans (List.prefix_append _ _)

theorem Call.Ready.reaches {start call : Call} (ready : start.Ready)
    (reached : Relation.ReflTransGen (Calls host) start call) :
    call.Ready ∧ (start.env.Indexed → call.env.Indexed) := by
  induction reached with
  | refl => exact ⟨ready, id⟩
  | tail _ step induction =>
    have next := induction.1.step step
    exact ⟨next.1, fun indexed => next.2 (induction.2 indexed)⟩

/-- Matching is atomic at every part of a pattern.  Let a run start from an environment that has
none of the pattern's names.  Whichever part is matched in the course of it, the environment
afterwards is the one before followed by a binding for each name of the part, from left to right,
if the part matched, and the one before, list and index, if it did not.  No name is ever pushed
that is bound already. -/
theorem atomic_at_every_part (host : Collaborators) (mutable : Bool) (pattern : Pattern)
    (value : Value) (env : Environment) (distinct : pattern.checkBindings = .ok ())
    (free : ∀ name ∈ pattern.bindings, env.contains name = false) (call : Call)
    (reached : Relation.ReflTransGen (Calls host) ⟨mutable, pattern, .value value, env⟩ call) :
    (∀ after, (call.run host).answer = .ok (true, after) →
      ∃ added : List Binding, added.map (·.name) = call.pattern.bindings ∧
        after.bindings = call.env.bindings ++ added ∧ after = call.env.extend added ∧
        (env.Indexed → after.Indexed)) ∧
    (∀ after, (call.run host).answer = .ok (false, after) → after = call.env) ∧
    ∀ name, call.pattern = .identifier name → call.env.contains name = false := by
  have start : Call.Ready ⟨mutable, pattern, .value value, env⟩ :=
    ⟨(Pattern.checkBindings_eq_ok_iff pattern).mp distinct, free⟩
  rcases start.reaches reached with ⟨ready, indexed⟩
  have atomic := atomic_matchInto host call.pattern call.mutable call.subject call.env
    ready.unique ready.lacks
  refine ⟨fun after answered => ?_, atomic.failed, fun name leaf => ?_⟩
  · rcases atomic.matched after answered with ⟨added, names, rfl⟩
    refine ⟨added, names, Environment.bindings_extend _ _, rfl, fun consistent => ?_⟩
    exact ready.indexed_extend (indexed consistent) (names ▸ List.prefix_rfl)
  · apply ready.lacks name
    rw [leaf, Pattern.bindings]
    exact .head _

/-- In `(x, (y, 0))` against `(1, (2, 3))` the inner tuple starts with `x` bound, binds `y`, fails
at the literal and leaves `x` alone. -/
theorem atomic_inside_tuple :
    let host : Collaborators := ⟨NominalTypes.initial.oracle, evaluateLiteral, .empty⟩
    let inner : Pattern := .tuple [.identifier "y", .expression (.integer 0)]
    let pattern : Pattern := .tuple [.identifier "x", inner]
    let pair : Value := .tuple [.integer 2, .integer 3]
    let scope := Environment.empty.push ⟨"z", .integer 0, true⟩
    let call : Call := ⟨false, inner, .value pair, scope.push ⟨"x", .integer 1, false⟩⟩
    pattern.checkBindings = .ok () ∧
      (∀ name ∈ pattern.bindings, scope.contains name = false) ∧
      Relation.ReflTransGen (Calls host)
        ⟨false, pattern, .value (.tuple [.integer 1, pair]), scope⟩ call ∧
      ∃ after, (call.run host).answer = .ok (false, after) ∧ after = call.env := by
  intro host inner pattern pair scope call
  have distinct : pattern.checkBindings = .ok () := by rfl
  have free : ∀ name ∈ pattern.bindings, scope.contains name = false := by decide +kernel
  have reached : Relation.ReflTransGen (Calls host)
      ⟨false, pattern, .value (.tuple [.integer 1, pair]), scope⟩ call :=
    .single (.item [.identifier "x"] [.integer 1] rfl rfl)
  have failed : ((call.run host).answer.map Prod.fst) = .ok false := by rfl
  refine ⟨distinct, free, reached, ?_⟩
  cases answered : (call.run host).answer with
  | error fault => rw [answered] at failed; cases failed
  | ok outcome =>
    rcases outcome with ⟨matched, after⟩
    rw [answered] at failed
    cases failed
    exact ⟨after, rfl, (atomic_at_every_part host false pattern _ scope distinct free call
      reached).2.1 after answered⟩

end Collaborators

end PatternClauses
