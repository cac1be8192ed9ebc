import PatternClauses.Consult
import PatternClauses.Environment
import PatternClauses.Equivalence
import PatternClauses.Evaluation
import PatternClauses.Pattern

/-!
# Matching

A pattern is matched against a value in a fresh environment, which is merged into the caller's
scope only when the whole pattern has matched.  Items are matched from left to right; the first
that does not match undoes the bindings of those before it, and nothing behind it is evaluated.
-/

namespace PatternClauses

/-- The host of a match: what it says about types, expressions and equivalence. -/
structure Collaborators where
  oracle : TypeOracle
  evaluate : Evaluator
  resolvers : ResolverRegistry

/-- What a pattern is matched against: a value, or the associated values of a case when their
number is not one. -/
inductive Subject where
  | value (value : Value)
  | payload (items : List Value)

namespace Subject

/-- A single associated value stands for itself. -/
def ofPayload : List Value → Subject
  | [item] => .value item
  | items => .payload items

theorem ofPayload_of_length_ne_one {values : List Value} (several : values.length ≠ 1) :
    ofPayload values = .payload values := by
  match values with
  | [] => rfl
  | [item] => exact absurd rfl several
  | first :: second :: rest => rfl

def toValue : Subject → Value
  | .value single => single
  | .payload items => .tuple items

end Subject

/-- Whether a part of a pattern matched, and the environment after it. -/
abbrev Progress := Consult (Bool × Environment)

namespace Collaborators

/-- Match items against as many values.  When an item does not match, the environment goes back
to what it was. -/
def inSequence (count : Nat) (values : List Value) (env : Environment) (items : Progress) :
    Progress :=
  if count = values.length then do
    let (matched, after) ← items
    if matched then return (true, after)
    else return (false, after.rollback env.checkpoint)
  else return (false, env)

def inTuple (host : Collaborators) (count : Nat) (value : Value) (env : Environment)
    (items : List Value → Progress) : Progress :=
  match host.oracle.shape? value with
  | some arity =>
    if arity = count then
      match host.oracle.components? value with
      | some values => inSequence count values env (items values)
      | none => .ofAnswer (.error (.missingComponents value))
    else return (false, env)
  | none => return (false, env)

def inCase (host : Collaborators) (qualifier : Option String) (name : String) (value : Value)
    (env : Environment) (payload : List Value → Progress) : Progress := do
  if ← qualifies then
    match host.oracle.activeCase? value with
    | some active => if active.name = name then payload active.payload else return (false, env)
    | none => return (false, env)
  else return (false, env)
where
  qualifies : Consult Bool :=
    match qualifier with
    | some enum => host.oracle.conforms value (.named enum)
    | none => pure true

def compareWith (host : Collaborators) (expression : Expression) (value : Value) :
    Consult Bool := do
  let pattern ← Consult.ask (.evaluated expression) (host.evaluate expression)
  host.resolvers.compare host.oracle pattern value

mutual

/-- Match a pattern, adding its bindings to an environment.  They are mutable if the innermost
binding form around them is. -/
def matchInto (host : Collaborators) (mutable : Bool) :
    Pattern → Subject → Environment → Progress
  | .wildcard, _, env => return (true, env)
  | .identifier name, subject, env => return (true, env.push ⟨name, subject.toValue, mutable⟩)
  | .binding inner innerMutable, subject, env =>
    host.matchInto innerMutable inner (.value subject.toValue) env
  | .tuple [item], .value value, env => host.matchInto mutable item (.value value) env
  | .tuple items, .value value, env =>
    host.inTuple items.length value env fun values => host.matchEach mutable items values env
  | .tuple items, .payload values, env =>
    inSequence items.length values env (host.matchEach mutable items values env)
  | .enumCase qualifier name none, subject, env =>
    host.inCase qualifier name subject.toValue env fun values => return (values.isEmpty, env)
  | .enumCase qualifier name (some payload), subject, env =>
    host.inCase qualifier name subject.toValue env fun values =>
      host.matchInto mutable payload (.ofPayload values) env
  | .optional inner, subject, env =>
    host.inCase (some optionalName) someName subject.toValue env fun values =>
      host.matchInto mutable inner (.ofPayload values) env
  | .isType type, subject, env => do
    return (← host.oracle.conforms subject.toValue type, env)
  | .cast inner type, subject, env => do
    let value := subject.toValue
    if ← host.oracle.conforms value type then
      let target ← host.oracle.resolve type
      let view ← host.oracle.reinterpret value target
      host.matchInto mutable inner (.value view) env
    else return (false, env)
  | .expression expression, subject, env => do
    return (← host.compareWith expression subject.toValue, env)
  | .annotated inner type, subject, env => do
    if ← host.oracle.conforms subject.toValue type then
      host.matchInto mutable inner (.value subject.toValue) env
    else return (false, env)

def matchEach (host : Collaborators) (mutable : Bool) :
    List Pattern → List Value → Environment → Progress
  | item :: items, value :: values, env => do
    let (matched, after) ← host.matchInto mutable item (.value value) env
    if matched then host.matchEach mutable items values after else return (false, after)
  | _, _, env => return (true, env)

end

/-! ## Whole patterns -/

/-- Match a pattern that binds each name once.  The answer is the scope with the bindings merged
in, or `none` if the pattern does not match. -/
def matchPattern (host : Collaborators) (pattern : Pattern) (value : Value) (scope : Environment) :
    Consult (Option Environment) := do
  let (matched, env) ← host.matchInto false pattern (.value value) .empty
  return if matched then some (env.commitInto scope) else none

/-- The scope plays no part until the pattern has matched. -/
theorem matchPattern_eq (host : Collaborators) (pattern : Pattern) (value : Value)
    (scope : Environment) :
    host.matchPattern pattern value scope =
      ⟨(host.matchInto false pattern (.value value) .empty).queries,
        (host.matchInto false pattern (.value value) .empty).answer.map fun (matched, env) =>
          if matched then some (env.commitInto scope) else none⟩ :=
  Consult.bind_pure_eq _ _

section

variable {host : Collaborators} {pattern : Pattern} {value : Value} {scope : Environment}

theorem matchPattern_eq_some_iff {out : Environment} :
    (host.matchPattern pattern value scope).answer = .ok (some out) ↔
      ∃ env, (host.matchInto false pattern (.value value) .empty).answer = .ok (true, env) ∧
        env.commitInto scope = out := by
  rw [matchPattern_eq]
  match (host.matchInto false pattern (.value value) .empty).answer with
  | .error fault => simp [Except.map]
  | .ok (false, env) => simp [Except.map]
  | .ok (true, env) => simp [Except.map]

theorem matchPattern_eq_none_iff :
    (host.matchPattern pattern value scope).answer = .ok none ↔
      ∃ env, (host.matchInto false pattern (.value value) .empty).answer = .ok (false, env) := by
  rw [matchPattern_eq]
  match (host.matchInto false pattern (.value value) .empty).answer with
  | .error fault => simp [Except.map]
  | .ok (false, env) => simp [Except.map]
  | .ok (true, env) => simp [Except.map]

theorem matchPattern_eq_error_iff {fault : Fault} :
    (host.matchPattern pattern value scope).answer = .error fault ↔
      (host.matchInto false pattern (.value value) .empty).answer = .error fault := by
  rw [matchPattern_eq]
  cases (host.matchInto false pattern (.value value) .empty).answer <;> simp [Except.map]

end

/-- The first of several patterns that matches, with its position.  Those behind it are not
looked at. -/
def firstMatch (host : Collaborators) (patterns : List Pattern) (value : Value)
    (scope : Environment) : Consult (Option (Nat × Environment)) :=
  go 0 patterns
where
  go (index : Nat) : List Pattern → Consult (Option (Nat × Environment))
    | [] => return none
    | pattern :: rest => do
      match ← host.matchPattern pattern value scope with
      | some env => return some (index, env)
      | none => go (index + 1) rest

end Collaborators

end PatternClauses
