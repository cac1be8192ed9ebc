import Mathlib.Data.List.Forall2
import PatternClauses.Matching
import PatternClauses.Typing.Builtin

/-!
# No answer rests on a fault

Let a host give way to another one that answers as the first does wherever the first answers; where
the first faults, the other may say anything.  Then each answer of a match, that it bound or that it
failed, stays what it was.  So no query that faulted has a part in an answer.
-/

namespace PatternClauses

/-- The second has the answer of the first; where the first is a fault, it may be anything. -/
def Keeps (first second : Except Fault α) : Prop := ∀ value, first = .ok value → second = .ok value

theorem Keeps.refl (answer : Except Fault α) : Keeps answer answer := fun _ answered => answered

theorem Keeps.bind {first second : Except Fault α} {next other : α → Except Fault β}
    (kept : Keeps first second) (each : ∀ value, Keeps (next value) (other value)) :
    Keeps (first >>= next) (second >>= other) := by
  intro result answered
  rcases except_bind_eq_ok_iff.mp answered with ⟨value, before, after⟩
  exact except_bind_eq_ok_iff.mpr ⟨value, kept value before, each value result after⟩

namespace Consult

theorem keeps_bind {first second : Consult α} {next other : α → Consult β}
    (kept : Keeps first.answer second.answer)
    (each : ∀ value, Keeps (next value).answer (other value).answer) :
    Keeps (first >>= next).answer (second >>= other).answer := by
  intro result answered
  rcases bind_answer_eq_ok_iff.mp answered with ⟨value, before, after⟩
  exact bind_answer_eq_ok_iff.mpr ⟨value, kept value before, each value result after⟩

theorem keeps_guarded {test otherTest : Consult Bool} {next other refused : Consult α}
    (kept : Keeps test.answer otherTest.answer) (passed : Keeps next.answer other.answer) :
    Keeps (do if ← test then next else refused).answer
      (do if ← otherTest then other else refused).answer := by
  apply keeps_bind kept
  intro answer
  cases answer with
  | true => exact passed
  | false => exact .refl _

end Consult

/-! ## Registries -/

namespace ResolverRegistry

def verdict (registry : ResolverRegistry) (oracle : TypeOracle) (types : TypePair)
    (pattern candidate : Value) : Except Fault Bool :=
  match registry.nearest? oracle types with
  | some resolver => resolver.compare pattern candidate
  | none => .ok (pattern.matchesByDefault candidate)

theorem compare_answer (registry : ResolverRegistry) (oracle : TypeOracle)
    (pattern candidate : Value) :
    (registry.compare oracle pattern candidate).answer =
      oracle.dynamicType pattern >>= fun patternType =>
        oracle.dynamicType candidate >>= fun candidateType =>
          registry.verdict oracle ⟨patternType, candidateType⟩ pattern candidate := by
  unfold compare
  cases first : oracle.dynamicType pattern with
  | error fault => rfl
  | ok patternType =>
    cases second : oracle.dynamicType candidate with
    | error fault => rfl
    | ok candidateType =>
      change (match registry.nearest? oracle ⟨patternType, candidateType⟩ with
        | some resolver => resolver.ask pattern candidate
        | none => (pure (pattern.matchesByDefault candidate) : Consult Bool)).answer =
          registry.verdict oracle ⟨patternType, candidateType⟩ pattern candidate
      unfold verdict
      split <;> rfl

def SlotKept (slot other : Registered) : Prop :=
  slot.types = other.types ∧
    ∀ pattern candidate, Keeps (slot.resolver.compare pattern candidate)
      (other.resolver.compare pattern candidate)

/-- The same pairs stand in the same places, each with a resolver that keeps the answers. -/
structure KeptBy (registry other : ResolverRegistry) : Prop where
  slots : List.Forall₂ SlotKept registry.slots other.slots
  places : registry.places = other.places

theorem keptBy_empty : empty.KeptBy empty := ⟨.nil, rfl⟩

theorem slotsKept_set {slots others : List Registered} (kept : List.Forall₂ SlotKept slots others)
    {slot other : Registered} (here : SlotKept slot other) (place : Nat) :
    List.Forall₂ SlotKept (slots.set place slot) (others.set place other) := by
  induction kept generalizing place with
  | nil => exact .nil
  | cons first rest induction =>
    cases place with
    | zero => exact .cons here rest
    | succ place => exact .cons first (induction place)

theorem KeptBy.register {registry other : ResolverRegistry} (kept : registry.KeptBy other)
    (types : TypePair) {resolver otherResolver : Resolver}
    (answers : ∀ pattern candidate, Keeps (resolver.compare pattern candidate)
      (otherResolver.compare pattern candidate)) :
    (registry.register types resolver).KeptBy (other.register types otherResolver) := by
  have slot : SlotKept ⟨types, resolver⟩ ⟨types, otherResolver⟩ := ⟨rfl, answers⟩
  unfold ResolverRegistry.register
  rw [kept.places]
  split
  · rename_i place _
    exact ⟨slotsKept_set kept.slots slot place, rfl⟩
  · refine ⟨List.rel_append kept.slots (.cons slot .nil), ?_⟩
    rw [size, size, kept.slots.length_eq]

theorem slotsKept_getElem? {slots others : List Registered}
    (kept : List.Forall₂ SlotKept slots others) (place : Nat) :
    Option.Rel SlotKept slots[place]? others[place]? := by
  induction kept generalizing place with
  | nil => exact .none
  | cons first rest induction =>
    cases place with
    | zero => exact .some first
    | succ place => simpa using induction place

theorem slotsKept_conforming {registry other : ResolverRegistry} (kept : registry.KeptBy other)
    {oracle otherOracle : TypeOracle} (subtypes : oracle.isSubtype = otherOracle.isSubtype)
    (types : TypePair) :
    List.Forall₂ SlotKept (registry.conforming oracle types)
      (other.conforming otherOracle types) := by
  apply List.rel_filter _ kept.slots
  intro slot otherSlot here
  simp only [TypeOracle.isSubpair, subtypes, here.1]

theorem slotKept_lower {oracle otherOracle : TypeOracle}
    (subtypes : oracle.isSubtype = otherOracle.isSubtype) {best otherBest : Option Registered}
    (earlier : Option.Rel SlotKept best otherBest) {slot other : Registered}
    (here : SlotKept slot other) :
    Option.Rel SlotKept (lower oracle best slot) (lower otherOracle otherBest other) := by
  cases earlier with
  | none => exact .some here
  | @some best otherBest first =>
    have same : oracle.isSubpair slot.types best.types =
        otherOracle.isSubpair other.types otherBest.types := by
      simp only [TypeOracle.isSubpair, subtypes, here.1, first.1]
    simp only [lower, same]
    by_cases below : otherOracle.isSubpair other.types otherBest.types = true
    · rw [if_pos below, if_pos below]
      exact .some here
    · rw [if_neg below, if_neg below]
      exact .some first

theorem KeptBy.verdict {registry other : ResolverRegistry} (kept : registry.KeptBy other)
    {oracle otherOracle : TypeOracle} (subtypes : oracle.isSubtype = otherOracle.isSubtype)
    (types : TypePair) (pattern candidate : Value) :
    Keeps (registry.verdict oracle types pattern candidate)
      (other.verdict otherOracle types pattern candidate) := by
  have nearest : ∃ slot otherSlot, Option.Rel SlotKept slot otherSlot ∧
      registry.nearest? oracle types = slot.map (·.resolver) ∧
      other.nearest? otherOracle types = otherSlot.map (·.resolver) := by
    unfold nearest?
    rw [kept.places]
    split
    · rename_i place _
      exact ⟨_, _, slotsKept_getElem? kept.slots place, rfl, rfl⟩
    · refine ⟨_, _, ?_, rfl, rfl⟩
      apply List.rel_foldl (P := Option.Rel SlotKept) (R := SlotKept) _ .none
        (slotsKept_conforming kept subtypes types)
      exact fun _ _ earlier _ _ here => slotKept_lower subtypes earlier here
  rcases nearest with ⟨slot, otherSlot, same, first, second⟩
  unfold ResolverRegistry.verdict
  rw [first, second]
  cases same with
  | none => exact .refl _
  | some here => exact here.2 pattern candidate

end ResolverRegistry

/-! ## Hosts -/

namespace Collaborators

/-- The other host answers every query as the first does, where the first does not fault. -/
structure KeptBy (host other : Collaborators) : Prop where
  resolve : ∀ type, Keeps (host.oracle.resolve type) (other.oracle.resolve type)
  dynamicType : ∀ value, Keeps (host.oracle.dynamicType value) (other.oracle.dynamicType value)
  isSubtype : host.oracle.isSubtype = other.oracle.isSubtype
  activeCase? : host.oracle.activeCase? = other.oracle.activeCase?
  components? : host.oracle.components? = other.oracle.components?
  shape? : host.oracle.shape? = other.oracle.shape?
  reinterpret : ∀ value target,
    Keeps (host.oracle.reinterpret value target) (other.oracle.reinterpret value target)
  evaluate : ∀ expression, Keeps (host.evaluate expression) (other.evaluate expression)
  verdict : ∀ types pattern candidate,
    Keeps (host.resolvers.verdict host.oracle types pattern candidate)
      (other.resolvers.verdict other.oracle types pattern candidate)

variable {host other : Collaborators}

theorem KeptBy.conforms (kept : host.KeptBy other) (value : Value) (type : TypeExpr) :
    Keeps (host.oracle.conforms value type) (other.oracle.conforms value type) := by
  unfold TypeOracle.conforms
  apply (kept.resolve type).bind
  intro target
  apply (kept.dynamicType value).bind
  intro actual
  rw [kept.isSubtype]
  exact .refl _

theorem KeptBy.compareWith (kept : host.KeptBy other) (expression : Expression) (value : Value) :
    Keeps (host.compareWith expression value).answer
      (other.compareWith expression value).answer := by
  apply Consult.keeps_bind (kept.evaluate expression)
  intro pattern
  rw [ResolverRegistry.compare_answer, ResolverRegistry.compare_answer]
  apply (kept.dynamicType pattern).bind
  intro patternType
  apply (kept.dynamicType value).bind
  intro candidateType
  exact kept.verdict _ pattern value

theorem KeptBy.inSequence {count : Nat} {values : List Value} {env : Environment}
    {items otherItems : Progress} (each : Keeps items.answer otherItems.answer) :
    Keeps (inSequence count values env items).answer
      (inSequence count values env otherItems).answer := by
  unfold Collaborators.inSequence
  split
  · exact Consult.keeps_bind each fun _ => .refl _
  · exact .refl _

theorem KeptBy.inTuple (kept : host.KeptBy other) {count : Nat} {value : Value}
    {env : Environment} {items otherItems : List Value → Progress}
    (each : ∀ values, Keeps (items values).answer (otherItems values).answer) :
    Keeps (host.inTuple count value env items).answer
      (other.inTuple count value env otherItems).answer := by
  unfold Collaborators.inTuple
  rw [kept.shape?, kept.components?]
  split
  · split
    · split
      · exact KeptBy.inSequence (each _)
      · exact .refl _
    · exact .refl _
  · exact .refl _

theorem KeptBy.inCase (kept : host.KeptBy other) {qualifier : Option String} {name : String}
    {value : Value} {env : Environment} {payload otherPayload : List Value → Progress}
    (inside : ∀ values, Keeps (payload values).answer (otherPayload values).answer) :
    Keeps (host.inCase qualifier name value env payload).answer
      (other.inCase qualifier name value env otherPayload).answer := by
  have qualifies : Keeps (inCase.qualifies host qualifier value).answer
      (inCase.qualifies other qualifier value).answer := by
    cases qualifier with
    | none => exact .refl _
    | some enum => exact kept.conforms value (.named enum)
  apply Consult.keeps_guarded qualifies
  rw [kept.activeCase?]
  split
  · split
    · exact inside _
    · exact .refl _
  · exact .refl _

/-! ## Patterns -/

def MatchKept (host other : Collaborators) (pattern : Pattern) : Prop :=
  ∀ mutable subject env, Keeps (host.matchInto mutable pattern subject env).answer
    (other.matchInto mutable pattern subject env).answer

theorem keeps_matchEach {items : List Pattern} (each : ∀ item ∈ items, MatchKept host other item)
    (mutable : Bool) (values : List Value) (env : Environment) :
    Keeps (host.matchEach mutable items values env).answer
      (other.matchEach mutable items values env).answer := by
  induction items generalizing values env with
  | nil => exact .refl _
  | cons item rest induction =>
    cases values with
    | nil => exact .refl _
    | cons value values =>
      rw [matchEach, matchEach]
      apply Consult.keeps_bind (each item (.head _) mutable (.value value) env)
      rintro ⟨matched, after⟩
      cases matched with
      | true => exact induction (fun item member => each item (.tail _ member)) values after
      | false => exact .refl _

theorem KeptBy.tuple (kept : host.KeptBy other) {items : List Pattern}
    (each : ∀ item ∈ items, MatchKept host other item) : MatchKept host other (.tuple items) := by
  intro mutable subject env
  cases subject with
  | payload values =>
    rw [matchInto, matchInto]
    exact KeptBy.inSequence (keeps_matchEach each mutable values env)
  | value value =>
    by_cases single : ∃ item, items = [item]
    · rcases single with ⟨item, rfl⟩
      rw [matchInto, matchInto]
      exact each item (.head _) mutable (.value value) env
    · rw [matchInto, matchInto]
      · exact kept.inTuple fun values => keeps_matchEach each mutable values env
      all_goals exact fun item equal => single ⟨item, equal⟩

/-- The hosts are asked the same questions for as long as the first one answers. -/
theorem KeptBy.matchInto (kept : host.KeptBy other) (pattern : Pattern) :
    MatchKept host other pattern := by
  induction pattern with
  | wildcard | identifier => exact fun _ _ _ => .refl _
  | binding inner innerMutable induction =>
    intro mutable subject env
    rw [Collaborators.matchInto, Collaborators.matchInto]
    exact induction innerMutable _ env
  | tuple items induction => exact kept.tuple induction
  | enumCase qualifier name payload induction =>
    intro mutable subject env
    cases payload with
    | none => exact kept.inCase fun values => .refl _
    | some payload =>
      rw [Collaborators.matchInto, Collaborators.matchInto]
      exact kept.inCase fun values => induction payload rfl mutable (.ofPayload values) env
  | optional inner induction =>
    intro mutable subject env
    rw [Collaborators.matchInto, Collaborators.matchInto]
    exact kept.inCase fun values => induction mutable (.ofPayload values) env
  | isType type =>
    intro mutable subject env
    rw [Collaborators.matchInto, Collaborators.matchInto]
    exact Consult.keeps_bind (kept.conforms _ type) fun _ => .refl _
  | cast inner type induction =>
    intro mutable subject env
    rw [Collaborators.matchInto, Collaborators.matchInto]
    apply Consult.keeps_guarded (kept.conforms _ type)
    apply Consult.keeps_bind (kept.resolve type)
    intro target
    apply Consult.keeps_bind (kept.reinterpret _ target)
    intro view
    exact induction mutable (.value view) env
  | expression expression =>
    intro mutable subject env
    rw [Collaborators.matchInto, Collaborators.matchInto]
    exact Consult.keeps_bind (kept.compareWith expression _) fun _ => .refl _
  | annotated inner type induction =>
    intro mutable subject env
    rw [Collaborators.matchInto, Collaborators.matchInto]
    exact Consult.keeps_guarded (kept.conforms _ type)
      (induction mutable (.value subject.toValue) env)

/-! ## Clauses -/

theorem KeptBy.matchPattern (kept : host.KeptBy other) (pattern : Pattern) (value : Value)
    (scope : Environment) :
    Keeps (host.matchPattern pattern value scope).answer
      (other.matchPattern pattern value scope).answer :=
  Consult.keeps_bind (kept.matchInto pattern false (.value value) .empty) fun _ => .refl _

theorem KeptBy.firstMatch (kept : host.KeptBy other) (patterns : List Pattern) (value : Value)
    (scope : Environment) :
    Keeps (host.firstMatch patterns value scope).answer
      (other.firstMatch patterns value scope).answer := by
  have each : ∀ index, Keeps (firstMatch.go host value scope index patterns).answer
      (firstMatch.go other value scope index patterns).answer := by
    induction patterns with
    | nil => exact fun index => .refl _
    | cons pattern rest induction =>
      intro index
      apply Consult.keeps_bind (kept.matchPattern pattern value scope)
      intro outcome
      cases outcome with
      | some env => exact .refl _
      | none => exact induction (index + 1)
  exact each 0

/-- Faults are never taken for answers.  Whatever a match, or a choice of the first pattern that
matches, answers under a host, it answers under every host that keeps the answers of the first one,
even if that one answers where the first faults. -/
theorem answers_rest_on_no_fault (host other : Collaborators) (kept : host.KeptBy other)
    (pattern : Pattern) (patterns : List Pattern) (value : Value) (scope : Environment) :
    (∀ outcome, (host.matchPattern pattern value scope).answer = .ok outcome →
      (other.matchPattern pattern value scope).answer = .ok outcome) ∧
    ∀ outcome, (host.firstMatch patterns value scope).answer = .ok outcome →
      (other.firstMatch patterns value scope).answer = .ok outcome :=
  ⟨kept.matchPattern pattern value scope, kept.firstMatch patterns value scope⟩

/-- The first host can say of two integers only that they are equal, and knows only built-in types;
the second one has an answer for everything.  `(x, 7)` binds `x` under both. -/
theorem tuple_bound_under_bolder_host :
    let cautious : Resolver := ⟨"cautious", fun pattern candidate =>
      if pattern.same candidate then .ok true
      else .error (.reported .equivalenceResolver "undecided")⟩
    let bold : Resolver := ⟨"bold", fun pattern candidate => .ok (pattern.same candidate)⟩
    let oracle : TypeOracle := { NominalTypes.initial.oracle with
      resolve := fun type => .ok ((NominalTypes.initial.resolve type).toOption.getD .any) }
    let host : Collaborators :=
      ⟨NominalTypes.initial.oracle, evaluateLiteral, .register .empty ⟨.integer, .integer⟩ cautious⟩
    let other : Collaborators :=
      ⟨oracle, fun expression => .ok ((evaluateLiteral expression).toOption.getD .absent),
        .register .empty ⟨.integer, .integer⟩ bold⟩
    let pattern : Pattern := .tuple [.identifier "x", .expression (.integer 7)]
    let value : Value := .tuple [.integer 5, .integer 7]
    let bound := Environment.empty.push ⟨"x", .integer 5, false⟩
    host.KeptBy other ∧
      (host.matchPattern pattern value .empty).answer = .ok (some bound) ∧
      (other.matchPattern pattern value .empty).answer = .ok (some bound) ∧
      (other.firstMatch [.isType (.named "Bool"), pattern] value .empty).answer =
        .ok (some (1, bound)) := by
  intro cautious bold oracle host other pattern value bound
  have bolder : ∀ {α : Type} (answer : Except Fault α) (default : α),
      Keeps answer (.ok (answer.toOption.getD default)) := by
    intro α answer default value answered
    rw [answered]
    rfl
  have verdicts : ∀ left right, Keeps (cautious.compare left right) (bold.compare left right) := by
    intro left right verdict answered
    by_cases equal : left.same right = true
    · simp only [cautious, equal, if_true, Except.ok.injEq] at answered
      simp only [bold, equal, answered]
    · simp only [cautious, equal] at answered
      cases answered
  have registries : ResolverRegistry.KeptBy
      (.register .empty ⟨.integer, .integer⟩ cautious)
      (.register .empty ⟨.integer, .integer⟩ bold) :=
    ResolverRegistry.keptBy_empty.register _ verdicts
  have kept : host.KeptBy other :=
    { resolve := fun type => bolder _ _
      dynamicType := fun _ => .refl _
      isSubtype := rfl
      activeCase? := rfl
      components? := rfl
      shape? := rfl
      reinterpret := fun _ _ => .refl _
      evaluate := fun expression => bolder _ _
      verdict := registries.verdict rfl }
  have answered : (host.matchPattern pattern value .empty).answer = .ok (some bound) := by rfl
  have chosen : (host.firstMatch [.isType (.named "Bool"), pattern] value .empty).answer =
      .ok (some (1, bound)) := by rfl
  have both := answers_rest_on_no_fault host other kept pattern
    [.isType (.named "Bool"), pattern] value .empty
  exact ⟨kept, answered, both.1 _ answered, both.2 _ chosen⟩

end Collaborators

end PatternClauses
