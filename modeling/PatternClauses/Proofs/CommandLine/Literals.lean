import Mathlib.Data.List.Forall2
import PatternClauses.CommandLine.Commands
import PatternClauses.Proofs.Environment.Extension
import PatternClauses.Proofs.Evaluation.Operands
import PatternClauses.Proofs.Parsing.Language
import PatternClauses.Proofs.Printing.Phrases
import PatternClauses.Proofs.Typing.Membership

/-!
# Literals as patterns

The text of a value is also the text of a pattern, and the pattern matches the value: what stands
for a part of the value on the one reading is the pattern of that part on the other.  Only a
qualifier can come between the two, for some built-in names are types that no case has.
-/

namespace PatternClauses

open Grammar

/-- The built-in names of types that have no cases: all but `Any`. -/
def caselessTypes : List String := ["Int", "Double", "Float", "Bool", "String", "Void"]

namespace Pattern

mutual

def qualifiers : Pattern → List String
  | .enumCase qualifier _ none => qualifier.toList
  | .enumCase qualifier _ (some payload) => qualifier.toList ++ payload.qualifiers
  | .binding inner _ | .optional inner | .cast inner _ | .annotated inner _ => inner.qualifiers
  | .tuple items => qualifiersEach items
  | .wildcard | .identifier _ | .isType _ | .expression _ => []

def qualifiersEach : List Pattern → List String
  | [] => []
  | item :: rest => item.qualifiers ++ qualifiersEach rest

end

@[simp] theorem qualifiersEach_eq_flatMap (items : List Pattern) :
    qualifiersEach items = items.flatMap qualifiers := by
  induction items with
  | nil => rfl
  | cons item rest induction => simp [qualifiersEach, induction]

def namesEnums (pattern : Pattern) : Bool := pattern.qualifiers.all fun name => name ∉ caselessTypes

theorem namesEnums_iff (pattern : Pattern) :
    pattern.namesEnums = true ↔ ∀ qualifier ∈ pattern.qualifiers, qualifier ∉ caselessTypes := by
  simp [namesEnums]

theorem namesEnums_tuple (items : List Pattern) :
    (Pattern.tuple items).namesEnums = items.all namesEnums := by
  simp only [namesEnums, qualifiers, qualifiersEach_eq_flatMap, List.all_flatMap]
  rfl

end Pattern

namespace Value

/-! ## What a literal stands for -/

abbrev SpellEach (items : List Pattern) (values : List Value) : Prop :=
  List.Forall₂ (fun item value => ofPattern item = .ok value) items values

theorem spellEach_of_ofPatterns {items : List Pattern} {values : List Value}
    (spelled : ofPatterns items = .ok values) : SpellEach items values := by
  induction items generalizing values with
  | nil =>
    cases spelled
    exact .nil
  | cons item rest induction =>
    rw [ofPatterns, except_bind_eq_ok_iff] at spelled
    rcases spelled with ⟨value, first, behind⟩
    rcases except_bind_eq_ok_iff.mp behind with ⟨others, later, same⟩
    cases same
    exact .cons first (induction later)

/-- The associated values that a payload stands for: the items of a tuple, or one value. -/
inductive Fills : Pattern → List Value → Prop
  | items : ofPattern (.tuple items) = .ok (.tuple values) → Fills (.tuple items) values
  | single : (∀ items, payload ≠ .tuple items) → ofPattern payload = .ok value →
      Fills payload [value]

theorem ofPattern_tuple {items : List Pattern} {value : Value}
    (spelled : ofPattern (.tuple items) = .ok value) :
    ∃ values, value = .tuple values ∧ SpellEach items values := by
  rw [ofPattern, except_bind_eq_ok_iff] at spelled
  rcases spelled with ⟨values, each, same⟩
  cases same
  exact ⟨values, rfl, spellEach_of_ofPatterns each⟩

theorem ofPattern_bareCase {qualifier : Option String} {name : String} {value : Value}
    (spelled : ofPattern (.enumCase qualifier name none) = .ok value) :
    ∃ enum, value = .enumCase enum name [] ∧ enumOf qualifier name = .ok enum := by
  rw [ofPattern, except_bind_eq_ok_iff] at spelled
  rcases spelled with ⟨enum, qualified, same⟩
  cases same
  exact ⟨enum, rfl, qualified⟩

theorem ofPattern_payloadCase {qualifier : Option String} {name : String} {payload : Pattern}
    {value : Value} (spelled : ofPattern (.enumCase qualifier name (some payload)) = .ok value) :
    ∃ enum values, value = .enumCase enum name values ∧ enumOf qualifier name = .ok enum ∧
      Fills payload values := by
  by_cases tuple : ∃ items, payload = .tuple items
  · rcases tuple with ⟨items, rfl⟩
    rw [ofPattern, except_bind_eq_ok_iff] at spelled
    rcases spelled with ⟨enum, qualified, spelled⟩
    rcases except_bind_eq_ok_iff.mp spelled with ⟨values, each, same⟩
    cases same
    refine ⟨enum, values, rfl, qualified, .items ?_⟩
    rw [ofPattern, each]
    rfl
  · rw [ofPattern, except_bind_eq_ok_iff] at spelled
    · rcases spelled with ⟨enum, qualified, spelled⟩
      rcases except_bind_eq_ok_iff.mp spelled with ⟨single, inside, same⟩
      cases same
      exact ⟨enum, [single], rfl, qualified, .single (fun items same => tuple ⟨items, same⟩) inside⟩
    · exact fun items same => tuple ⟨items, same⟩

theorem ofPattern_expression {expression : Expression} {value : Value}
    (spelled : ofPattern (.expression expression) = .ok value) :
    evaluateLiteral expression = .ok value := by
  rw [ofPattern] at spelled
  split at spelled
  · rename_i evaluated
    cases spelled
    exact evaluated
  · cases spelled

theorem eq_range_of_rangeOf {lower upper value : Value} {closed : Bool}
    (ordered : rangeOf lower upper closed = .ok value) : value = .range lower upper closed := by
  rw [rangeOf] at ordered
  split at ordered <;> cases ordered
  rfl

/-! ## Equality with itself -/

theorem matchesByDefault_self (value : Value) :
    value.matchesByDefault value = value.same value := by
  cases value <;> rfl

theorem same_self_of_unary {tokens : List Token} {expression : Expression} {value : Value}
    (derives : DerivesUnary tokens expression) (lexical : ∀ token ∈ tokens, token.Lexical)
    (evaluated : evaluateLiteral expression = .ok value) : value.same value = true := by
  have outcome := evaluated ▸ Expression.outcome_of_derives derives lexical
  cases outcome with
  | integer | string | boolean => simp [same]
  | float _ isNumber =>
    rw [same, Binary64.same_self_iff]
    exact isNumber
  | nil => decide

theorem same_self_of_expression {tokens : List Token} {expression : Expression} {value : Value}
    (derives : DerivesExpression tokens expression) (lexical : ∀ token ∈ tokens, token.Lexical)
    (evaluated : evaluateLiteral expression = .ok value) : value.same value = true := by
  cases derives with
  | unary derives => exact same_self_of_unary derives lexical evaluated
  | range closed lower upper =>
    rw [List.forall_mem_append, List.forall_mem_cons] at lexical
    rw [evaluateLiteral, except_bind_eq_ok_iff] at evaluated
    rcases evaluated with ⟨first, below, evaluated⟩
    rcases except_bind_eq_ok_iff.mp evaluated with ⟨last, above, evaluated⟩
    rw [eq_range_of_rangeOf evaluated, same, same_self_of_unary lower lexical.1 below,
      same_self_of_unary upper lexical.2.2 above]
    simp

end Value

/-! ## The enums of a value are known -/

namespace Report

theorem known_subset_of_each {items : List Value}
    (each : ∀ item ∈ items, ∀ types : NominalTypes, types.known ⊆ (registerEnums types item).known)
    (types : NominalTypes) : types.known ⊆ (registerEnumsEach types items).known := by
  induction items generalizing types with
  | nil => exact List.Subset.refl _
  | cons item rest induction =>
    rw [registerEnumsEach]
    have first := each item (.head _) types
    exact List.Subset.trans first (induction (fun item member => each item (.tail _ member)) _)

theorem known_subset_registerEnums (value : Value) (types : NominalTypes) :
    types.known ⊆ (registerEnums types value).known := by
  induction value generalizing types with
  | tuple items induction =>
    rw [registerEnums]
    exact known_subset_of_each induction types
  | enumCase enum name payload induction =>
    rw [registerEnums]
    have first : types.known ⊆ (types.register enum).known := List.subset_cons_self _ _
    exact List.Subset.trans first (known_subset_of_each induction _)
  | _ => exact List.Subset.refl _

theorem known_subset_registerEnumsEach (values : List Value) (types : NominalTypes) :
    types.known ⊆ (registerEnumsEach types values).known :=
  known_subset_of_each (fun value _ => known_subset_registerEnums value) types

def Registered (pattern : Pattern) : Prop :=
  ∀ types value, Value.ofPattern pattern = .ok value →
    pattern.qualifiers ⊆ (registerEnums types value).known

theorem registered_each {items : List Pattern} (each : ∀ item ∈ items, Registered item)
    {values : List Value} (spelled : Value.SpellEach items values) (types : NominalTypes) :
    items.flatMap Pattern.qualifiers ⊆ (registerEnumsEach types values).known := by
  induction spelled generalizing types with
  | nil => exact List.nil_subset _
  | @cons item value rest values first _ induction =>
    rw [registerEnumsEach, List.flatMap_cons, List.append_subset]
    have here := each item (.head _) types value first
    have kept := known_subset_registerEnumsEach values (registerEnums types value)
    have later := induction (fun item member => each item (.tail _ member))
      (registerEnums types value)
    exact ⟨List.Subset.trans here kept, later⟩

theorem registered_payload {payload : Pattern} (registered : Registered payload)
    {values : List Value} (fills : Value.Fills payload values) (types : NominalTypes) :
    payload.qualifiers ⊆ (registerEnumsEach types values).known := by
  cases fills with
  | items spelled => exact registered types _ spelled
  | single _ spelled => exact registered types _ spelled

theorem registered_qualifier {qualifier : Option String} {name enum : String}
    (qualified : Value.enumOf qualifier name = .ok enum) (values : List Value)
    (types : NominalTypes) :
    qualifier.toList ⊆ (registerEnumsEach (types.register enum) values).known := by
  cases qualifier with
  | none => exact List.nil_subset _
  | some given =>
    cases qualified
    have kept := known_subset_registerEnumsEach values (types.register enum)
    exact List.cons_subset.mpr ⟨kept (.head _), List.nil_subset _⟩

theorem registered (pattern : Pattern) : Registered pattern := by
  induction pattern with
  | tuple items induction =>
    intro types value spelled
    rcases Value.ofPattern_tuple spelled with ⟨values, rfl, each⟩
    rw [Pattern.qualifiers, Pattern.qualifiersEach_eq_flatMap, registerEnums]
    exact registered_each induction each types
  | enumCase qualifier name payload induction =>
    intro types value spelled
    cases payload with
    | none =>
      rcases Value.ofPattern_bareCase spelled with ⟨enum, rfl, qualified⟩
      rw [Pattern.qualifiers, registerEnums]
      exact registered_qualifier qualified [] types
    | some payload =>
      rcases Value.ofPattern_payloadCase spelled with ⟨enum, values, rfl, qualified, fills⟩
      rw [Pattern.qualifiers, registerEnums, List.append_subset]
      exact ⟨registered_qualifier qualified values types,
        registered_payload (induction payload rfl) fills (types.register enum)⟩
  | expression => exact fun _ _ _ => List.nil_subset _
  | _ =>
    intro types value spelled
    cases spelled

end Report

/-! ## The qualifier of a case -/

namespace NominalTypes

theorem resolve_of_caseless (types : NominalTypes) {name : String}
    (caseless : name ∈ caselessTypes) : ∃ target, types.resolve (.named name) = .ok target ∧
      types.isSubtypeOf (.custom name) target = false := by
  simp only [caselessTypes, List.mem_cons, List.not_mem_nil, or_false] at caseless
  rcases caseless with rfl | rfl | rfl | rfl | rfl | rfl
  · exact ⟨.integer, rfl, by simp [isSubtypeOf]⟩
  · exact ⟨.float, rfl, by simp [isSubtypeOf]⟩
  · exact ⟨.float, rfl, by simp [isSubtypeOf]⟩
  · exact ⟨.boolean, rfl, by simp [isSubtypeOf]⟩
  · exact ⟨.string, rfl, by simp [isSubtypeOf]⟩
  · exact ⟨.unit, rfl, by simp [RuntimeType.unit, isSubtypeOf]⟩

theorem resolve_of_known {types : NominalTypes} {name : String} (known : name ∈ types.known)
    (other : name ∉ caselessTypes) :
    types.resolve (.named name) = .ok .any ∨ types.resolve (.named name) = .ok (.custom name) := by
  by_cases any : name = "Any"
  · subst any
    exact .inl rfl
  · have builtin : ∀ entry ∈ builtinTypes, entry.1 = "Any" ∨ entry.1 ∈ caselessTypes := by decide
    have unbuilt : builtinTypes.lookup name = none := by
      rw [List.lookup_eq_none_iff]
      intro entry member
      rw [bne_iff_ne]
      rintro rfl
      exact (builtin entry member).elim any other
    rw [resolve, unbuilt]
    exact .inr (if_pos known)

theorem isSubtypeOf_own_enum (types : NominalTypes) (enum name : String) (payload : List Value) :
    types.isSubtypeOf (Value.enumCase enum name payload).dynamicType (.custom enum) = true := by
  cases enum, name, payload using Value.enumCase_cases with
  | present item =>
    rw [Value.dynamicType_present, isSubtypeOf]
    exact beq_self_eq_true _
  | absent name payload other =>
    rw [Value.dynamicType_absent other, isSubtypeOf]
    exact beq_self_eq_true _
  | other enum name payload other =>
    rw [Value.dynamicType_enumCase other]
    exact isSubtypeOf_self types _

theorem conforms_own_enum {types : NominalTypes} {enum : String} (known : enum ∈ types.known)
    (name : String) (payload : List Value) :
    types.oracle.conforms (.enumCase enum name payload) (.named enum) =
      .ok (decide (enum ∉ caselessTypes)) := by
  by_cases caseless : enum ∈ caselessTypes
  · have other : enum ≠ optionalName := by
      rintro rfl
      revert caseless
      decide
    rcases resolve_of_caseless types caseless with ⟨target, resolved, apart⟩
    rw [conforms_eq types _ resolved, Value.dynamicType_enumCase other, apart]
    simp [caseless]
  · rcases resolve_of_known known caseless with resolved | resolved
    · rw [conforms_eq types _ resolved, isSubtypeOf_any]
      simp [caseless]
    · rw [conforms_eq types _ resolved, isSubtypeOf_own_enum]
      simp [caseless]

end NominalTypes

/-! ## Matches -/

namespace Collaborators

variable {types : NominalTypes}

/-- Whatever is bound before, the pattern answers the same and binds nothing. -/
def Answers (types : NominalTypes) (pattern : Pattern) (subject : Subject) (passed : Bool) : Prop :=
  ∀ mutable env,
    ((Report.hostOf types).matchInto mutable pattern subject env).answer = .ok (passed, env)

theorem inSequence_answer {count : Nat} {values : List Value} (sizes : count = values.length)
    {env : Environment} {items : Progress} {passed : Bool}
    (answered : items.answer = .ok (passed, env)) :
    (inSequence count values env items).answer = .ok (passed, env) := by
  rw [inSequence, if_pos sizes, Consult.bind_of_ok _ answered]
  cases passed with
  | true => rfl
  | false =>
    have back : (env.extend []).rollback env.checkpoint = env := Environment.rollback_extend nofun
    rw [Environment.extend_nil] at back
    change Except.ok (false, env.rollback env.checkpoint) = _
    rw [back]

theorem qualifies_answer {qualifier : Option String} {name enum : String}
    (qualified : Value.enumOf qualifier name = .ok enum)
    (known : qualifier.toList ⊆ types.known) (values : List Value) :
    (inCase.qualifies (Report.hostOf types) qualifier (.enumCase enum name values)).answer =
      .ok (qualifier.toList.all fun path => path ∉ caselessTypes) := by
  cases qualifier with
  | none => rfl
  | some given =>
    cases qualified
    have conforms := NominalTypes.conforms_own_enum (known (.head _)) name values
    rw [Option.toList_some, List.all_cons, List.all_nil, Bool.and_true]
    exact conforms

theorem inCase_answer {qualifier : Option String} {name enum : String}
    (qualified : Value.enumOf qualifier name = .ok enum)
    (known : qualifier.toList ⊆ types.known) {values : List Value} {env : Environment}
    {payload : List Value → Progress} {passed : Bool}
    (answered : (payload values).answer = .ok (passed, env)) :
    ((Report.hostOf types).inCase qualifier name (.enumCase enum name values) env payload).answer =
      .ok ((qualifier.toList.all fun path => path ∉ caselessTypes) && passed, env) := by
  rw [inCase, Consult.bind_of_ok _ (qualifies_answer qualified known values)]
  cases qualifier.toList.all fun path => path ∉ caselessTypes with
  | false => rfl
  | true =>
    change (if name = name then payload values else return (false, env)).answer = _
    rw [if_pos rfl, answered]
    rfl

theorem compareWith_answer {tokens : List Token} {expression : Expression} {value : Value}
    (derives : DerivesExpression tokens expression) (lexical : ∀ token ∈ tokens, token.Lexical)
    (evaluated : evaluateLiteral expression = .ok value) :
    ((Report.hostOf types).compareWith expression value).answer = .ok true := by
  have asked : (Consult.ask (.evaluated expression)
      ((Report.hostOf types).evaluate expression)).answer = .ok value := evaluated
  have self := Value.same_self_of_expression derives lexical evaluated
  rw [compareWith, Consult.bind_of_ok _ asked]
  change Except.ok (value.matchesByDefault value) = _
  rw [Value.matchesByDefault_self, self]

/-- A literal pattern passes its own value, and as a payload it passes the associated values that
it stands for, unless a qualifier is that of a type without cases. -/
structure Recognizes (types : NominalTypes) (pattern : Pattern) : Prop where
  alone : ∀ value, Value.ofPattern pattern = .ok value → pattern.qualifiers ⊆ types.known →
    Answers types pattern (.value value) pattern.namesEnums
  payload : ∀ values, Value.Fills pattern values → pattern.qualifiers ⊆ types.known →
    Answers types pattern (.ofPayload values) pattern.namesEnums

theorem recognizes_of_alone {pattern : Pattern} (noTuple : ∀ items, pattern ≠ .tuple items)
    (alone : ∀ value, Value.ofPattern pattern = .ok value → pattern.qualifiers ⊆ types.known →
      Answers types pattern (.value value) pattern.namesEnums) : Recognizes types pattern where
  alone := alone
  payload values fills known := by
    cases fills with
    | items => exact absurd rfl (noTuple _)
    | single _ spelled => exact alone _ spelled known

/-! ### Tuples -/

theorem matchEach_answer {items : List Pattern} (each : ∀ item ∈ items, Recognizes types item)
    {values : List Value} (spelled : Value.SpellEach items values)
    (known : items.flatMap Pattern.qualifiers ⊆ types.known) (mutable : Bool) (env : Environment) :
    ((Report.hostOf types).matchEach mutable items values env).answer =
      .ok (items.all Pattern.namesEnums, env) := by
  induction spelled with
  | nil => rfl
  | @cons item value rest values spelled _ induction =>
    rw [List.flatMap_cons, List.append_subset] at known
    have first := (each item (.head _)).alone value spelled known.1 mutable env
    rw [matchEach, Consult.bind_of_ok _ first, List.all_cons]
    cases item.namesEnums with
    | true => exact induction (fun item member => each item (.tail _ member)) known.2
    | false => rfl

theorem sequence_answer {items : List Pattern} (each : ∀ item ∈ items, Recognizes types item)
    {values : List Value} (spelled : Value.SpellEach items values)
    (known : (Pattern.tuple items).qualifiers ⊆ types.known) (mutable : Bool) (env : Environment) :
    (inSequence items.length values env
      ((Report.hostOf types).matchEach mutable items values env)).answer =
        .ok ((Pattern.tuple items).namesEnums, env) := by
  rw [Pattern.qualifiers, Pattern.qualifiersEach_eq_flatMap] at known
  rw [Pattern.namesEnums_tuple]
  exact inSequence_answer spelled.length_eq (matchEach_answer each spelled known mutable env)

/-- The parser never makes a tuple of one item, which would be matched like the item. -/
theorem recognizes_tuple {items : List Pattern} (each : ∀ item ∈ items, Recognizes types item)
    (several : items.length ≠ 1) : Recognizes types (.tuple items) where
  alone value spelled known mutable env := by
    rcases Value.ofPattern_tuple spelled with ⟨values, rfl, spellEach⟩
    rw [matchInto]
    · let matched := (Report.hostOf types).matchEach mutable items values env
      change (if values.length = items.length then inSequence items.length values env matched
        else return (false, env)).answer = _
      rw [if_pos spellEach.length_eq.symm]
      exact sequence_answer each spellEach known mutable env
    · rintro item rfl
      exact several rfl
  payload values fills known mutable env := by
    cases fills with
    | single noTuple => exact absurd rfl (noTuple items)
    | items spelled =>
      rcases Value.ofPattern_tuple spelled with ⟨_, same, spellEach⟩
      cases same
      rw [Subject.ofPayload_of_length_ne_one (spellEach.length_eq ▸ several), matchInto]
      exact sequence_answer each spellEach known mutable env

theorem recognizes_ofItems {items : List Pattern} (each : ∀ item ∈ items, Recognizes types item) :
    Recognizes types (.ofItems items) := by
  match items with
  | [] => exact recognizes_tuple each (by simp)
  | [item] => exact each item (.head _)
  | first :: second :: rest => exact recognizes_tuple each (by simp)

/-! ### Cases -/

theorem recognizes_bareCase (qualifier : Option String) (name : String) :
    Recognizes types (.enumCase qualifier name none) := by
  refine recognizes_of_alone nofun fun value spelled known mutable env => ?_
  rcases Value.ofPattern_bareCase spelled with ⟨enum, rfl, qualified⟩
  rw [matchInto]
  have answered : ((Report.hostOf types).inCase qualifier name (.enumCase enum name []) env
      fun values => return (values.isEmpty, env)).answer = _ := inCase_answer qualified known rfl
  rwa [List.isEmpty_nil, Bool.and_true] at answered

theorem recognizes_payloadCase {payload : Pattern} (inside : Recognizes types payload)
    (qualifier : Option String) (name : String) :
    Recognizes types (.enumCase qualifier name (some payload)) := by
  refine recognizes_of_alone nofun fun value spelled known mutable env => ?_
  rcases Value.ofPattern_payloadCase spelled with ⟨enum, values, rfl, qualified, fills⟩
  rw [Pattern.qualifiers, List.append_subset] at known
  have answered := inside.payload values fills known.2 mutable env
  rw [matchInto, Pattern.namesEnums, Pattern.qualifiers, List.all_append]
  exact inCase_answer qualified known.1 answered

/-! ### All literals -/

theorem recognizes_of_noLiteral {pattern : Pattern} (noTuple : ∀ items, pattern ≠ .tuple items)
    (noLiteral : ∀ value, Value.ofPattern pattern ≠ .ok value) : Recognizes types pattern :=
  recognizes_of_alone noTuple fun value spelled => absurd spelled (noLiteral value)

theorem recognizes_leaf (mutability : Option Bool) (name : String) :
    Recognizes types (leaf mutability name) := by
  cases mutability <;> exact recognizes_of_noLiteral nofun nofun

theorem recognizes_expression {tokens : List Token} {expression : Expression}
    (derives : DerivesExpression tokens expression) (lexical : ∀ token ∈ tokens, token.Lexical) :
    Recognizes types (.expression expression) := by
  refine recognizes_of_alone nofun fun value spelled _ mutable env => ?_
  have compared : ((Report.hostOf types).compareWith expression value).answer = .ok true :=
    compareWith_answer derives lexical (Value.ofPattern_expression spelled)
  rw [matchInto, Subject.toValue, Consult.bind_of_ok _ compared]
  rfl

theorem recognizes_of_derives {phrase : Phrase} {mutability : Option Bool} {tokens : List Token}
    {pattern : Pattern} (derives : Derives phrase mutability tokens pattern)
    (lexical : ∀ token ∈ tokens, token.Lexical) : Recognizes types pattern := by
  -- On derivations, not on patterns: no tuple that is read has a single item, and no float in it
  -- is `nan`.
  induction derives with
  | annotated _ induction | primary _ induction | tuple _ induction => exact induction lexical
  | binding mutable _ induction =>
    exact induction fun token member => lexical token (.tail _ member)
  | cast | ascription | wildcard | optional | isType => exact recognizes_of_noLiteral nofun nofun
  | name name => exact recognizes_leaf _ name
  | items items _ induction =>
    apply recognizes_ofItems
    intro pattern member
    rcases List.mem_map.mp member with ⟨item, inside, rfl⟩
    exact induction item inside fun token within => lexical token (mem_enclosed inside within)
  | bareCase => exact recognizes_bareCase _ _
  | payloadCase _ _ induction =>
    rw [List.forall_mem_append] at lexical
    exact recognizes_payloadCase (induction lexical.2) _ _
  | namedCase name _ induction =>
    exact recognizes_payloadCase (induction fun token member => lexical token (.tail _ member)) _ _
  | expression derives => exact recognizes_expression derives lexical

end Collaborators

/-! ## The command -/

namespace Report

theorem outcome_own_value {text : String} {pattern : Pattern} {value : Value}
    (read : Pattern.parse .full text = .ok pattern)
    (spelled : Value.ofPattern pattern = .ok value) :
    outcome (registerEnums .initial value) value [pattern] =
      .ok (if pattern.namesEnums then some (0, .empty) else none) := by
  rcases (Pattern.parse_full_eq_ok_iff.mp read).1 with ⟨tokens, lexes, derives⟩
  have recognizes : Collaborators.Recognizes (registerEnums .initial value) pattern :=
    Collaborators.recognizes_of_derives derives lexes.lexical
  have known := registered pattern .initial value spelled
  have answered := recognizes.alone value spelled known false .empty
  let host := hostOf (registerEnums .initial value)
  have matched : (host.matchPattern pattern value .empty).answer =
      .ok (if pattern.namesEnums then some .empty else none) := by
    rw [Collaborators.matchPattern_eq, answered]
    rfl
  rw [outcome, Collaborators.firstMatch, Collaborators.firstMatch.go, Consult.bind_of_ok _ matched]
  cases pattern.namesEnums <;> rfl

/-- A text that spells a value is a pattern that matches the value, if no qualifier in it is the
name of a type without cases: case zero is found, with no bindings and no fault. -/
theorem ofMatch_own_value (text : String) (pattern : Pattern) (value : Value) (debug : Bool)
    (read : Pattern.parse .full text = .ok pattern) (spelled : Value.parse text = .ok value)
    (enums : ∀ qualifier ∈ pattern.qualifiers, qualifier ∉ caselessTypes) :
    outcome (registerEnums .initial value) value [pattern] = .ok (some (0, .empty)) ∧
    ∃ shown, ofMatch text [text] [] .full debug =
        success (shown ++ ["case 0: " ++ pattern.text]) ∧ (debug = false → shown = []) := by
  have spelledBy : Value.ofPattern pattern = .ok value := by
    rw [Value.parse, read] at spelled
    exact spelled
  have matched := outcome_own_value read spelledBy
  rw [if_pos ((Pattern.namesEnums_iff pattern).mpr enums)] at matched
  have each : parseEach .full [text] = .ok [pattern] := by
    rw [parseEach, read]
    rfl
  have answered : ofMatch text [text] [] .full debug =
      success ((if debug then ["Value:", value.outline.indented 0, "Cases:",
        (Outline.list [pattern.outline]).indented 0] else []) ++ ["case 0: " ++ pattern.text]) := by
    rw [ofMatch, spelled, each]
    have heading : "case " ++ Nat.repr 0 ++ ": " = "case 0: " := by decide +kernel
    simp only [registerSubtypes, matched, heading]
    exact congrArg success (List.append_nil _)
  refine ⟨matched, _, answered, ?_⟩
  rintro rfl
  rfl

theorem ofMatch_nested_value :
    let text := "(Shape.rect(1, -2.5), some(1...3), nil, Any.other)"
    ∃ pattern value, Pattern.parse .full text = .ok pattern ∧ Value.parse text = .ok value ∧
      outcome (registerEnums .initial value) value [pattern] = .ok (some (0, .empty)) := by
  intro text
  let rect : Pattern := .tuple
    [.expression (.integer 1), .expression (.negate (.float (.ofDecimal false 25 (-1))))]
  let range : Pattern := .expression (.range (.integer 1) (.integer 3) true)
  let pattern : Pattern := .tuple
    [.enumCase (some "Shape") "rect" (some rect), .enumCase none "some" (some range),
      .expression .nil, .enumCase (some "Any") "other" none]
  let corner : Value := .float (.negate (.ofDecimal false 25 (-1)))
  let value : Value := .tuple
    [.enumCase "Shape" "rect" [.integer 1, corner],
      .present (.range (.integer 1) (.integer 3) true), .absent, .enumCase "Any" "other" []]
  have read : Pattern.parse .full text = .ok pattern := ok_of_toOption (by decide +kernel)
  have spelled : Value.parse text = .ok value := by
    rw [Value.parse, read]
    rfl
  have enums : ∀ qualifier ∈ pattern.qualifiers, qualifier ∉ caselessTypes := by decide
  have matched := ofMatch_own_value text pattern value false read spelled enums
  exact ⟨pattern, value, read, spelled, matched.1⟩

end Report

end PatternClauses
