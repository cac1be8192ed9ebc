import PatternClauses.Proofs.CommandLine.Payloads
import PatternClauses.Proofs.Printing.Floats
import PatternClauses.Proofs.Printing.Integers

/-!
# Printed values

The text of a value that was read is read as the same value, though it is not the source: names of
enums are spelled out, groups and empty payloads are gone, and numbers and bounds are written as
they came out.  The reader makes no value but those that can be written again.
-/

namespace PatternClauses

open Grammar

/-! ## Floats with a sign -/

namespace Binary64

def magnitude : Binary64 → Binary64
  | .nan => .nan
  | .infinite _ => .infinite false
  | .finite _ units representable => .finite false units representable

theorem magnitude_ne_nan {number : Binary64} (isNumber : number ≠ .nan) :
    number.magnitude ≠ .nan := by
  cases number with
  | nan => exact absurd rfl isNumber
  | infinite | finite => nofun

theorem negate_magnitude {number : Binary64} (signed : number ≠ number.magnitude) :
    number.magnitude.negate = number := by
  match number with
  | .nan | .infinite false | .finite false _ _ => exact absurd rfl signed
  | .infinite true | .finite true _ _ => rfl

theorem text_of_signed {number : Binary64} (signed : number ≠ number.magnitude) :
    number.text = "-" ++ number.magnitude.text := by
  match number with
  | .nan | .infinite false | .finite false _ _ => exact absurd rfl signed
  | .infinite true => decide
  | .finite true units representable =>
    apply String.toList_inj.mp
    rw [String.toList_append, magnitude, toList_text_negative, toList_text_unsigned]
    rfl

end Binary64

namespace Expression

/-- How a float is written: a minus sign stands in front of the magnitude of a negative one. -/
def ofFloat (number : Binary64) : Expression :=
  if number = number.magnitude then .float number else .negate (.float number.magnitude)

example : ofFloat (.zero true) = .negate (.float (.zero false)) := by decide

theorem derives_ofFloat {number : Binary64} (isNumber : number ≠ .nan) :
    ∃ tokens, DerivesUnary tokens (ofFloat number) ∧ ∀ token ∈ tokens, token.Lexical := by
  unfold ofFloat
  split
  · exact ⟨_, .float number, List.forall_mem_singleton.mpr isNumber⟩
  · have lexical : (Token.float number.magnitude).Lexical := Binary64.magnitude_ne_nan isNumber
    exact ⟨_, .negate (.float number.magnitude),
      List.forall_mem_cons.mpr ⟨trivial, List.forall_mem_singleton.mpr lexical⟩⟩

theorem text_ofFloat (number : Binary64) : (ofFloat number).text = number.text := by
  unfold ofFloat
  split
  · rfl
  · rename_i signed
    exact (Binary64.text_of_signed signed).symm

theorem evaluateLiteral_ofFloat (number : Binary64) :
    evaluateLiteral (ofFloat number) = .ok (.float number) := by
  unfold ofFloat
  split
  · rfl
  · rename_i signed
    exact congrArg (Except.ok <| Value.float ·) (Binary64.negate_magnitude signed)

theorem literals_ofFloat (number : Binary64) :
    (ofFloat number).literals = [.float number.magnitude] := by
  unfold ofFloat
  split
  · rename_i unsigned
    exact congrArg ([Expression.float ·]) unsigned
  · rfl

end Expression

namespace Value

/-! ## Legible values -/

mutual

/-- The strings of a value and the magnitudes of its floats, as literals. -/
def literals : Value → List Expression
  | .integer _ | .boolean _ => []
  | .float value => [.float value.magnitude]
  | .string value => [.string value]
  | .tuple items => literalsEach items
  | .range lower upper _ => lower.literals ++ upper.literals
  | .enumCase _ _ payload => literalsEach payload
  | .object _ fields => literalsFields fields

def literalsEach : List Value → List Expression
  | [] => []
  | item :: rest => item.literals ++ literalsEach rest

def literalsFields : List (String × Value) → List Expression
  | [] => []
  | (_, value) :: rest => value.literals ++ literalsFields rest

end

@[simp] theorem literalsEach_eq_flatMap (items : List Value) :
    literalsEach items = items.flatMap literals := by
  induction items with
  | nil => rfl
  | cons item rest induction => simp [literalsEach, induction]

/-- Every string of the value is written without escapes, and the text of every magnitude is read
as that float alone. -/
def Legible (value : Value) : Prop := ∀ literal ∈ value.literals, literal.Legible

theorem legible_of_mem {items : List Value}
    (legible : ∀ literal ∈ literalsEach items, literal.Legible) {item : Value}
    (member : item ∈ items) : item.Legible := by
  intro literal inside
  apply legible
  rw [literalsEach_eq_flatMap]
  exact List.mem_flatMap.mpr ⟨item, member, inside⟩

/-! ## What the reader makes -/

inductive Scalar : Value → Prop
  | integer {number : Int64} : number ≠ Int64.minValue → Scalar (.integer number)
  | float {number : Binary64} : number ≠ .nan → Scalar (.float number)
  | boolean (value : Bool) : Scalar (.boolean value)
  | string {text : String} : '"' ∉ text.toList → Scalar (.string text)

/-- Values that some text stands for: bounds are in order, no tuple has a single item, and no payload
is a tuple that would have been spread. -/
inductive Readable : Value → Prop
  | scalar : Scalar value → Readable value
  | range : Scalar lower → Scalar upper →
      rangeOf lower upper closed = .ok (.range lower upper closed) →
      Readable (.range lower upper closed)
  | tuple : (∀ item ∈ items, Readable item) → items.length ≠ 1 → Readable (.tuple items)
  | enumCase (first : String) (rest : List String) (name : String) :
      (∀ segment ∈ first :: (rest ++ [name]), (Token.identifier segment).Lexical) →
      (∀ item ∈ payload, Readable item) → spread payload = payload →
      Readable (.enumCase (".".intercalate (first :: rest)) name payload)

/-! ### Expressions -/

theorem scalar_of_unary {tokens : List Token} {expression : Expression} {value : Value}
    (derives : DerivesUnary tokens expression) (lexical : ∀ token ∈ tokens, token.Lexical)
    (evaluated : evaluateLiteral expression = .ok value) : Scalar value ∨ value = .absent := by
  have outcome := evaluated ▸ Expression.outcome_of_derives derives lexical
  cases outcome with
  | integer _ notLeast => exact .inl (.integer notLeast)
  | float _ isNumber => exact .inl (.float isNumber)
  | string closed => exact .inl (.string closed)
  | boolean value => exact .inl (.boolean value)
  | nil => exact .inr rfl

/-- Nothing compares with an optional, so none is a bound. -/
theorem scalars_of_rangeOf {lower upper value : Value} {closed : Bool}
    (below : Scalar lower ∨ lower = .absent) (above : Scalar upper ∨ upper = .absent)
    (ordered : rangeOf lower upper closed = .ok value) : Scalar lower ∧ Scalar upper := by
  rcases below with below | rfl
  · rcases above with above | rfl
    · exact ⟨below, above⟩
    · cases below <;> cases ordered
  · cases ordered

theorem lexical_optionalName : (Token.identifier optionalName).Lexical :=
  ⟨by decide, by decide⟩

theorem readable_optional {name : String} (either : name = someName ∨ name = noneName)
    {payload : List Value} (each : ∀ item ∈ payload, Readable item)
    (kept : spread payload = payload) : Readable (.enumCase optionalName name payload) := by
  have lexical : ∀ segment ∈ [optionalName, name], (Token.identifier segment).Lexical :=
    List.forall_mem_cons.mpr
      ⟨lexical_optionalName, List.forall_mem_singleton.mpr (lexical_of_optionalCase either)⟩
  have readable := Readable.enumCase optionalName [] name lexical each kept
  rwa [String.intercalate_singleton] at readable

theorem readable_of_expression {tokens : List Token} {expression : Expression} {value : Value}
    (derives : DerivesExpression tokens expression) (lexical : ∀ token ∈ tokens, token.Lexical)
    (evaluated : evaluateLiteral expression = .ok value) : Readable value := by
  cases derives with
  | unary derives =>
    rcases scalar_of_unary derives lexical evaluated with scalar | rfl
    · exact .scalar scalar
    · exact readable_optional (.inr rfl) nofun rfl
  | range closed lower upper =>
    rw [List.forall_mem_append, List.forall_mem_cons] at lexical
    rw [evaluateLiteral, except_bind_eq_ok_iff] at evaluated
    rcases evaluated with ⟨first, below, evaluated⟩
    rcases except_bind_eq_ok_iff.mp evaluated with ⟨last, above, ordered⟩
    cases eq_range_of_rangeOf ordered
    have scalars := scalars_of_rangeOf (scalar_of_unary lower lexical.1 below)
      (scalar_of_unary upper lexical.2.2 above) ordered
    exact .range scalars.1 scalars.2 ordered

/-! ### Patterns -/

def MakesReadable (pattern : Pattern) : Prop :=
  ∀ value, ofPattern pattern = .ok value → Readable value

theorem readable_each {items : List Pattern} (each : ∀ item ∈ items, MakesReadable item)
    {values : List Value} (spelled : SpellEach items values) :
    ∀ value ∈ values, Readable value := by
  induction spelled with
  | nil => nofun
  | @cons item value items values first _ induction =>
    rw [List.forall_mem_cons] at each ⊢
    exact ⟨each.1 value first, induction each.2⟩

theorem readable_ofItems {items : List Pattern} (each : ∀ item ∈ items, MakesReadable item) :
    MakesReadable (.ofItems items) := by
  have several (more : items.length ≠ 1) : MakesReadable (.tuple items) := by
    intro value spelled
    rcases ofPattern_tuple spelled with ⟨values, rfl, spellEach⟩
    exact .tuple (readable_each each spellEach) (spellEach.length_eq ▸ more)
  match items with
  | [] => exact several (by simp)
  | [item] => exact each item (.head _)
  | first :: second :: rest => exact several (by simp)

theorem readable_of_fills {payload : Pattern} (makes : MakesReadable payload)
    {values : List Value} (fills : Fills payload values) :
    (∀ value ∈ values, Readable value) ∧ spread values = values := by
  cases fills with
  | items spelled =>
    cases makes _ spelled with
    | scalar scalar => cases scalar
    | tuple each several =>
      refine ⟨each, (spread_eq_self_iff values).mpr ?_⟩
      rintro items rfl
      exact several rfl
  | single noTuple spelled =>
    exact ⟨List.forall_mem_singleton.mpr (makes _ spelled),
      spread_of_single (items?_of_ofPattern noTuple spelled)⟩

theorem readable_case {tokens : List Token} {qualifier : Option String} {name enum : String}
    (derives : DerivesCase tokens qualifier name) (lexical : ∀ token ∈ tokens, token.Lexical)
    (qualified : enumOf qualifier name = .ok enum) {payload : List Value}
    (each : ∀ item ∈ payload, Readable item) (kept : spread payload = payload) :
    Readable (.enumCase enum name payload) := by
  cases derives with
  | unqualified =>
    rw [enumOf] at qualified
    split at qualified
    · rename_i either
      cases qualified
      exact readable_optional either each kept
    · cases qualified
  | qualified first rest =>
    cases qualified
    refine .enumCase first rest name (fun segment member => ?_) each kept
    apply lexical
    rcases List.mem_cons.mp member with rfl | later
    · exact .head _
    · exact .tail _ (List.mem_flatMap.mpr ⟨segment, later, by simp⟩)

theorem makesReadable_payloadCase {tokens : List Token} {qualifier : Option String} {name : String}
    {payload : Pattern} (derives : DerivesCase tokens qualifier name)
    (lexical : ∀ token ∈ tokens, token.Lexical) (inside : MakesReadable payload) :
    MakesReadable (.enumCase qualifier name (some payload)) := by
  intro value spelled
  rcases ofPattern_payloadCase spelled with ⟨enum, values, rfl, qualified, fills⟩
  have filled := readable_of_fills inside fills
  exact readable_case derives lexical qualified filled.1 filled.2

theorem makesReadable_of_derives {phrase : Phrase} {mutability : Option Bool} {tokens : List Token}
    {pattern : Pattern} (derives : Derives phrase mutability tokens pattern)
    (lexical : ∀ token ∈ tokens, token.Lexical) : MakesReadable pattern := by
  induction derives with
  | annotated _ induction | primary _ induction | tuple _ induction => exact induction lexical
  | binding mutable _ induction =>
    exact induction fun token member => lexical token (.tail _ member)
  | cast | ascription | wildcard | optional | isType => nofun
  | @name mutability name =>
    cases mutability <;> nofun
  | items items _ induction =>
    apply readable_ofItems
    intro pattern member
    rcases List.mem_map.mp member with ⟨item, inside, rfl⟩
    exact induction item inside fun token within => lexical token (mem_enclosed inside within)
  | bareCase head =>
    intro value spelled
    rcases ofPattern_bareCase spelled with ⟨enum, rfl, qualified⟩
    exact readable_case head lexical qualified nofun rfl
  | payloadCase head _ induction =>
    rw [List.forall_mem_append] at lexical
    exact makesReadable_payloadCase head lexical.1 (induction lexical.2)
  | namedCase name _ induction =>
    rw [List.forall_mem_cons] at lexical
    have dotted := Pattern.lexical_dottedName lexical.1
    exact makesReadable_payloadCase (.unqualified name) dotted (induction lexical.2)
  | expression derives =>
    exact fun value spelled =>
      readable_of_expression derives lexical (ofPattern_expression spelled)

/-! ## Reading what is written -/

structure Writes (value : Value) (tokens : List Token) (expression : Expression) : Prop where
  derives : DerivesUnary tokens expression
  lexical : ∀ token ∈ tokens, token.Lexical
  text : expression.text = value.text
  evaluated : evaluateLiteral expression = .ok value
  legible : value.Legible → ∀ literal ∈ expression.literals, literal.Legible

theorem Scalar.exists_writes {value : Value} (scalar : Scalar value) :
    ∃ tokens expression, Writes value tokens expression := by
  cases scalar with
  | @integer number notLeast =>
    rcases Expression.derives_ofInteger notLeast with ⟨tokens, derives, lexical⟩
    exact ⟨tokens, _, derives, lexical, Expression.text_ofInteger notLeast,
      Expression.evaluateLiteral_ofInteger notLeast, fun _ => Expression.legible_ofInteger number⟩
  | @float number isNumber =>
    rcases Expression.derives_ofFloat isNumber with ⟨tokens, derives, lexical⟩
    refine ⟨tokens, _, derives, lexical, Expression.text_ofFloat number,
      Expression.evaluateLiteral_ofFloat number, fun legible => ?_⟩
    rw [Expression.literals_ofFloat]
    exact legible
  | boolean value =>
    exact ⟨_, _, .boolean value, List.forall_mem_singleton.mpr trivial, rfl, rfl,
      fun _ => List.forall_mem_singleton.mpr trivial⟩
  | @string text closed =>
    exact ⟨_, _, .string text, List.forall_mem_singleton.mpr closed, rfl, rfl, id⟩

theorem parse_expressionText {tokens : List Token} {expression : Expression} {value : Value}
    (derives : DerivesExpression tokens expression) (lexical : ∀ token ∈ tokens, token.Lexical)
    (legible : ∀ literal ∈ expression.literals, literal.Legible)
    (evaluated : evaluateLiteral expression = .ok value) :
    parse expression.text = .ok value := by
  have reads := readsAs_expressionText derives lexical legible
  have read := Pattern.parse_of_reads reads (.annotated (.primary (.expression derives)))
    List.nodup_nil
  rw [parse_eq_ofPattern read]
  simp only [ofPattern, evaluated]

theorem parse_scalar {value : Value} (scalar : Scalar value) (legible : value.Legible) :
    parse value.text = .ok value := by
  rcases scalar.exists_writes with ⟨tokens, expression, writes⟩
  rw [← writes.text]
  exact parse_expressionText (.unary writes.derives) writes.lexical (writes.legible legible)
    writes.evaluated

theorem parse_range {lower upper : Value} {closed : Bool} (below : Scalar lower)
    (above : Scalar upper) (ordered : rangeOf lower upper closed = .ok (.range lower upper closed))
    (legible : (Value.range lower upper closed).Legible) :
    parse (Value.range lower upper closed).text = .ok (.range lower upper closed) := by
  rcases below.exists_writes with ⟨front, first, one⟩
  rcases above.exists_writes with ⟨back, last, two⟩
  have bounds := List.forall_mem_append.mp legible
  have same : (Expression.range first last closed).text =
      (Value.range lower upper closed).text := by
    rw [Expression.text, one.text, two.text, text]
  rw [← same]
  apply parse_expressionText (.range closed one.derives two.derives)
  · have mark : (rangeToken closed).Lexical := by cases closed <;> trivial
    exact List.forall_mem_append.mpr ⟨one.lexical, List.forall_mem_cons.mpr ⟨mark, two.lexical⟩⟩
  · exact List.forall_mem_append.mpr ⟨one.legible bounds.1, two.legible bounds.2⟩
  · rw [evaluateLiteral, one.evaluated, two.evaluated]
    exact ordered

theorem parse_bareCase {first : String} {rest : List String} {name : String}
    (lexical : ∀ segment ∈ first :: (rest ++ [name]), (Token.identifier segment).Lexical) :
    let enum := ".".intercalate (first :: rest)
    parse (enum ++ "." ++ name) = .ok (.enumCase enum name []) := by
  intro enum
  have derives := DerivesCase.qualified first rest name
  have reads := Pattern.readsAs_caseText derives (lexical_path lexical)
  have read := Pattern.parse_of_reads reads (.annotated (.primary (.bareCase derives)))
    List.nodup_nil
  exact parse_eq_ofPattern read

theorem parse_each {items : List Value} (each : ∀ item ∈ items, parse item.text = .ok item) :
    List.Forall₂ (fun text value => parse text = .ok value) (items.map text) items :=
  List.forall₂_map_left_iff.mpr (List.forall₂_same.mpr each)

theorem parse_of_readable {value : Value} (readable : Readable value) (legible : value.Legible) :
    parse value.text = .ok value := by
  induction readable with
  | scalar scalar => exact parse_scalar scalar legible
  | range below above ordered => exact parse_range below above ordered legible
  | @tuple items _ several induction =>
    have each := parse_each fun item member =>
      induction item member (legible_of_mem legible member)
    have grouped := parse_group each
    rwa [ofItems_of_length_ne_one several, ← textEach_eq_map] at grouped
  | @enumCase payload first rest name lexical _ kept induction =>
    have each := parse_each fun item member =>
      induction item member (legible_of_mem legible member)
    have read := parse_case (.dotted first rest name lexical) each
    rw [kept, ← textEach_eq_map] at read
    cases payload with
    | nil => exact parse_bareCase lexical
    | cons item items =>
      rw [text]
      exact read

/-- The text of a value that was read is read as that value, provided that its strings are written
without escapes and the magnitudes of its floats are read as floats. -/
theorem parse_own_text (source : String) (value : Value) (read : parse source = .ok value)
    (legible : value.Legible) : parse value.text = .ok value := by
  rcases exists_spells read with ⟨item, spells⟩
  have makes := makesReadable_of_derives spells.derives spells.lexes.lexical
  exact parse_of_readable (makes value spells.spelled) legible

/-- A short name, a group and an empty payload are gone, and the bounds are evaluated. -/
theorem parse_own_text_of_nested :
    let source := "(some(-0.0), -3..<- -2, Geo.Shape.rect((1), ()), \"a b\", none())"
    let text := "(Optional.some(-0.0), -3..<2, Geo.Shape.rect(1, ()), \"a b\", Optional.none)"
    ∃ value, parse source = .ok value ∧ value.text = text ∧ parse text = .ok value := by
  intro source text
  let rect : Pattern := .enumCase (some "Geo.Shape") "rect"
    (some (.tuple [.expression (.integer 1), .tuple []]))
  let range : Expression := .range (.negate (.integer 3)) (.negate (.negate (.integer 2))) false
  let pattern : Pattern := .tuple
    [.enumCase none "some" (some (.expression (.negate (.float (.zero false))))),
      .expression range, rect, .expression (.string "a b"),
      .enumCase none "none" (some (.tuple []))]
  let value : Value := .tuple
    [.present (.float (.zero true)), .range (.integer (-3)) (.integer 2) false,
      .enumCase "Geo.Shape" "rect" [.integer 1, .unit], .string "a b", .absent]
  have parsed : Pattern.parse .full source = .ok pattern := ok_of_toOption (by decide +kernel)
  have read : parse source = .ok value := parse_eq_ofPattern parsed
  have written : value.text = text := by decide +kernel
  have float : (Expression.float (.zero false)).Legible :=
    ⟨⟨0, 3⟩, ok_of_toOption (by decide +kernel)⟩
  have string : quoted "a b" = "\"" ++ "a b" ++ "\"" := by decide +kernel
  have legible : value.Legible :=
    List.forall_mem_cons.mpr ⟨float, List.forall_mem_singleton.mpr string⟩
  have again := parse_own_text source value read legible
  rw [written] at again
  exact ⟨value, read, written, again⟩

end Value

end PatternClauses
