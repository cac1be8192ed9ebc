import PatternClauses.Proofs.CommandLine.Literals
import PatternClauses.Proofs.Lexing.Spacing
import PatternClauses.Proofs.Printing.RoundTrip

/-!
# Payloads of literals

The text of a case with arguments is put together from the texts of the arguments.  As a literal
it stands for the case with their values, with one exception: parentheses around a single pattern
only group it, so a tuple that is the only argument gives its items to the case.
-/

namespace PatternClauses

open Grammar

/-! ## Texts in parentheses -/

theorem lexes_commaSeparated {texts : List String} {tokens : List (List Token)}
    (each : List.Forall₂ (fun text tokens => Lexes text.toList tokens) texts tokens)
    {rest : List Char} {tail : List Token} (separates : Separates rest) (behind : Lexes rest tail) :
    Lexes ((commaSeparated texts).toList ++ rest) ([Token.comma].intercalate tokens ++ tail) := by
  induction each with
  | nil => exact behind
  | @cons text taken texts tokens first others induction =>
    cases others with
    | nil => simpa [commaSeparated] using first.append separates behind
    | @cons second later texts tokens =>
      have comma : Separates (", ".toList ++ ((commaSeparated (second :: texts)).toList ++ rest)) :=
        separates_cons rfl (by decide) _
      have all := first.append comma (standsFor_comma _ _ induction)
      simpa [commaSeparated, List.append_assoc] using all

theorem lexes_enclosed {texts : List String} {tokens : List (List Token)}
    (each : List.Forall₂ (fun text tokens => Lexes text.toList tokens) texts tokens) :
    Lexes ("(" ++ commaSeparated texts ++ ")").toList (enclosed tokens) := by
  have opening : StandsFor "(" [.leftParen] := standsFor_mark (by decide) rfl
  have closing : StandsFor ")" [.rightParen] := standsFor_mark (by decide) rfl
  have last := closing [] [] .done
  have marked : Separates (")".toList ++ []) := separates_cons rfl (by decide) []
  have inside := lexes_commaSeparated each marked last
  simpa [enclosed] using opening _ _ inside

namespace Value

/-! ## Literals without names -/

theorem exists_value_of_mem {items : List Pattern} {values : List Value}
    (each : SpellEach items values) {item : Pattern} (member : item ∈ items) :
    ∃ value, ofPattern item = .ok value := by
  induction each with
  | nil => cases member
  | cons spelled _ induction =>
    rcases List.mem_cons.mp member with rfl | later
    · exact ⟨_, spelled⟩
    · exact induction later

theorem bindings_of_ofPattern {pattern : Pattern} {value : Value}
    (spelled : ofPattern pattern = .ok value) : pattern.bindings = [] := by
  induction pattern generalizing value with
  | tuple items induction =>
    rcases ofPattern_tuple spelled with ⟨values, rfl, each⟩
    rw [Pattern.bindings, Pattern.bindingsEach_eq_flatMap, List.flatMap_eq_nil_iff]
    intro item member
    rcases exists_value_of_mem each member with ⟨value, inside⟩
    exact induction item member inside
  | enumCase qualifier name payload induction =>
    cases payload with
    | none => rfl
    | some payload =>
      rcases ofPattern_payloadCase spelled with ⟨enum, values, rfl, -, fills⟩
      rw [Pattern.bindings]
      cases fills with
      | items inside => exact induction _ rfl inside
      | single _ inside => exact induction _ rfl inside
  | expression => rfl
  | _ => cases spelled

theorem items?_of_negated {operand value : Value} (negation : negated operand = .ok value) :
    value.items? = none := by
  cases operand with
  | integer =>
    rw [negated] at negation
    split at negation <;> cases negation
    rfl
  | float =>
    cases negation
    rfl
  | _ => cases negation

theorem items?_of_evaluateLiteral {expression : Expression} {value : Value}
    (evaluated : evaluateLiteral expression = .ok value) : value.items? = none := by
  cases expression with
  | negate operand =>
    rw [evaluateLiteral, except_bind_eq_ok_iff] at evaluated
    rcases evaluated with ⟨inside, -, negation⟩
    exact items?_of_negated negation
  | range lower upper closed =>
    rw [evaluateLiteral, except_bind_eq_ok_iff] at evaluated
    rcases evaluated with ⟨first, -, evaluated⟩
    rcases except_bind_eq_ok_iff.mp evaluated with ⟨last, -, ordered⟩
    rw [eq_range_of_rangeOf ordered]
    rfl
  | _ =>
    cases evaluated
    rfl

theorem items?_of_ofPattern {pattern : Pattern} {value : Value}
    (noTuple : ∀ items, pattern ≠ .tuple items) (spelled : ofPattern pattern = .ok value) :
    value.items? = none := by
  cases pattern with
  | tuple items => exact absurd rfl (noTuple items)
  | enumCase qualifier name payload =>
    cases payload with
    | none =>
      rcases ofPattern_bareCase spelled with ⟨enum, rfl, -⟩
      rfl
    | some payload =>
      rcases ofPattern_payloadCase spelled with ⟨enum, values, rfl, -⟩
      rfl
  | expression expression => exact items?_of_evaluateLiteral (ofPattern_expression spelled)
  | _ => cases spelled

/-! ## Arguments -/

/-- The associated values that arguments come to: a single tuple is spread. -/
def spread : List Value → List Value
  | [argument] => argument.items?.getD [argument]
  | arguments => arguments

theorem spread_of_single {value : Value} (noTuple : value.items? = none) :
    spread [value] = [value] := by
  rw [spread, noTuple]
  rfl

theorem ne_singleton_tuple (items : List Value) : items ≠ [.tuple items] := by
  intro same
  have sizes := congrArg sizeOf same
  simp only [List.cons.sizeOf_spec, List.nil.sizeOf_spec, tuple.sizeOf_spec] at sizes
  omega

theorem spread_eq_self_iff (arguments : List Value) :
    spread arguments = arguments ↔ ∀ items, arguments ≠ [.tuple items] := by
  constructor
  · rintro kept items rfl
    exact ne_singleton_tuple items kept
  · intro noTuple
    match arguments with
    | [] | _ :: _ :: _ => rfl
    | [argument] =>
      apply spread_of_single
      cases argument with
      | tuple items => exact absurd rfl (noTuple items)
      | _ => rfl

theorem ofPatterns_of_spellEach {items : List Pattern} {values : List Value}
    (each : SpellEach items values) : ofPatterns items = .ok values := by
  induction each with
  | nil => rfl
  | cons first _ induction =>
    rw [ofPatterns, first, induction]
    rfl

theorem ofPattern_tuple_of_spellEach {items : List Pattern} {values : List Value}
    (each : SpellEach items values) : ofPattern (.tuple items) = .ok (.tuple values) := by
  rw [ofPattern, ofPatterns_of_spellEach each]
  rfl

theorem ofPattern_ofItems {items : List Pattern} {values : List Value}
    (each : SpellEach items values) : ofPattern (.ofItems items) = .ok (.ofItems values) := by
  have whole := ofPattern_tuple_of_spellEach each
  cases each with
  | nil => exact whole
  | cons spelled others =>
    cases others with
    | nil => exact spelled
    | cons => exact whole

theorem fills_ofItems {items : List Pattern} {values : List Value}
    (each : SpellEach items values) : Fills (.ofItems items) (spread values) := by
  have whole := ofPattern_tuple_of_spellEach each
  cases each with
  | nil => exact .items whole
  | @cons item value items values spelled others =>
    cases others with
    | cons => exact .items whole
    | nil =>
      by_cases tuple : ∃ items, item = .tuple items
      · rcases tuple with ⟨items, rfl⟩
        rcases ofPattern_tuple spelled with ⟨values, rfl, -⟩
        exact .items spelled
      · have noTuple : ∀ items, item ≠ .tuple items := fun items same => tuple ⟨items, same⟩
        rw [spread_of_single (items?_of_ofPattern noTuple spelled)]
        exact .single noTuple spelled

theorem ofPattern_of_fills {qualifier : Option String} {name enum : String}
    (qualified : enumOf qualifier name = .ok enum) {payload : Pattern} {values : List Value}
    (fills : Fills payload values) :
    ofPattern (.enumCase qualifier name (some payload)) = .ok (.enumCase enum name values) := by
  cases fills with
  | items spelled =>
    rcases ofPattern_tuple spelled with ⟨_, same, each⟩
    cases same
    rw [ofPattern, qualified, ofPatterns_of_spellEach each]
    rfl
  | single noTuple spelled =>
    rw [ofPattern, qualified, spelled]
    · rfl
    · exact noTuple

/-! ## Cases with arguments -/

/-- The tokens of a text, and the pattern that they derive, stand for the value. -/
structure Spells (text : String) (value : Value) (item : List Token × Pattern) : Prop where
  lexes : Lexes text.toList item.1
  derives : Derives .cast none item.1 item.2
  spelled : ofPattern item.2 = .ok value

theorem exists_spells {text : String} {value : Value} (read : parse text = .ok value) :
    ∃ item, Spells text value item := by
  rw [parse] at read
  split at read
  · rename_i pattern parsed
    rcases (Pattern.parse_full_eq_ok_iff.mp parsed).1 with ⟨tokens, lexes, derives⟩
    exact ⟨(tokens, pattern), lexes, derives, read⟩
  · cases read

theorem parse_of_spells {text : String} {value : Value} {item : List Token × Pattern}
    (spells : Spells text value item) : parse text = .ok value := by
  have distinct : item.2.bindings.Nodup := by
    rw [bindings_of_ofPattern spells.spelled]
    exact List.nodup_nil
  have read : Pattern.parse .full text = .ok item.2 :=
    Pattern.parse_full_eq_ok_iff.mpr ⟨⟨item.1, spells.lexes, spells.derives⟩, distinct⟩
  exact (parse_eq_ofPattern read).trans spells.spelled

structure Arguments (texts : List String) (values : List Value)
    (items : List (List Token × Pattern)) : Prop where
  lexes : List.Forall₂ (fun text tokens => Lexes text.toList tokens) texts (items.map (·.1))
  derives : ∀ item ∈ items, Derives .cast none item.1 item.2
  spelled : SpellEach (items.map (·.2)) values

theorem exists_arguments {texts : List String} {values : List Value}
    (each : List.Forall₂ (fun text value => parse text = .ok value) texts values) :
    ∃ items, Arguments texts values items := by
  induction each with
  | nil => exact ⟨[], .nil, nofun, .nil⟩
  | cons read _ induction =>
    rcases exists_spells read with ⟨item, spells⟩
    rcases induction with ⟨items, arguments⟩
    exact ⟨item :: items, .cons spells.lexes arguments.lexes,
      List.forall_mem_cons.mpr ⟨spells.derives, arguments.derives⟩,
      .cons spells.spelled arguments.spelled⟩

theorem parse_group {texts : List String} {values : List Value}
    (each : List.Forall₂ (fun text value => parse text = .ok value) texts values) :
    parse ("(" ++ commaSeparated texts ++ ")") = .ok (.ofItems values) := by
  rcases exists_arguments each with ⟨items, arguments⟩
  have derives := Derives.tuple (.items items arguments.derives)
  exact @parse_of_spells _ _ (_, _) ⟨lexes_enclosed arguments.lexes,
    .annotated (.primary derives), ofPattern_ofItems arguments.spelled⟩

/-- What stands in front of the arguments of a case: the path of its enum with its own name, or the
name of a case of optionals. -/
inductive CaseHead : (head enum name : String) → Prop
  | dotted (first : String) (rest : List String) (name : String) :
      (∀ segment ∈ first :: (rest ++ [name]), (Token.identifier segment).Lexical) →
      CaseHead (".".intercalate (first :: rest) ++ "." ++ name) (".".intercalate (first :: rest))
        name
  | optional (name : String) : name = someName ∨ name = noneName → CaseHead name optionalName name

theorem lexical_of_optionalCase {name : String} (either : name = someName ∨ name = noneName) :
    (Token.identifier name).Lexical := by
  rcases either with rfl | rfl <;> exact ⟨by decide, by decide⟩

theorem lexical_path {first : String} {rest : List String}
    (lexical : ∀ segment ∈ first :: rest, (Token.identifier segment).Lexical) :
    ∀ token ∈ path first rest, token.Lexical := by
  rw [List.forall_mem_cons] at lexical
  refine List.forall_mem_cons.mpr ⟨lexical.1, fun token member => ?_⟩
  rcases List.mem_flatMap.mp member with ⟨segment, inside, here⟩
  rcases List.mem_pair.mp here with rfl | rfl
  · trivial
  · exact lexical.2 segment inside

theorem CaseHead.derives {head enum name : String} (caseHead : CaseHead head enum name) :
    ∃ qualifier tokens, enumOf qualifier name = .ok enum ∧ ReadsAs head tokens ∧
      ∀ more payload, Derives .tuple none more payload →
        Derives .primary none (tokens ++ more) (.enumCase qualifier name (some payload)) := by
  cases caseHead with
  | dotted first rest name lexical =>
    have reads := Pattern.readsAs_caseText (.qualified first rest name) (lexical_path lexical)
    rw [Pattern.text] at reads
    exact ⟨_, _, rfl, reads, fun more payload => .payloadCase (.qualified first rest name)⟩
  | optional _ either =>
    have reads := readsAs_name (lexical_of_optionalCase either)
    exact ⟨none, _, if_pos either, reads, fun more payload => .namedCase head⟩

theorem parse_case {head enum name : String} (caseHead : CaseHead head enum name)
    {texts : List String} {values : List Value}
    (each : List.Forall₂ (fun text value => parse text = .ok value) texts values) :
    parse (head ++ "(" ++ commaSeparated texts ++ ")") =
      .ok (.enumCase enum name (spread values)) := by
  rcases caseHead.derives with ⟨qualifier, tokens, qualified, reads, derives⟩
  rcases exists_arguments each with ⟨items, arguments⟩
  have opened : Breaks ("(" ++ commaSeparated texts ++ ")").toList := by
    simpa using breaks_cons rfl (by decide) _
  have lexes := reads _ _ opened (lexes_enclosed arguments.lexes)
  rw [← String.toList_append, ← String.append_assoc, ← String.append_assoc] at lexes
  have derived := derives _ _ (.items items arguments.derives)
  have spelled := ofPattern_of_fills qualified (fills_ofItems arguments.spelled)
  exact @parse_of_spells _ _ (_, _) ⟨lexes, .annotated (.primary derived), spelled⟩

/-- Arguments in parentheses behind a case stand for its associated values, however many they are;
behind `some`, a single argument stands for what the optional holds.  The one exception is a tuple
that is the only argument: its items become the associated values, and it is lost. -/
theorem parse_payload_iff_no_single_tuple (head enum name : String) (texts : List String)
    (values : List Value) (caseHead : CaseHead head enum name)
    (each : List.Forall₂ (fun text value => parse text = .ok value) texts values) :
    let read := parse (head ++ "(" ++ commaSeparated texts ++ ")")
    read = .ok (.enumCase enum name (spread values)) ∧
      (read = .ok (.enumCase enum name values) ↔ ∀ items, values ≠ [.tuple items]) := by
  intro read
  have answer : read = .ok (.enumCase enum name (spread values)) := parse_case caseHead each
  have kept : read = .ok (.enumCase enum name values) ↔ spread values = values := by
    rw [answer, Except.ok.injEq, Value.enumCase.injEq]
    simp
  exact ⟨answer, kept.trans (spread_eq_self_iff values)⟩

theorem payload_of_rectangle :
    let corner : Value := .tuple [.integer 1, .integer 2]
    parse "Shape.rect(true, (1, 2))" = .ok (.enumCase "Shape" "rect" [.boolean true, corner]) ∧
      parse "some(true)" = .ok (.present (.boolean true)) := by
  intro corner
  let pair : Pattern := .tuple [.expression (.integer 1), .expression (.integer 2)]
  have flag : Pattern.parse .full "true" = .ok (.expression (.boolean true)) :=
    ok_of_toOption (by decide +kernel)
  have point : Pattern.parse .full "(1, 2)" = .ok pair := ok_of_toOption (by decide +kernel)
  have read : parse "true" = .ok (.boolean true) := parse_eq_ofPattern flag
  have grouped : parse "(1, 2)" = .ok corner := parse_eq_ofPattern point
  have names : ∀ segment ∈ ["Shape", "rect"],
      IsWord segment.toList ∧ Token.ofWord segment = .identifier segment := by
    decide +kernel
  have shape : CaseHead "Shape.rect" "Shape" "rect" := .dotted "Shape" [] "rect" names
  have rectangle := parse_payload_iff_no_single_tuple _ _ _ ["true", "(1, 2)"]
    [.boolean true, corner] shape (.cons read (.cons grouped .nil))
  have optional := parse_payload_iff_no_single_tuple _ _ _ ["true"] [.boolean true]
    (.optional someName (.inl rfl)) (.cons read .nil)
  exact ⟨rectangle.2.mpr nofun, optional.2.mpr nofun⟩

theorem optional_pair_is_spread :
    ∃ value, parse "(1, 2)" = .ok value ∧ parse "some((1, 2))" ≠ .ok (.present value) ∧
      parse "some((1, 2))" = .ok (.enumCase optionalName someName [.integer 1, .integer 2]) := by
  let pair : Pattern := .tuple [.expression (.integer 1), .expression (.integer 2)]
  have parsed : Pattern.parse .full "(1, 2)" = .ok pair := ok_of_toOption (by decide +kernel)
  have within : Pattern.parse .full "some((1, 2))" = .ok (.enumCase none "some" (some pair)) :=
    ok_of_toOption (by decide +kernel)
  have spread : parse "some((1, 2))" =
      .ok (.enumCase optionalName someName [.integer 1, .integer 2]) := parse_eq_ofPattern within
  refine ⟨.tuple [.integer 1, .integer 2], parse_eq_ofPattern parsed, ?_, spread⟩
  simp [spread, present]

end Value

end PatternClauses
