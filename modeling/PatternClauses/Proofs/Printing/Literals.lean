import PatternClauses.Proofs.Printing.Floats

/-!
# Literals as texts

A string is written with escapes and a float may be written with an exponent, but neither is read:
the lexer takes the characters of a string as they are and the digits of a number without an
exponent.  So the text of an expression is read as the expression exactly if its strings need no
escape and its floats no exponent.
-/

namespace PatternClauses

open Grammar

/-! ## Strings without escapes -/

theorem escape?_cases {quote character : Char} {letters : List Char}
    (escape : escape? quote character = some letters) :
    letters = ['\\', character] ∨
      letters ∈ [['\\', 't'], ['\\', 'n'], ['\\', 'r'], ['\\', '0']] ∨
      letters = codeEscape character := by
  unfold escape? at escape
  repeat' split at escape
  all_goals cases escape
  all_goals simp

/-- Hexadecimal digits are made by `digitChar`, which makes no other mark. -/
theorem quote_not_mem_hexadecimal (code : Nat) : '"' ∉ Nat.toDigits 16 code := by
  induction code using Nat.strongRecOn with
  | ind code induction =>
    have last (digit : Nat) : '"' ≠ digit.digitChar := (Nat.digitChar_ne '"' rfl).symm
    rw [Nat.toDigits_eq_if (by decide)]
    split
    · exact List.mem_singleton.not.mpr (last code)
    · rename_i large
      have front := induction (code / 16) (Nat.div_lt_self (by omega) (by decide))
      rw [List.mem_append, not_or]
      exact ⟨front, List.mem_singleton.not.mpr (last _)⟩

theorem quote_not_mem_escaped {character : Char} (other : character ≠ '"') :
    '"' ∉ escaped '"' character := by
  unfold escaped
  cases escape : escape? '"' character with
  | none => simpa using other.symm
  | some letters =>
    rcases escape?_cases escape with rfl | short | rfl
    · simpa using other.symm
    · have each : ∀ letters ∈ [['\\', 't'], ['\\', 'n'], ['\\', 'r'], ['\\', '0']],
          '"' ∉ letters := by decide
      exact each letters short
    · simpa [codeEscape] using quote_not_mem_hexadecimal character.toNat

theorem one_lt_length_escape {quote character : Char} {letters : List Char}
    (escape : escape? quote character = some letters) : 1 < letters.length := by
  rcases escape?_cases escape with rfl | short | rfl
  · exact Nat.lt_add_one 1
  · have each : ∀ letters ∈ [['\\', 't'], ['\\', 'n'], ['\\', 'r'], ['\\', '0']],
        1 < letters.length := by decide
    exact each letters short
  · simp [codeEscape]

theorem length_le_flatMap_escaped (quote : Char) (text : List Char) :
    text.length ≤ (text.flatMap (escaped quote)).length := by
  induction text with
  | nil => rfl
  | cons character text induction =>
    have one : 1 ≤ (escaped quote character).length := by
      unfold escaped
      cases escape : escape? quote character with
      | none => rfl
      | some letters => exact Nat.le_of_lt (one_lt_length_escape escape)
    rw [List.flatMap_cons, List.length_append, List.length_cons]
    omega

theorem escape?_eq_none_of_flatMap_eq {quote : Char} {text : List Char}
    (same : text.flatMap (escaped quote) = text) :
    ∀ character ∈ text, escape? quote character = none := by
  induction text with
  | nil => nofun
  | cons character text induction =>
    have shorter := length_le_flatMap_escaped quote text
    rw [List.flatMap_cons] at same
    cases escape : escape? quote character with
    | some letters =>
      have long := one_lt_length_escape escape
      have lengths := congrArg List.length same
      rw [escaped, escape, List.length_append, List.length_cons, Option.getD_some] at lengths
      omega
    | none =>
      rw [escaped, escape] at same
      exact List.forall_mem_cons.mpr ⟨escape, induction (List.cons.inj same).2⟩

theorem atFront_quoted {text : String} (closed : '"' ∉ text.toList) (rest : List Char) :
    AtFront (quoted text).toList (.string (String.ofList (text.toList.flatMap (escaped '"')))) rest
    := by
  have inside : '"' ∉ text.toList.flatMap (escaped '"') := by
    rw [List.mem_flatMap]
    rintro ⟨character, member, quote⟩
    exact quote_not_mem_escaped (fun same => closed (same ▸ member)) quote
  have scans := @Scans.string _ rest inside
  rw [quoted, String.toList_ofList]
  refine ⟨'"', _, rfl, ?_⟩
  rwa [List.append_assoc, List.singleton_append]

theorem escape?_eq_none_of_lexes {text : String} (closed : '"' ∉ text.toList) {rest : List Char}
    {later : List Token} (lexes : Lexes ((quoted text).toList ++ rest) (.string text :: later)) :
    (∀ character ∈ text.toList, escape? '"' character = none) ∧ Lexes rest later := by
  rcases (atFront_quoted closed rest).lexes_cons_iff.mp lexes with ⟨same, behind⟩
  have letters := congrArg String.toList (Token.string.inj same)
  rw [String.toList_ofList] at letters
  exact ⟨escape?_eq_none_of_flatMap_eq letters.symm, behind⟩

/-! ## Plain expressions -/

namespace Expression

/-- A literal that is written without an escape and without an exponent. -/
def IsPlain : Expression → Prop
  | .string text => ∀ character ∈ text.toList, escape? '"' character = none
  | .float value => value.IsPlain
  | _ => True

instance (literal : Expression) : Decidable literal.IsPlain :=
  match literal with
  | .string text => List.decidableBAll (fun character => escape? '"' character = none) text.toList
  | .float value => inferInstanceAs (Decidable value.IsPlain)
  | .integer _ | .boolean _ | .nil | .negate _ | .range _ _ _ => isTrue trivial

theorem toList_text_negate (operand : Expression) :
    (negate operand).text.toList = '-' :: operand.text.toList := String.toList_append

theorem isWord_booleanText (value : Bool) : IsWord (booleanText value).toList := by
  cases value <;> decide

theorem IsPlain.legible {literal : Expression} (plain : literal.IsPlain) : literal.Legible := by
  cases literal with
  | string text =>
    have same : quoted text = _ := quoted_eq plain
    apply String.toList_inj.mp
    rw [same]
    simp
  | float value =>
    have front : AtFront value.text.toList (.float value) [] := atFront_plainFloat plain nofun
    have lexes := front.lexes_cons_iff.mpr ⟨rfl, .done⟩
    rw [List.append_nil] at lexes
    rcases (lex_iff_lexes value.text _).mpr lexes with ⟨lexemes, read, tokens⟩
    rcases List.map_eq_singleton_iff.mp tokens with ⟨⟨token, span⟩, rfl, same⟩
    cases same
    exact ⟨span, read⟩
  | _ => trivial

theorem isPlain_of_unaryText {tokens : List Token} {value : Expression}
    (derives : DerivesUnary tokens value) (lexical : ∀ token ∈ tokens, token.Lexical)
    {rest : List Char} (breaks : Breaks rest) {later : List Token}
    (ahead : NoWordAhead later)
    (lexes : Lexes (value.text.toList ++ rest) (tokens ++ later)) :
    (∀ literal ∈ value.literals, literal.IsPlain) ∧ Lexes rest later := by
  have alone {literal : Expression} (plain : literal.IsPlain) :
      ∀ part ∈ [literal], part.IsPlain := List.forall_mem_singleton.mpr plain
  induction derives with
  | integer value =>
    have front := atFront_integer (lexical _ List.mem_cons_self) breaks
    exact ⟨alone trivial, (front.lexes_cons_iff.mp lexes).2⟩
  | float value =>
    have plain := Binary64.isPlain_of_lexes ahead lexes
    have front := atFront_plainFloat plain (breaks_digit breaks)
    exact ⟨alone plain, (front.lexes_cons_iff.mp lexes).2⟩
  | string value =>
    rcases escape?_eq_none_of_lexes (lexical _ List.mem_cons_self) lexes with ⟨plain, behind⟩
    exact ⟨alone plain, behind⟩
  | boolean value =>
    have front := atFront_word (isWord_booleanText value) breaks.1
    exact ⟨alone trivial, (front.lexes_cons_iff.mp lexes).2⟩
  | nil =>
    have isWord : IsWord "nil".toList := by decide
    have front := atFront_word isWord breaks.1
    exact ⟨alone trivial, (front.lexes_cons_iff.mp lexes).2⟩
  | negate _ induction =>
    rw [toList_text_negate] at lexes
    have behind := ((atFront_minus _).lexes_cons_iff.mp lexes).2
    exact induction (fun token member => lexical token (.tail _ member)) behind

theorem isPlain_of_expressionText {tokens : List Token} {value : Expression}
    (derives : DerivesExpression tokens value) (lexical : ∀ token ∈ tokens, token.Lexical)
    (lexes : Lexes value.text.toList tokens) :
    ∀ literal ∈ value.literals, literal.IsPlain := by
  cases derives with
  | unary operand =>
    have whole : Lexes (value.text.toList ++ []) (tokens ++ []) := by
      rwa [List.append_nil, List.append_nil]
    exact (isPlain_of_unaryText operand lexical breaks_nil noWordAhead_nil whole).1
  | @range lower _ upper last closed first second =>
    rw [List.forall_mem_append, List.forall_mem_cons] at lexical
    rw [text, String.append_assoc, String.toList_append] at lexes
    have ahead : NoWordAhead (rangeToken closed :: upper) := by
      rintro _ ⟨⟩
      cases closed <;> rfl
    have breaks := apart_range closed last.text [] breaks_nil
    rw [List.append_nil] at breaks
    rcases isPlain_of_unaryText first lexical.1 breaks ahead lexes with ⟨front, behind⟩
    rw [String.toList_append] at behind
    have whole : Lexes (last.text.toList ++ []) (upper ++ []) := by
      rw [List.append_nil, List.append_nil]
      exact ((atFront_range closed _).lexes_cons_iff.mp behind).2
    have back := (isPlain_of_unaryText second lexical.2.2 breaks_nil noWordAhead_nil whole).1
    exact List.forall_mem_append.mpr ⟨front, back⟩

end Expression

/-! ## Expressions among patterns -/

/-- Behind the token the parser reads a pattern again. -/
def Token.isOpening : Token → Bool
  | .leftParen | .letKeyword | .varKeyword => true
  | _ => false

theorem Token.isOpening_eq_false {token : Token} (number : token.isNumber = true) :
    token.isOpening = false := by
  cases token with
  | integer | float => rfl
  | _ => cases number

theorem AtFront.not_opening {text rest : List Char} {token : Token} {tokens : List Token}
    (front : AtFront text token rest) (other : token.isOpening = false)
    (lexes : Lexes (text ++ rest) tokens) :
    ∃ first later, tokens = first :: later ∧ first.isOpening = false := by
  rcases front.lexes_iff.mp lexes with ⟨later, rfl, -⟩
  exact ⟨token, later, rfl, other⟩

namespace Expression

theorem not_opening_of_unaryText {printed : List Token} {value : Expression}
    (derives : DerivesUnary printed value) (lexical : ∀ token ∈ printed, token.Lexical)
    {rest : List Char} (breaks : Breaks rest) {tokens : List Token}
    (lexes : Lexes (value.text.toList ++ rest) tokens) :
    ∃ token later, tokens = token :: later ∧ token.isOpening = false := by
  cases derives with
  | integer value =>
    exact (atFront_integer (lexical _ List.mem_cons_self) breaks).not_opening rfl lexes
  | string value =>
    exact (atFront_quoted (lexical _ List.mem_cons_self) rest).not_opening rfl lexes
  | boolean value =>
    have other : (Token.ofWord (booleanText value)).isOpening = false := by cases value <;> rfl
    exact (atFront_word (isWord_booleanText value) breaks.1).not_opening other lexes
  | nil =>
    have isWord : IsWord "nil".toList := by decide
    exact (atFront_word isWord breaks.1).not_opening rfl lexes
  | negate =>
    rw [toList_text_negate] at lexes
    exact (atFront_minus _).not_opening rfl lexes
  | float value =>
    cases value with
    | nan => exact absurd rfl (lexical _ List.mem_cons_self)
    | infinite negative =>
      cases negative with
      | true => exact (atFront_minus _).not_opening rfl lexes
      | false =>
        have isWord : IsWord "inf".toList := by decide
        exact (atFront_word isWord breaks.1).not_opening rfl lexes
    | finite negative units representable =>
      cases negative with
      | true =>
        rw [text, Binary64.toList_text_negative] at lexes
        exact (atFront_minus _).not_opening rfl lexes
      | false =>
        rcases Binary64.text_begins_with_digit units representable with ⟨_, _, same, digit⟩
        rw [text, same] at lexes
        rcases lexes_of_digit digit lexes with ⟨token, later, rfl, number⟩
        exact ⟨token, later, rfl, token.isOpening_eq_false number⟩

theorem not_opening_of_expressionText {printed : List Token} {value : Expression}
    (derives : DerivesExpression printed value) (lexical : ∀ token ∈ printed, token.Lexical)
    {tokens : List Token} (lexes : Lexes value.text.toList tokens) :
    ∃ token later, tokens = token :: later ∧ token.isOpening = false := by
  cases derives with
  | unary operand =>
    rw [← List.append_nil value.text.toList] at lexes
    exact not_opening_of_unaryText operand lexical breaks_nil lexes
  | @range _ _ _ last closed first =>
    rw [text, String.append_assoc, String.toList_append] at lexes
    have breaks := apart_range closed last.text [] breaks_nil
    rw [List.append_nil] at breaks
    rw [List.forall_mem_append] at lexical
    exact not_opening_of_unaryText first lexical.1 breaks lexes

end Expression

namespace Grammar

theorem Derives.expression_of_not_opening {mutability : Option Bool} {tokens : List Token}
    {value : Expression} (derives : Derives .cast mutability tokens (.expression value))
    (first : ∀ token, tokens.head? = some token → token.isOpening = false) :
    DerivesExpression tokens value := by
  generalize same : Pattern.expression value = pattern at derives
  cases derives with
  | cast => cases same
  | annotated derives =>
    cases derives with
    | ascription => cases same
    | primary derives =>
      cases derives with
      | expression derives =>
        cases same
        exact derives
      | binding mutable =>
        cases mutable <;> cases first _ rfl
      | tuple derives =>
        cases derives
        cases first _ rfl
      | name => cases mutability <;> cases same
      | _ => cases same

theorem Derives.expression_of_mem {phrase : Phrase} {mutability : Option Bool}
    {tokens : List Token} {pattern : Pattern} (derives : Derives phrase mutability tokens pattern)
    {value : Expression} (member : value ∈ pattern.expressions) :
    ∃ part, DerivesExpression part value ∧ ∀ token ∈ part, token ∈ tokens := by
  induction derives with
  | annotated _ induction | primary _ induction | tuple _ induction => exact induction member
  | cast _ _ induction | ascription _ _ _ induction =>
    rcases induction member with ⟨part, derives, inside⟩
    exact ⟨part, derives, fun token here => List.mem_append_left _ (inside token here)⟩
  | binding _ _ induction | namedCase _ _ induction =>
    rcases induction member with ⟨part, derives, inside⟩
    exact ⟨part, derives, fun token here => List.mem_cons_of_mem _ (inside token here)⟩
  | payloadCase _ _ induction =>
    rcases induction member with ⟨part, derives, inside⟩
    exact ⟨part, derives, fun token here => List.mem_append_right _ (inside token here)⟩
  | items items _ induction =>
    rw [Pattern.expressions_ofItems] at member
    rcases List.mem_flatMap.mp member with ⟨_, mapped, member⟩
    rcases List.mem_map.mp mapped with ⟨item, here, rfl⟩
    rcases induction item here member with ⟨part, derives, inside⟩
    exact ⟨part, derives, fun token within => mem_enclosed here (inside token within)⟩
  | expression derives =>
    cases List.mem_singleton.mp member
    exact ⟨_, derives, fun _ => id⟩
  | @name mutability | @optional mutability => cases mutability <;> cases member
  | wildcard | bareCase | isType => cases member

end Grammar

namespace Pattern

theorem exists_tokens_of_parse {context : PatternContext} {source : String} {pattern : Pattern}
    (read : parse context source = .ok pattern) {value : Expression}
    (member : value ∈ pattern.expressions) :
    ∃ tokens, DerivesExpression tokens value ∧ ∀ token ∈ tokens, token.Lexical := by
  rcases parseIn_eq_ok_iff.mp read with ⟨lexemes, lexed, accepted⟩
  have lexical := ((lex_iff_lexes source _).mp ⟨lexemes, lexed, rfl⟩).lexical
  rcases (Reader.derives_of_wholeIn accepted).1.expression_of_mem member with
    ⟨tokens, derives, inside⟩
  exact ⟨tokens, derives, fun token here => lexical token (inside token here)⟩

end Pattern

namespace Expression

/-- The text of an expression that was read is read as the same expression exactly if none of its
literals is a string with an escape or a float with an exponent. -/
theorem parse_text_iff_plain {context : PatternContext} {source : String} {pattern : Pattern}
    (read : Pattern.parse context source = .ok pattern) {value : Expression}
    (member : value ∈ pattern.expressions) :
    Pattern.parse .full value.text = .ok (.expression value) ↔
      ∀ literal ∈ value.literals, literal.IsPlain := by
  rcases Pattern.exists_tokens_of_parse read member with ⟨tokens, derives, lexical⟩
  constructor
  · intro again
    rcases (Pattern.parse_full_eq_ok_iff.mp again).1 with ⟨printed, lexes, derived⟩
    rcases not_opening_of_expressionText derives lexical lexes with ⟨first, later, rfl, other⟩
    have once : DerivesExpression (first :: later) value := by
      apply derived.expression_of_not_opening
      rintro _ ⟨⟩
      exact other
    exact isPlain_of_expressionText once lexes.lexical lexes
  · intro plain
    have reads := readsAs_expressionText derives lexical fun literal here =>
      (plain literal here).legible
    exact Pattern.parse_of_reads reads (.annotated (.primary (.expression derives))) List.nodup_nil

theorem parse_text_of_negated_bound :
    ∃ pattern value, Pattern.parse .full "f(-0.25...\"a\")" = .ok pattern ∧
      value ∈ pattern.expressions ∧ value.text = "-0.25...\"a\"" ∧
      Pattern.parse .full value.text = .ok (.expression value) := by
  let value : Expression :=
    .range (.negate (.float (.ofDecimal false 25 (-2)))) (.string "a") true
  have read : Pattern.parse .full "f(-0.25...\"a\")" =
      .ok (.enumCase none "f" (some (.expression value))) := ok_of_toOption (by decide +kernel)
  have plain : ∀ literal ∈ value.literals, literal.IsPlain := by decide +kernel
  refine ⟨_, value, read, List.mem_singleton_self value, by decide +kernel, ?_⟩
  exact (parse_text_iff_plain read (List.mem_singleton_self value)).mpr plain

/-- From `10 ^ 16` on a float is written with an exponent, which is refused; and a backslash is
doubled, so that a string with two of them is read. -/
theorem exponent_and_escape_not_read_back :
    let large : Expression := .float (.ofDecimal false 1 16)
    let path : Expression := .string "a\\b"
    (Pattern.parse .full "10000000000000000.0" = .ok (.expression large) ∧
        large.text = "1e16" ∧ (Pattern.parse .full "1e16").toOption = none) ∧
      Pattern.parse .full "\"a\\b\"" = .ok (.expression path) ∧
        path.text = "\"a\\\\b\"" ∧
        Pattern.parse .full "\"a\\\\b\"" = .ok (.expression (.string "a\\\\b")) := by
  refine ⟨⟨ok_of_toOption ?_, ?_, ?_⟩, ok_of_toOption ?_, ?_, ok_of_toOption ?_⟩ <;>
    decide +kernel

end Expression

end PatternClauses
