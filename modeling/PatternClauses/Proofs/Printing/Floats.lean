import PatternClauses.Proofs.Numeric.Shortest
import PatternClauses.Proofs.Printing.RoundTrip

/-!
# Floats as texts

A float is written with digits around a point, and with an exponent where it is very large or very
small.  The lexer knows no exponent: it reads the digits in front of one and then a word.  So the
floats whose text is read as themselves are those between the two edges.
-/

namespace PatternClauses

open Grammar

/-! ## Floats without an exponent -/

/-- A number that is written with digits around a point alone: zero, or from a ten thousandth up to
`10 ^ 16`. -/
def Binary64.IsPlain : Binary64 → Prop
  | .finite false units _ =>
    units = 0 ∨ (Nat.pow 2 1074 ≤ units * Nat.pow 10 4 ∧
      units < Nat.pow 10 16 * Nat.pow 2 1074)
  | _ => False

instance (value : Binary64) : Decidable value.IsPlain :=
  match value with
  | .finite false _ _ => inferInstanceAs (Decidable (_ ∨ _))
  | .nan | .infinite _ | .finite true _ _ => isFalse id

theorem Binary64.toList_text_unsigned (units : Nat) (representable : Representable units) :
    (Binary64.finite false units representable).text.toList =
      (Decimal.shortest units).text layout := String.toList_ofList

theorem Binary64.toList_text_negative (units : Nat) (representable : Representable units) :
    (Binary64.finite true units representable).text.toList =
      '-' :: (Decimal.shortest units).text layout := String.toList_ofList

namespace Decimal

theorem positional_iff {units : Nat} (representable : Representable units) (nonzero : units ≠ 0) :
    (-4 ≤ (shortest units).leadingExponent ∧ (shortest units).leadingExponent < 16) ↔
      Nat.pow 2 1074 ≤ units * Nat.pow 10 4 ∧ units < Nat.pow 10 16 * Nat.pow 2 1074 := by
  have lower := edge_ten_thousandth.le_leadingExponent_iff representable nonzero
  have upper := edge_ten_pow_sixteen.le_leadingExponent_iff representable nonzero
  generalize Nat.pow 2 1074 = unit at lower upper ⊢
  have one : Nat.pow 10 (-4 : Int).toNat * unit = unit := Nat.one_mul unit
  have whole : units * Nat.pow 10 (-16 : Int).toNat = units := Nat.mul_one units
  have fourth : (- -4 : Int).toNat = 4 := rfl
  have sixteenth : (16 : Int).toNat = 16 := rfl
  rw [one, fourth] at lower
  rw [whole, sixteenth] at upper
  rw [lower, ← Int.not_le, upper, Nat.not_le]

theorem exists_parts_text {units : Nat} (representable : Representable units)
    (plain : (Binary64.finite false units representable).IsPlain) :
    ∃ whole fraction, (shortest units).text Binary64.layout = whole ++ '.' :: fraction ∧
      whole ≠ [] ∧ fraction ≠ [] ∧ (∀ digit ∈ whole ++ fraction, digit.isDigit = true) ∧
      Binary64.ofDecimal false (naturalOfDigits (whole ++ fraction)) (-fraction.length) =
        .finite false units representable := by
  by_cases zero : units = 0
  · subst zero
    have zeros : ∀ digit ∈ ['0'] ++ ['0'], digit.isDigit = true := by simp
    exact ⟨['0'], ['0'], by decide +kernel, by decide, by decide, zeros, rfl⟩
  · rcases plain with impossible | window
    · exact absurd impossible zero
    have placed := (positional_iff representable zero).mpr window
    have nonempty : Nat.toDigits 10 (shortest units).digits ≠ [] := Nat.toDigits_ne_nil
    have each : ∀ digit ∈ Nat.toDigits 10 (shortest units).digits, digit.isDigit = true :=
      fun _ => Nat.isDigit_of_mem_toDigits (by decide) (by decide)
    have point : (shortest units).leadingExponent + 1 =
        (shortest units).exponent + (Nat.toDigits 10 (shortest units).digits).length := by
      have positive := List.length_pos_iff.mpr nonempty
      rw [leadingExponent]
      omega
    rcases exists_parts_positional nonempty each (naturalOfDigits_toDigits _) point with
      ⟨whole, fraction, spelled, parts⟩
    refine ⟨whole, fraction, ?_, parts.whole_ne_nil, parts.fraction_ne_nil, parts.digits,
      parts.ofDecimal_eq representable zero (by omega) false⟩
    rw [text]
    exact (if_pos placed).trans spelled

end Decimal

/-! ## What a text begins with -/

theorem numbers_float {whole fraction rest : List Char} (behind : fraction ≠ [])
    (each : ∀ digit ∈ whole ++ fraction, digit.isDigit = true)
    (ends : ∀ first, rest.head? = some first → first.isDigit = false) :
    Numbers (whole ++ '.' :: fraction ++ rest)
      (.float (.ofDecimal false (naturalOfDigits (whole ++ fraction)) (-fraction.length)))
      (whole ++ '.' :: fraction) := by
  rw [List.forall_mem_append] at each
  have point : ∀ first, ('.' :: (fraction ++ rest)).head? = some first → first.isDigit = false := by
    rintro _ ⟨⟩
    rfl
  have front : (whole ++ '.' :: fraction ++ rest).takeWhile Char.isDigit = whole := by
    rw [List.append_assoc, List.cons_append]
    exact takeWhile_append each.1 point
  have left : (whole ++ '.' :: fraction ++ rest).dropWhile Char.isDigit =
      '.' :: (fraction ++ rest) := by
    rw [List.append_assoc, List.cons_append, List.dropWhile_append_of_pos each.1]
    rfl
  have taken : (fraction ++ rest).takeWhile Char.isDigit = fraction := takeWhile_append each.2 ends
  cases fraction with
  | nil => exact absurd rfl behind
  | cons digit more => exact .float front left (each.2 digit List.mem_cons_self) taken

theorem atFront_float {whole fraction rest : List Char} (before : whole ≠ [])
    (behind : fraction ≠ []) (each : ∀ digit ∈ whole ++ fraction, digit.isDigit = true)
    (ends : ∀ first, rest.head? = some first → first.isDigit = false) :
    AtFront (whole ++ '.' :: fraction)
      (.float (.ofDecimal false (naturalOfDigits (whole ++ fraction)) (-fraction.length))) rest := by
  have number := numbers_float behind each ends
  cases whole with
  | nil => exact absurd rfl before
  | cons first more => exact atFront_number (each first List.mem_cons_self) number

theorem atFront_plainFloat {value : Binary64} (plain : value.IsPlain) {rest : List Char}
    (ends : ∀ first, rest.head? = some first → first.isDigit = false) :
    AtFront value.text.toList (.float value) rest := by
  cases value with
  | nan => cases plain
  | infinite => cases plain
  | finite negative units representable =>
    cases negative with
    | true => cases plain
    | false =>
      rcases Decimal.exists_parts_text representable plain with
        ⟨whole, fraction, text, before, behind, each, read⟩
      have front := atFront_float before behind each ends
      rw [read] at front
      rwa [Binary64.toList_text_unsigned, text]

/-! ## What is not read as a float -/

theorem lexes_of_start {first : Char} (start : isWordStart first = true) {rest : List Char}
    {tokens : List Token} (lexes : Lexes (first :: rest) tokens) :
    ∃ token later, tokens = token :: later ∧ token.isWord = true := by
  have scans : Scans first rest _ _ := .word start rfl
  rcases scans.run with ⟨more, same, -⟩
  rw [same] at scans
  rcases lexes.of_scans scans with ⟨later, tokens, -⟩
  exact ⟨_, later, tokens, Token.isWord_ofWord _⟩

theorem atFront_minus (rest : List Char) : AtFront ['-'] .minus rest :=
  ⟨'-', [], rfl, .mark (by decide)⟩

theorem not_isBlank_of_isDigit {character : Char} (digit : character.isDigit = true) :
    isBlank character = false := by
  rw [Bool.eq_false_iff]
  intro blank
  simp only [isBlank, Bool.or_eq_true, beq_iff_eq] at blank
  rcases blank with (((rfl | rfl) | rfl) | rfl) | rfl <;> cases digit

theorem lexes_of_digit {first : Char} (digit : first.isDigit = true) {rest : List Char}
    {tokens : List Token} (lexes : Lexes (first :: rest) tokens) :
    ∃ token later, tokens = token :: later ∧ token.isNumber = true := by
  cases lexes with
  | blank blank =>
    rw [not_isBlank_of_isDigit digit] at blank
    cases blank
  | token taken =>
    have noWord : ¬ isWordStart first = true := by
      intro start
      rw [isDigit_eq_false_of_start start] at digit
      cases digit
    rw [scan, if_neg noWord, if_pos digit] at taken
    exact ⟨_, _, rfl, (scanNumber_eq_ok_iff.mp taken).isNumber⟩

theorem point_of_lexes {first : Char} {rest : List Char} {value : Binary64} {later : List Token}
    (digit : first.isDigit = true) (lexes : Lexes (first :: rest) (.float value :: later)) :
    ((first :: rest).dropWhile Char.isDigit).head? = some '.' := by
  cases lexes with
  | blank blank =>
    rw [not_isBlank_of_isDigit digit] at blank
    cases blank
  | @token _ _ _ run _ taken =>
    rcases (scans_of_scan taken).numbers rfl with ⟨-, -, number⟩
    generalize float : Token.float value = token at number
    generalize first :: run = spelled at number
    cases number with
    | integer => cases float
    | float whole point =>
      rw [point]
      rfl

theorem exponential_cases {digits : List Char} (nonempty : digits ≠ []) (exponent : Int) :
    ∃ front behind, Decimal.exponential Binary64.layout digits exponent = front ++ 'e' :: behind ∧
      ((∃ digit ∈ digits, front = [digit]) ∨
        ∃ first fraction, fraction ≠ [] ∧ digits = first :: fraction ∧
          front = first :: '.' :: fraction) := by
  match digits with
  | [] => exact absurd rfl nonempty
  | [digit] => exact ⟨[digit], _, rfl, .inl ⟨digit, List.mem_singleton_self _, rfl⟩⟩
  | first :: second :: rest =>
    refine ⟨first :: '.' :: second :: rest, (integerText exponent).toList, ?_,
      .inr ⟨first, second :: rest, List.cons_ne_nil _ _, rfl, rfl⟩⟩
    simp [Decimal.exponential, Binary64.layout]

def NoWordAhead (tokens : List Token) : Prop :=
  ∀ token, tokens.head? = some token → token.isWord = false

theorem noWordAhead_nil : NoWordAhead [] := by simp [NoWordAhead]

theorem not_lexes_exponential {digits rest : List Char} (nonempty : digits ≠ [])
    (each : ∀ digit ∈ digits, digit.isDigit = true) (exponent : Int) {value : Binary64}
    {later : List Token} (ahead : NoWordAhead later) :
    ¬ Lexes (Decimal.exponential Binary64.layout digits exponent ++ rest)
      (.float value :: later) := by
  intro lexes
  rcases exponential_cases nonempty exponent with ⟨front, behind, text, shape⟩
  rw [text] at lexes
  rcases shape with ⟨digit, member, rfl⟩ | ⟨first, fraction, more, rfl, rfl⟩
  · have point := point_of_lexes (each digit member) lexes
    rw [List.dropWhile_cons_of_pos (each digit member)] at point
    cases point
  · have ends : ∀ next, ('e' :: (behind ++ rest)).head? = some next → next.isDigit = false := by
      rintro _ ⟨⟩
      rfl
    have front := atFront_float (List.cons_ne_nil first []) more each ends
    rw [List.append_assoc] at lexes
    rcases front.lexes_iff.mp lexes with ⟨_, same, lexes⟩
    cases same
    rcases lexes_of_start rfl lexes with ⟨token, _, rfl, word⟩
    rw [ahead token rfl] at word
    cases word

theorem not_lexes_float_of_start {first : Char} (start : isWordStart first = true)
    {rest : List Char} {value : Binary64} {later : List Token} :
    ¬ Lexes (first :: rest) (.float value :: later) := by
  intro lexes
  rcases lexes_of_start start lexes with ⟨_, _, same, word⟩
  cases same
  cases word

theorem not_lexes_float_of_minus {rest : List Char} {value : Binary64} {later : List Token} :
    ¬ Lexes ('-' :: rest) (.float value :: later) := by
  intro lexes
  cases ((atFront_minus rest).lexes_cons_iff.mp lexes).1

namespace Binary64

theorem text_of_not_isPlain {units : Nat} {representable : Representable units}
    (outside : ¬ (Binary64.finite false units representable).IsPlain) :
    (Binary64.finite false units representable).text.toList =
      Decimal.exponential layout (Nat.toDigits 10 (Decimal.shortest units).digits)
        (Decimal.shortest units).leadingExponent := by
  have nonzero : units ≠ 0 := fun zero => outside (.inl zero)
  have window : ¬ (-4 ≤ (Decimal.shortest units).leadingExponent ∧
      (Decimal.shortest units).leadingExponent < 16) := by
    rw [Decimal.positional_iff representable nonzero]
    exact fun inside => outside (.inr inside)
  rw [toList_text_unsigned]
  exact if_neg window

theorem isPlain_of_lexes {value : Binary64} {rest : List Char} {later : List Token}
    (ahead : NoWordAhead later)
    (lexes : Lexes (value.text.toList ++ rest) (.float value :: later)) : value.IsPlain := by
  cases value with
  | nan => exact absurd lexes (not_lexes_float_of_start rfl)
  | infinite negative =>
    cases negative with
    | false => exact absurd lexes (not_lexes_float_of_start rfl)
    | true => exact absurd lexes not_lexes_float_of_minus
  | finite negative units representable =>
    cases negative with
    | true =>
      rw [toList_text_negative] at lexes
      exact absurd lexes not_lexes_float_of_minus
    | false =>
      by_contra outside
      rw [text_of_not_isPlain outside] at lexes
      exact not_lexes_exponential Nat.toDigits_ne_nil
        (fun _ => Nat.isDigit_of_mem_toDigits (by decide) (by decide)) _ ahead lexes

theorem text_begins_with_digit (units : Nat) (representable : Representable units) :
    ∃ first more, (Binary64.finite false units representable).text.toList = first :: more ∧
      first.isDigit = true := by
  by_cases plain : (Binary64.finite false units representable).IsPlain
  · rcases Decimal.exists_parts_text representable plain with
      ⟨whole, fraction, same, before, -, each, -⟩
    rw [toList_text_unsigned, same]
    cases whole with
    | nil => exact absurd rfl before
    | cons first more => exact ⟨first, _, rfl, each first List.mem_cons_self⟩
  · rw [text_of_not_isPlain plain]
    have each : ∀ digit ∈ Nat.toDigits 10 (Decimal.shortest units).digits, digit.isDigit = true :=
      fun _ => Nat.isDigit_of_mem_toDigits (by decide) (by decide)
    rcases exponential_cases Nat.toDigits_ne_nil (Decimal.shortest units).leadingExponent with
      ⟨_, behind, same, ⟨digit, member, rfl⟩ | ⟨first, fraction, -, digits, rfl⟩⟩
    · exact ⟨digit, 'e' :: behind, same, each digit member⟩
    · refine ⟨first, _, same, each first ?_⟩
      rw [digits]
      exact List.mem_cons_self

end Binary64

end PatternClauses
