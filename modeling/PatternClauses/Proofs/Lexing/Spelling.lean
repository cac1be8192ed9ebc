import PatternClauses.Expression
import PatternClauses.Proofs.Lexing.Tokens
import PatternClauses.Proofs.Parsing.Grammar

/-!
# Texts that spell tokens

A text spells tokens if they are read from it wherever it stands.  Words and numbers only do so in
front of something that does not go on with them; punctuation does so everywhere.
-/

namespace PatternClauses

/-- Neither a word nor a number reads on. -/
def Breaks (rest : List Char) : Prop :=
  (∀ first, rest.head? = some first → isWordPart first = false) ∧
    ∀ digit more, rest = '.' :: digit :: more → digit.isDigit = false

/-- The text is read as the tokens in front of something that breaks. -/
def ReadsAs (text : String) (tokens : List Token) : Prop :=
  ∀ rest tail, Breaks rest → Lexes rest tail → Lexes (text.toList ++ rest) (tokens ++ tail)

/-- The text is read as the tokens in front of anything. -/
def StandsFor (text : String) (tokens : List Token) : Prop :=
  ∀ rest tail, Lexes rest tail → Lexes (text.toList ++ rest) (tokens ++ tail)

def Apart (text : String) : Prop := ∀ rest, Breaks rest → Breaks (text.toList ++ rest)

theorem StandsFor.readsAs {text : String} {tokens : List Token} (stands : StandsFor text tokens) :
    ReadsAs text tokens :=
  fun rest tail _ lexes => stands rest tail lexes

theorem readsAs_empty : ReadsAs "" [] := fun _ _ _ lexes => lexes

theorem breaks_nil : Breaks [] := ⟨nofun, nofun⟩

theorem breaks_cons {first : Char} (mark : isWordPart first = false) (other : first ≠ '.')
    (rest : List Char) : Breaks (first :: rest) := by
  refine ⟨?_, ?_⟩
  · rintro _ ⟨⟩
    exact mark
  · rintro digit more ⟨⟩
    exact absurd rfl other

def Marked (text : String) : Prop :=
  text.toList.head?.any (fun first => !isWordPart first && first != '.') = true

instance (text : String) : Decidable (Marked text) := inferInstanceAs (Decidable (_ = true))

theorem Marked.append {text : String} (marked : Marked text) (behind : String) :
    Marked (text ++ behind) := by
  unfold Marked at marked ⊢
  rw [String.toList_append]
  cases letters : text.toList with
  | nil =>
    rw [letters] at marked
    cases marked
  | cons first more => rwa [letters] at marked

theorem Marked.apart {text : String} (marked : Marked text) : Apart text := by
  intro rest _
  unfold Marked at marked
  cases letters : text.toList with
  | nil =>
    rw [letters] at marked
    cases marked
  | cons first more =>
    rw [letters, List.head?_cons, Option.any_some, Bool.and_eq_true, Bool.not_eq_true',
      bne_iff_ne] at marked
    exact breaks_cons marked.1 marked.2 _

theorem ReadsAs.append {first second : String} {front back : List Token}
    (one : ReadsAs first front) (two : ReadsAs second back) (apart : Apart second) :
    ReadsAs (first ++ second) (front ++ back) := by
  intro rest tail breaks lexes
  rw [String.toList_append, List.append_assoc, List.append_assoc]
  exact one _ _ (apart rest breaks) (two rest tail breaks lexes)

theorem StandsFor.append {first second : String} {front back : List Token}
    (one : StandsFor first front) (two : ReadsAs second back) :
    ReadsAs (first ++ second) (front ++ back) := by
  intro rest tail breaks lexes
  rw [String.toList_append, List.append_assoc, List.append_assoc]
  exact one _ _ (two rest tail breaks lexes)

theorem StandsFor.followed {first second : String} {front back : List Token}
    (one : StandsFor first front) (two : StandsFor second back) :
    StandsFor (first ++ second) (front ++ back) := by
  intro rest tail lexes
  rw [String.toList_append, List.append_assoc, List.append_assoc]
  exact one _ _ (two rest tail lexes)

theorem standsFor_blank : StandsFor " " [] := fun _ _ lexes => .blank rfl lexes

theorem ReadsAs.lex {text : String} {tokens : List Token} (reads : ReadsAs text tokens) :
    ∃ lexemes, lex text = .ok lexemes ∧ lexemes.map (·.token) = tokens := by
  rw [lex_iff_lexes]
  have lexes := reads [] [] breaks_nil .done
  rwa [List.append_nil, List.append_nil] at lexes

/-- The text is read as the token where it stands in front of the rest. -/
def AtFront (text : List Char) (token : Token) (rest : List Char) : Prop :=
  ∃ first more, text = first :: more ∧ Scans first (more ++ rest) token (first :: more)

theorem AtFront.lexes_iff {text rest : List Char} {token : Token} {tokens : List Token}
    (front : AtFront text token rest) :
    Lexes (text ++ rest) tokens ↔ ∃ later, tokens = token :: later ∧ Lexes rest later := by
  rcases front with ⟨first, more, rfl, scans⟩
  constructor
  · intro lexes
    rcases lexes.of_scans scans with ⟨later, same, behind⟩
    rw [List.drop_left] at behind
    exact ⟨later, same, behind⟩
  · rintro ⟨later, rfl, behind⟩
    apply scans.lexes
    rwa [← List.cons_append, List.drop_left]

theorem AtFront.lexes_cons_iff {text rest : List Char} {token first : Token} {later : List Token}
    (front : AtFront text token rest) :
    Lexes (text ++ rest) (first :: later) ↔ first = token ∧ Lexes rest later := by
  rw [front.lexes_iff]
  constructor
  · rintro ⟨_, same, behind⟩
    cases same
    exact ⟨rfl, behind⟩
  · rintro ⟨rfl, behind⟩
    exact ⟨later, rfl, behind⟩

/-! ## Words -/

theorem isDigit_eq_false_of_start {character : Char} (start : isWordStart character = true) :
    character.isDigit = false := by
  rw [isWordStart, Bool.or_eq_true, beq_iff_eq] at start
  rcases start with letter | rfl
  · unfold Char.isAlpha Char.isUpper Char.isLower at letter
    unfold Char.isDigit
    grind
  · rfl

theorem atFront_word {word : String} (isWord : IsWord word.toList) {rest : List Char}
    (stops : ∀ first, rest.head? = some first → isWordPart first = false) :
    AtFront word.toList (.ofWord word) rest := by
  rcases isWord with ⟨first, more, letters, start, parts⟩
  have all : (word.toList ++ rest).takeWhile isWordPart = word.toList :=
    takeWhile_append parts stops
  refine ⟨first, more, letters, ?_⟩
  rw [letters] at all
  have scans := Scans.word start all
  rwa [← letters, String.ofList_toList, letters] at scans

theorem readsAs_word {word : String} (isWord : IsWord word.toList) :
    ReadsAs word [Token.ofWord word] := by
  intro rest tail breaks lexes
  exact (atFront_word isWord breaks.1).lexes_iff.mpr ⟨tail, rfl, lexes⟩

theorem standsFor_word (word : String) (isWord : IsWord word.toList) :
    StandsFor (word ++ " ") [Token.ofWord word] := by
  intro rest tail lexes
  rw [String.toList_append, List.append_assoc]
  exact readsAs_word isWord _ _ (breaks_cons rfl (by decide) rest) (.blank rfl lexes)

theorem lexes_word_iff {word : String} (isWord : IsWord word.toList) {rest : List Char}
    {tokens : List Token} :
    Lexes ((word ++ " ").toList ++ rest) tokens ↔
      ∃ later, tokens = .ofWord word :: later ∧ Lexes rest later := by
  have stops : ∀ first, (' ' :: rest).head? = some first → isWordPart first = false := by
    rintro _ ⟨⟩
    rfl
  have blank {later : List Token} : Lexes (' ' :: rest) later ↔ Lexes rest later :=
    ⟨Lexes.of_blank rfl, .blank rfl⟩
  rw [String.toList_append, List.append_assoc]
  exact (atFront_word isWord stops).lexes_iff.trans (by simp only [blank])

/-! ## Punctuation -/

theorem standsFor_mark {text : String} {mark : Char} {token : Token}
    (found : (mark, token) ∈ punctuation) (here : text.toList = [mark]) :
    StandsFor text [token] := by
  intro rest tail lexes
  rw [here]
  exact (Scans.mark found).lexes lexes

theorem atFront_range (closed : Bool) (rest : List Char) :
    AtFront (rangeMark closed).toList (Grammar.rangeToken closed) rest := by
  cases closed with
  | true => exact ⟨'.', ['.', '.'], rfl, .closedRange⟩
  | false => exact ⟨'.', ['.', '<'], rfl, .halfOpenRange⟩

theorem standsFor_range (closed : Bool) :
    StandsFor (rangeMark closed) [Grammar.rangeToken closed] := by
  intro rest tail lexes
  exact (atFront_range closed rest).lexes_cons_iff.mpr ⟨rfl, lexes⟩

theorem apart_range (closed : Bool) (text : String) : Apart (rangeMark closed ++ text) := by
  intro rest _
  rw [String.toList_append]
  refine ⟨fun first head => ?_, fun digit more front => ?_⟩
  · cases closed <;> cases head <;> rfl
  · cases closed <;> cases front <;> rfl

def StartsWord (text : String) : Prop :=
  ∃ first more, text.toList = first :: more ∧ isWordStart first = true

theorem IsWord.startsWord {word : String} (isWord : IsWord word.toList) : StartsWord word := by
  rcases isWord with ⟨first, more, letters, start, -⟩
  exact ⟨first, more, letters, start⟩

theorem StartsWord.append {text : String} (starts : StartsWord text) (behind : String) :
    StartsWord (text ++ behind) := by
  rcases starts with ⟨first, more, letters, start⟩
  refine ⟨first, more ++ behind.toList, ?_, start⟩
  rw [String.toList_append, letters, List.cons_append]

theorem ReadsAs.dot {text : String} {tokens : List Token} (reads : ReadsAs text tokens)
    (starts : StartsWord text) : ReadsAs ("." ++ text) (.dot :: tokens) := by
  intro rest tail breaks lexes
  have behind := reads rest tail breaks lexes
  rcases starts with ⟨first, more, letters, start⟩
  rw [String.toList_append, letters]
  rw [letters] at behind
  have scans : Scans '.' (first :: more ++ rest) .dot ['.'] := by
    apply Scans.dot
    rintro ⟨⟩
    cases start
  exact scans.lexes behind

theorem apart_dot {text : String} (starts : StartsWord text) : Apart ("." ++ text) := by
  intro rest breaks
  rcases starts with ⟨first, more, letters, start⟩
  rw [String.toList_append, letters]
  refine ⟨?_, ?_⟩
  · rintro _ ⟨⟩
    rfl
  · rintro digit more ⟨⟩
    exact isDigit_eq_false_of_start start

/-! ## Literals -/

theorem breaks_digit {rest : List Char} (breaks : Breaks rest) (first : Char)
    (next : rest.head? = some first) : first.isDigit = false := by
  have outside := breaks.1 first next
  rw [isWordPart, Bool.or_eq_false_iff] at outside
  exact outside.2

theorem numbers_integer {digits rest : List Char}
    (each : ∀ digit ∈ digits, digit.isDigit = true) (breaks : Breaks rest)
    (small : naturalOfDigits digits ≤ maximalInteger) :
    Numbers (digits ++ rest) (.integer (Int64.ofNat (naturalOfDigits digits))) digits := by
  refine .integer (takeWhile_append each (breaks_digit breaks)) ?_ small
  have behind : (digits ++ rest).dropWhile Char.isDigit = rest := by
    rw [List.dropWhile_append_of_pos each]
    cases rest with
    | nil => rfl
    | cons first more => simp [breaks_digit breaks first rfl]
  rw [behind]
  exact breaks.2

theorem atFront_number {first : Char} {more rest : List Char} {token : Token}
    (digit : first.isDigit = true)
    (number : Numbers (first :: more ++ rest) token (first :: more)) :
    AtFront (first :: more) token rest := by
  have noWord : isWordStart first = false := by
    rw [Bool.eq_false_iff]
    intro start
    rw [isDigit_eq_false_of_start start] at digit
    cases digit
  exact ⟨first, more, rfl, .number noWord digit number⟩

theorem atFront_digits {value : Nat} (small : value ≤ maximalInteger) {rest : List Char}
    (breaks : Breaks rest) :
    AtFront value.repr.toList (.integer (Int64.ofNat value)) rest := by
  have each : ∀ digit ∈ Nat.toDigits 10 value, digit.isDigit = true :=
    fun _ => Nat.isDigit_of_mem_toDigits (by decide) (by decide)
  have bound : naturalOfDigits (Nat.toDigits 10 value) ≤ maximalInteger := by
    rwa [naturalOfDigits_toDigits]
  have number := numbers_integer each breaks bound
  rw [naturalOfDigits_toDigits] at number
  rw [Nat.toList_repr]
  cases digits : Nat.toDigits 10 value with
  | nil => exact absurd digits Nat.toDigits_ne_nil
  | cons first more =>
    rw [digits] at each number
    exact atFront_number (each first List.mem_cons_self) number

theorem atFront_integer {value : Int64} (sign : 0 ≤ value.toInt) {rest : List Char}
    (breaks : Breaks rest) : AtFront (integerText value.toInt).toList (.integer value) rest := by
  have below : value.toInt < 2 ^ 63 := value.toInt_lt
  have small : value.toInt.natAbs ≤ maximalInteger := by
    rw [maximalInteger]
    omega
  have same : Int64.ofNat value.toInt.natAbs = value := by
    apply Int64.toInt.inj
    rw [Int64.toInt_ofNat_of_lt (by omega)]
    omega
  have front := atFront_digits small breaks
  rw [same] at front
  rwa [integerText, if_neg (by omega)]

theorem readsAs_integer {value : Int64} (sign : 0 ≤ value.toInt) :
    ReadsAs (integerText value.toInt) [.integer value] := by
  intro rest tail breaks lexes
  exact (atFront_integer sign breaks).lexes_iff.mpr ⟨tail, rfl, lexes⟩

theorem standsFor_string {text : String} (plain : quoted text = "\"" ++ text ++ "\"")
    (closed : '"' ∉ text.toList) : StandsFor (quoted text) [.string text] := by
  intro rest tail lexes
  have all : (quoted text).toList ++ rest = '"' :: (text.toList ++ '"' :: rest) := by
    simp [plain]
  have scans := @Scans.string _ rest closed
  rw [String.ofList_toList] at scans
  rw [all]
  apply scans.lexes
  simpa using lexes

/-! ## Floats -/

theorem Numbers.float_append {text rest run : List Char} {value : Binary64}
    (numbers : Numbers text (.float value) run)
    (ends : ∀ first, rest.head? = some first → first.isDigit = false) :
    Numbers (text ++ rest) (.float value) run := by
  generalize float : Token.float value = token at numbers ⊢
  cases numbers with
  | integer => cases float
  | @float whole digit more fraction front point isDigit behind =>
    have whole : (text ++ rest).takeWhile Char.isDigit = whole := by
      rw [takeWhile_append_stop text ends, front]
    have point : (text ++ rest).dropWhile Char.isDigit = '.' :: digit :: (more ++ rest) := by
      rw [List.dropWhile_append, point]
      rfl
    refine .float whole point isDigit ?_
    rw [← List.cons_append, takeWhile_append_stop _ ends, behind]

theorem Lexes.append_of_nil {text rest : List Char} {tail : List Token} (lexes : Lexes text [])
    (behind : Lexes rest tail) : Lexes (text ++ rest) tail := by
  generalize none : ([] : List Token) = tokens at lexes
  induction lexes with
  | done => exact behind
  | blank blank _ induction => exact .blank blank (induction none)
  | token => cases none

theorem Lexes.float_append {text rest : List Char} {value : Binary64} {tail : List Token}
    (lexes : Lexes text [.float value]) (breaks : Breaks rest) (behind : Lexes rest tail) :
    Lexes (text ++ rest) (.float value :: tail) := by
  generalize float : [Token.float value] = tokens at lexes
  induction lexes with
  | done => cases float
  | blank blank _ induction => exact .blank blank (induction float)
  | @token first more token run tokens taken none _ =>
    cases float
    have scans := scans_of_scan taken
    rcases scans.run with ⟨_, same, front⟩
    cases same
    rcases scans.numbers rfl with ⟨noWord, digit, number⟩
    have longer := Scans.number noWord digit (number.float_append (breaks_digit breaks))
    have later : Lexes ((more ++ rest).drop run.length) tail := by
      rw [List.drop_append_of_le_length front.length_le]
      exact none.append_of_nil behind
    exact .token (scan_of_scans 0 longer) later

theorem readsAs_float {value : Binary64}
    (alone : ∃ span, lex value.text = .ok [⟨.float value, span⟩]) :
    ReadsAs value.text [.float value] := by
  intro rest tail breaks behind
  rcases alone with ⟨span, alone⟩
  have lexes := (lex_iff_lexes value.text [.float value]).mp ⟨_, alone, rfl⟩
  exact lexes.float_append breaks behind

end PatternClauses
