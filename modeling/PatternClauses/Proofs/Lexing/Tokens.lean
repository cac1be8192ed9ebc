import Mathlib.Data.List.TakeWhile
import PatternClauses.Token.Lexer

/-!
# The tokens of a text

`Scans` says which token stands at the front of a text, without offsets, and `Lexes` relates a text
to its tokens: a blank is dropped, and any other character begins a token.  Both agree with the
lexer up to the places of the tokens, which `Tiles` adds.
-/

namespace PatternClauses

/-! ## Runs of characters -/

theorem takeWhile_append_stop {accepts : Char → Bool} {rest : List Char} (front : List Char)
    (stops : ∀ first, rest.head? = some first → accepts first = false) :
    (front ++ rest).takeWhile accepts = front.takeWhile accepts := by
  induction front with
  | nil =>
    cases rest with
    | nil => rfl
    | cons first more => simp [stops first rfl]
  | cons first more induction =>
    rw [List.cons_append, List.takeWhile_cons, List.takeWhile_cons, induction]

theorem takeWhile_append {accepts : Char → Bool} {front rest : List Char}
    (each : ∀ part ∈ front, accepts part = true)
    (stops : ∀ first, rest.head? = some first → accepts first = false) :
    (front ++ rest).takeWhile accepts = front := by
  rw [takeWhile_append_stop front stops, List.takeWhile_eq_self_iff]
  exact each

theorem dropWhile_of_shorter {text : List Char}
    (shorter : (text.takeWhile (· != '"')).length < text.length) :
    ∃ rest, text.dropWhile (· != '"') = '"' :: rest := by
  have all : text.takeWhile (· != '"') ++ text.dropWhile (· != '"') = text :=
    List.takeWhile_append_dropWhile
  have head := List.head?_dropWhile_not (· != '"') text
  cases left : text.dropWhile (· != '"') with
  | nil =>
    rw [left, List.append_nil] at all
    rw [all] at shorter
    exact absurd shorter (Nat.lt_irrefl _)
  | cons quote rest =>
    rw [left] at head
    exact ⟨rest, by simpa using head⟩

/-! ## Numbers -/

/-- The number at the front of a text, and the characters that spell it. -/
inductive Numbers (text : List Char) : Token → List Char → Prop
  | integer : text.takeWhile Char.isDigit = digits →
      (∀ digit rest, text.dropWhile Char.isDigit = '.' :: digit :: rest → digit.isDigit = false) →
      naturalOfDigits digits ≤ maximalInteger →
      Numbers text (.integer (Int64.ofNat (naturalOfDigits digits))) digits
  | float : text.takeWhile Char.isDigit = whole →
      text.dropWhile Char.isDigit = '.' :: digit :: rest → digit.isDigit = true →
      (digit :: rest).takeWhile Char.isDigit = fraction →
      Numbers text
        (.float (.ofDecimal false (naturalOfDigits (whole ++ fraction)) (-fraction.length)))
        (whole ++ '.' :: fraction)

theorem integer_eq_ok_iff {offset : Nat} {digits run : List Char} {token : Token} :
    scanNumber.integer offset digits = .ok (token, run) ↔
      naturalOfDigits digits ≤ maximalInteger ∧
        token = .integer (Int64.ofNat (naturalOfDigits digits)) ∧ run = digits := by
  rw [scanNumber.integer]
  split
  · rename_i small
    simp [small, eq_comm]
  · rename_i large
    simp [large]

theorem scanNumber_eq_ok_iff {offset : Nat} {text run : List Char} {token : Token} :
    scanNumber offset text = .ok (token, run) ↔ Numbers text token run := by
  rw [scanNumber.eq_def]
  constructor
  · intro taken
    split at taken
    · rename_i digit rest point
      split at taken
      · rename_i isDigit
        cases taken
        exact .float rfl point isDigit rfl
      · rename_i noDigit
        rcases integer_eq_ok_iff.mp taken with ⟨small, rfl, rfl⟩
        refine .integer rfl ?_ small
        intro other more same
        cases point.symm.trans same
        exact Bool.eq_false_iff.mpr noDigit
    · rename_i noPoint
      rcases integer_eq_ok_iff.mp taken with ⟨small, rfl, rfl⟩
      refine .integer rfl ?_ small
      intro digit rest point
      exact absurd point (noPoint digit rest)
  · intro numbers
    cases numbers with
    | integer whole plain small =>
      rw [whole]
      have integer : scanNumber.integer offset run =
          .ok (.integer (Int64.ofNat (naturalOfDigits run)), run) :=
        integer_eq_ok_iff.mpr ⟨small, rfl, rfl⟩
      split
      · rename_i digit rest point
        rw [plain digit rest point]
        exact integer
      · exact integer
    | float whole point digit fraction =>
      rw [point, whole]
      simp only [digit, fraction, if_true]

theorem Numbers.run {text run : List Char} {token : Token} (numbers : Numbers text token run) :
    text.takeWhile Char.isDigit <+: run ∧ run <+: text := by
  cases numbers with
  | integer whole plain small =>
    rw [← whole]
    exact ⟨List.prefix_rfl, List.takeWhile_prefix _⟩
  | @float whole digit rest fraction front point isDigit behind =>
    have all := List.takeWhile_append_dropWhile (p := Char.isDigit) (l := text)
    rw [front, point] at all
    rw [front, ← all, ← behind, List.prefix_append_right_inj, List.cons_prefix_cons]
    exact ⟨List.prefix_append _ _, rfl, List.takeWhile_prefix _⟩

/-! ## One token -/

/-- The token at the front of a text that begins with a character, and the characters that spell
it. -/
inductive Scans : Char → List Char → Token → List Char → Prop
  | word : isWordStart first = true → (first :: rest).takeWhile isWordPart = word →
      Scans first rest (.ofWord (String.ofList word)) word
  | number : isWordStart first = false → first.isDigit = true →
      Numbers (first :: rest) token run → Scans first rest token run
  | string : '"' ∉ body →
      Scans '"' (body ++ '"' :: rest) (.string (String.ofList body)) ('"' :: body ++ ['"'])
  | closedRange : Scans '.' ('.' :: '.' :: rest) .closedRange ['.', '.', '.']
  | halfOpenRange : Scans '.' ('.' :: '<' :: rest) .halfOpenRange ['.', '.', '<']
  | dot : rest.head? ≠ some '.' → Scans '.' rest .dot ['.']
  | mark : (first, token) ∈ punctuation → Scans first rest token [first]

theorem mem_of_lookup [BEq α] [LawfulBEq α] {pairs : List (α × β)} {key : α} {value : β}
    (found : pairs.lookup key = some value) : (key, value) ∈ pairs := by
  rcases List.lookup_eq_some_iff.mp found with ⟨before, after, rfl, -⟩
  simp

theorem scans_of_string {offset : Nat} {text run : List Char} {token : Token}
    (taken : scanString offset text = .ok (token, run)) : Scans '"' text token run := by
  rw [scanString] at taken
  split at taken
  · rename_i shorter
    rcases dropWhile_of_shorter shorter with ⟨rest, left⟩
    have closed : '"' ∉ text.takeWhile (· != '"') := by
      intro member
      simpa using List.mem_takeWhile_imp member
    have all := List.takeWhile_append_dropWhile (p := (· != '"')) (l := text)
    rw [left] at all
    cases taken
    have string := @Scans.string _ rest closed
    rwa [all] at string
  · cases taken

theorem scans_of_dot {offset : Nat} {text run : List Char} {token : Token}
    (taken : scanDot offset text = .ok (token, run)) : Scans '.' text token run := by
  rw [scanDot.eq_def] at taken
  split at taken
  · cases taken
    exact .closedRange
  · cases taken
    exact .halfOpenRange
  · cases taken
  · rename_i noDot
    cases taken
    apply Scans.dot
    intro dot
    rcases List.head?_eq_some_iff.mp dot with ⟨rest, same⟩
    exact noDot rest same

theorem scans_of_scan {offset : Nat} {first : Char} {rest run : List Char} {token : Token}
    (taken : scan offset first rest = .ok (token, run)) : Scans first rest token run := by
  rw [scan] at taken
  split at taken
  · rename_i start
    cases taken
    exact .word start rfl
  · rename_i noWord
    split at taken
    · rename_i digit
      exact .number (Bool.eq_false_iff.mpr noWord) digit (scanNumber_eq_ok_iff.mp taken)
    · split at taken
      · rename_i quote
        exact quote ▸ scans_of_string taken
      · split at taken
        · rename_i dot
          exact dot ▸ scans_of_dot taken
        · split at taken
          · rename_i found
            cases taken
            exact .mark (mem_of_lookup found)
          · cases taken

theorem scan_of_scans (offset : Nat) {first : Char} {rest run : List Char} {token : Token}
    (scans : Scans first rest token run) :
    scan offset first rest = .ok (token, run) := by
  cases scans with
  | word start word =>
    rw [scan, if_pos start, word]
  | number noWord digit numbers =>
    rw [scan, noWord, if_neg (by decide), if_pos digit]
    exact scanNumber_eq_ok_iff.mpr numbers
  | @string body rest closed =>
    have taken : (body ++ '"' :: rest).takeWhile (· != '"') = body := by
      apply takeWhile_append
      · intro part member
        rw [bne_iff_ne]
        rintro rfl
        exact closed member
      · rintro _ ⟨⟩
        rfl
    have string : scanString offset (body ++ '"' :: rest) =
        .ok (.string (String.ofList body), '"' :: body ++ ['"']) := by
      simp [scanString, taken]
    exact string
  | closedRange => rfl
  | halfOpenRange => rfl
  | dot noDot =>
    have alone : scanDot offset rest = .ok (.dot, ['.']) := by
      rw [scanDot.eq_def]
      split
      · exact absurd rfl noDot
      · exact absurd rfl noDot
      · exact absurd rfl noDot
      · rfl
    exact alone
  | mark found =>
    simp only [punctuation, List.mem_cons, Prod.mk.injEq, List.not_mem_nil, or_false] at found
    rcases found with
      ⟨rfl, rfl⟩ | ⟨rfl, rfl⟩ | ⟨rfl, rfl⟩ | ⟨rfl, rfl⟩ | ⟨rfl, rfl⟩ | ⟨rfl, rfl⟩ <;> rfl

theorem Scans.run {first : Char} {rest run : List Char} {token : Token}
    (scans : Scans first rest token run) : ∃ more, run = first :: more ∧ more <+: rest := by
  cases scans with
  | word start word =>
    have part : isWordPart first = true := by
      rw [isWordPart, start]
      rfl
    rw [List.takeWhile_cons, if_pos part] at word
    exact ⟨_, word.symm, List.takeWhile_prefix _⟩
  | number noWord digit numbers =>
    rcases numbers.run with ⟨front, behind, all⟩
    rw [List.takeWhile_cons, if_pos digit] at front
    rcases front with ⟨more, rfl⟩
    rw [List.cons_append, List.cons_append, List.cons.injEq] at all
    exact ⟨_, rfl, behind, all.2⟩
  | @string body rest closed =>
    refine ⟨body ++ ['"'], rfl, rest, ?_⟩
    rw [List.append_assoc, List.singleton_append]
  | closedRange | halfOpenRange => exact ⟨_, rfl, by simp⟩
  | dot | mark => exact ⟨[], rfl, List.nil_prefix⟩

theorem scan_blank {first : Char} (blank : isBlank first = true) (offset : Nat)
    (rest : List Char) :
    scan offset first rest = .error (.unexpectedCharacter .token first offset) := by
  simp only [isBlank, Bool.or_eq_true, beq_iff_eq] at blank
  rcases blank with (((rfl | rfl) | rfl) | rfl) | rfl <;> rfl

theorem solid_of_scan {offset : Nat} {first : Char} {rest : List Char} {scanned : Scanned}
    (taken : scan offset first rest = .ok scanned) : isBlank first = false := by
  rw [Bool.eq_false_iff]
  intro blank
  rw [scan_blank blank] at taken
  cases taken

/-! ## All tokens -/

inductive Lexes : List Char → List Token → Prop
  | done : Lexes [] []
  | blank : isBlank first = true → Lexes rest tokens → Lexes (first :: rest) tokens
  | token : scan 0 first rest = .ok (token, first :: run) → Lexes (rest.drop run.length) tokens →
      Lexes (first :: rest) (token :: tokens)

theorem Scans.lexes {first : Char} {rest run : List Char} {token : Token} {tokens : List Token}
    (scans : Scans first rest token run)
    (behind : Lexes ((first :: rest).drop run.length) tokens) :
    Lexes (first :: rest) (token :: tokens) := by
  rcases scans.run with ⟨more, rfl, -⟩
  exact .token (scan_of_scans 0 scans) behind

theorem Lexes.of_blank {first : Char} {rest : List Char} {tokens : List Token}
    (blank : isBlank first = true) (lexes : Lexes (first :: rest) tokens) : Lexes rest tokens := by
  cases lexes with
  | blank _ behind => exact behind
  | token taken =>
    rw [scan_blank blank] at taken
    cases taken

theorem Lexes.of_scans {first : Char} {rest run : List Char} {token : Token} {tokens : List Token}
    (scans : Scans first rest token (first :: run)) (lexes : Lexes (first :: rest) tokens) :
    ∃ later, tokens = token :: later ∧ Lexes (rest.drop run.length) later := by
  have scanned := scan_of_scans 0 scans
  cases lexes with
  | blank blank =>
    rw [scan_blank blank] at scanned
    cases scanned
  | @token _ _ other more later taken behind =>
    rw [scanned] at taken
    cases taken
    exact ⟨later, rfl, behind⟩

theorem lexFrom_blank {first : Char} (blank : isBlank first = true) (offset : Nat)
    (rest : List Char) (budget : Nat) :
    lexFrom (budget + 1) ⟨offset, first :: rest⟩ =
      lexFrom (budget + 1) ⟨offset + first.utf8Size, rest⟩ := by
  have same : Cursor.skipBlanks ⟨offset, first :: rest⟩ =
      Cursor.skipBlanks ⟨offset + first.utf8Size, rest⟩ := by
    simp [Cursor.skipBlanks, Cursor.advance, blank, Nat.add_assoc]
  rw [lexFrom, lexFrom, same]

theorem lexFrom_token {first : Char} (solid : isBlank first = false) (offset : Nat)
    (rest : List Char) (budget : Nat) :
    lexFrom (budget + 1) ⟨offset, first :: rest⟩ = (do
      let (token, run) ← scan offset first rest
      let later ← lexFrom budget ⟨offset + utf8Length run, (first :: rest).drop run.length⟩
      return ⟨token, ⟨offset, offset + utf8Length run⟩⟩ :: later) := by
  have same : Cursor.skipBlanks ⟨offset, first :: rest⟩ = ⟨offset, first :: rest⟩ := by
    simp [Cursor.skipBlanks, Cursor.advance, solid]
  rw [lexFrom, same]
  rfl

theorem lexFrom_of_scan {first : Char} {offset budget : Nat} {rest run : List Char} {token : Token}
    {later : List Lexeme} (taken : scan offset first rest = .ok (token, run))
    (behind : lexFrom budget ⟨offset + utf8Length run, (first :: rest).drop run.length⟩ =
      .ok later) :
    lexFrom (budget + 1) ⟨offset, first :: rest⟩ =
      .ok (⟨token, ⟨offset, offset + utf8Length run⟩⟩ :: later) := by
  rw [lexFrom_token (solid_of_scan taken), taken]
  simp only [Bind.bind, Except.bind, behind]
  rfl

/-! ## Places -/

/-- The lexemes of a text that stands at an offset. -/
inductive Tiles : Nat → List Char → List Lexeme → Prop
  | done : Tiles offset [] []
  | blank : isBlank first = true → Tiles (offset + first.utf8Size) rest lexemes →
      Tiles offset (first :: rest) lexemes
  | token : Scans first rest token (first :: run) →
      Tiles (offset + utf8Length (first :: run)) (rest.drop run.length) lexemes →
      Tiles offset (first :: rest)
        (⟨token, ⟨offset, offset + utf8Length (first :: run)⟩⟩ :: lexemes)

theorem lexFrom_of_tiles {offset : Nat} {text : List Char} {lexemes : List Lexeme}
    (tiles : Tiles offset text lexemes) {budget : Nat} (enough : text.length ≤ budget) :
    lexFrom budget ⟨offset, text⟩ = .ok lexemes := by
  induction tiles generalizing budget with
  | done => cases budget <;> rfl
  | blank blank _ induction =>
    cases budget with
    | zero => cases enough
    | succ budget =>
      rw [lexFrom_blank blank]
      exact induction (Nat.le_of_succ_le enough)
  | @token first rest token run offset lexemes scans _ induction =>
    cases budget with
    | zero => cases enough
    | succ budget =>
      have room : (rest.drop run.length).length ≤ budget := by
        rw [List.length_cons] at enough
        rw [List.length_drop]
        omega
      exact lexFrom_of_scan (scan_of_scans offset scans) (induction room)

theorem tiles_of_lexFrom {budget offset : Nat} {text : List Char} {lexemes : List Lexeme}
    (read : lexFrom budget ⟨offset, text⟩ = .ok lexemes) (enough : text.length ≤ budget) :
    Tiles offset text lexemes := by
  induction budget generalizing offset text lexemes with
  | zero =>
    cases text with
    | nil =>
      cases read
      exact .done
    | cons => cases enough
  | succ budget budgetInduction =>
    induction text generalizing offset with
    | nil =>
      cases read
      exact .done
    | cons first rest induction =>
      by_cases blank : isBlank first = true
      · rw [lexFrom_blank blank] at read
        exact .blank blank (induction read (Nat.le_of_succ_le enough))
      · rw [lexFrom_token (Bool.eq_false_iff.mpr blank)] at read
        cases taken : scan offset first rest with
        | error error =>
          rw [taken] at read
          cases read
        | ok scanned =>
          rcases scanned with ⟨token, run⟩
          have scans := scans_of_scan taken
          rcases scans.run with ⟨more, rfl, -⟩
          simp only [taken, Bind.bind, Except.bind] at read
          split at read
          · cases read
          · rename_i later behind
            cases read
            apply Tiles.token scans
            apply budgetInduction behind
            rw [List.length_cons] at enough
            rw [List.length_drop, List.length_cons, List.length_cons]
            omega

theorem lex_eq_ok_iff_tiles {source : String} {lexemes : List Lexeme} :
    lex source = .ok lexemes ↔ Tiles 0 source.toList lexemes :=
  ⟨fun read => tiles_of_lexFrom read (Nat.le_of_eq String.length_toList),
    fun tiles => lexFrom_of_tiles tiles (Nat.le_of_eq String.length_toList)⟩

theorem Tiles.lexes {offset : Nat} {text : List Char} {lexemes : List Lexeme}
    (tiles : Tiles offset text lexemes) : Lexes text (lexemes.map (·.token)) := by
  induction tiles with
  | done => exact .done
  | blank blank _ induction => exact .blank blank induction
  | token scans _ induction => exact .token (scan_of_scans 0 scans) induction

theorem Lexes.exists_tiles {text : List Char} {tokens : List Token} (lexes : Lexes text tokens)
    (offset : Nat) : ∃ lexemes, Tiles offset text lexemes ∧ lexemes.map (·.token) = tokens := by
  induction lexes generalizing offset with
  | done => exact ⟨[], .done, rfl⟩
  | blank blank _ induction =>
    rcases induction (offset + _) with ⟨lexemes, tiles, same⟩
    exact ⟨lexemes, .blank blank tiles, same⟩
  | token taken _ induction =>
    rcases induction (offset + _) with ⟨lexemes, tiles, same⟩
    exact ⟨_, .token (scans_of_scan taken) tiles, congrArg _ same⟩

theorem lex_iff_lexes (source : String) (tokens : List Token) :
    (∃ lexemes, lex source = .ok lexemes ∧ lexemes.map (·.token) = tokens) ↔
      Lexes source.toList tokens := by
  constructor
  · rintro ⟨lexemes, read, rfl⟩
    exact (lex_eq_ok_iff_tiles.mp read).lexes
  · intro lexes
    rcases lexes.exists_tiles 0 with ⟨lexemes, tiles, same⟩
    exact ⟨lexemes, lex_eq_ok_iff_tiles.mpr tiles, same⟩

/-! ## What tokens carry -/

def IsWord (text : List Char) : Prop :=
  ∃ first rest, text = first :: rest ∧ isWordStart first = true ∧
    ∀ part ∈ text, isWordPart part = true

instance (text : List Char) : Decidable (IsWord text) :=
  match text with
  | [] => isFalse fun ⟨_, _, empty, _⟩ => nomatch empty
  | first :: rest =>
    decidable_of_iff (isWordStart first = true ∧ (first :: rest).all isWordPart = true)
      ⟨fun ⟨start, parts⟩ => ⟨first, rest, rfl, start, List.all_eq_true.mp parts⟩,
        fun ⟨_, _, same, start, parts⟩ => by
          cases same
          exact ⟨start, List.all_eq_true.mpr parts⟩⟩

/-- Names are words but no keywords, integers have no sign, floats are numbers and strings have no
quote. -/
def Token.Lexical : Token → Prop
  | .identifier name => IsWord name.toList ∧ ofWord name = .identifier name
  | .integer value => 0 ≤ value.toInt
  | .float value => value ≠ .nan
  | .string text => '"' ∉ text.toList
  | _ => True

theorem ofWord_cases (word : String) :
    Token.ofWord word = .identifier word ∨ (word, Token.ofWord word) ∈ Token.keywords := by
  cases found : Token.keywords.lookup word with
  | none => exact .inl (by rw [Token.ofWord, found]; rfl)
  | some token =>
    have same : Token.ofWord word = token := by rw [Token.ofWord, found]; rfl
    exact .inr (same ▸ mem_of_lookup found)

def Token.isWord : Token → Bool
  | identifier _ | boolean _ | nilKeyword | underscore | letKeyword | varKeyword | isKeyword
  | asKeyword => true
  | _ => false

def Token.isNumber : Token → Bool
  | integer _ | float _ => true
  | _ => false

theorem Token.isNumber_eq_false {token : Token} (word : token.isWord = true) :
    token.isNumber = false := by
  cases token with
  | integer | float => cases word
  | _ => rfl

theorem Token.isWord_ofWord (word : String) : (ofWord word).isWord = true := by
  have each : ∀ pair ∈ keywords, pair.2.isWord = true := by decide
  rcases ofWord_cases word with name | keyword
  · rw [name]
    rfl
  · exact each _ keyword

theorem Token.plain_of_punctuation {character : Char} {token : Token}
    (found : (character, token) ∈ punctuation) : token.isWord = false ∧ token.isNumber = false := by
  have each : ∀ pair ∈ punctuation, pair.2.isWord = false ∧ pair.2.isNumber = false := by decide
  exact each _ found

theorem Numbers.isNumber {text run : List Char} {token : Token} (numbers : Numbers text token run) :
    token.isNumber = true := by
  cases numbers <;> rfl

theorem Scans.numbers {first : Char} {rest run : List Char} {token : Token}
    (scans : Scans first rest token run) (number : token.isNumber = true) :
    isWordStart first = false ∧ first.isDigit = true ∧ Numbers (first :: rest) token run := by
  cases scans with
  | number noWord digit numbers => exact ⟨noWord, digit, numbers⟩
  | word =>
    rw [Token.isNumber_eq_false (Token.isWord_ofWord _)] at number
    cases number
  | string | closedRange | halfOpenRange | dot => cases number
  | mark found =>
    rw [(Token.plain_of_punctuation found).2] at number
    cases number

theorem lexical_ofWord {word : String} (isWord : IsWord word.toList) :
    (Token.ofWord word).Lexical := by
  have each : ∀ pair ∈ Token.keywords, pair.2.Lexical := by
    simp [Token.keywords, Token.Lexical]
  rcases ofWord_cases word with name | keyword
  · rw [name]
    exact ⟨isWord, name⟩
  · exact each _ keyword

theorem lexical_punctuation {character : Char} {token : Token}
    (found : (character, token) ∈ punctuation) : token.Lexical := by
  have each : ∀ pair ∈ punctuation, pair.2.Lexical := by
    simp [punctuation, Token.Lexical]
  exact each _ found

theorem Numbers.lexical {text run : List Char} {token : Token}
    (numbers : Numbers text token run) : token.Lexical := by
  cases numbers with
  | integer whole plain small =>
    rw [maximalInteger] at small
    rw [Token.Lexical, Int64.toInt_ofNat_of_lt (by omega)]
    omega
  | float => exact Binary64.ofDecimal_ne_nan _ _ _

theorem Scans.lexical {first : Char} {rest run : List Char} {token : Token}
    (scans : Scans first rest token run) : token.Lexical := by
  cases scans with
  | word start word =>
    apply lexical_ofWord
    rw [String.toList_ofList]
    rcases (Scans.word start word).run with ⟨more, rfl, -⟩
    refine ⟨first, more, rfl, start, ?_⟩
    rw [← word]
    exact fun part => List.mem_takeWhile_imp
  | number noWord digit numbers => exact numbers.lexical
  | string closed =>
    rw [Token.Lexical, String.toList_ofList]
    exact closed
  | closedRange | halfOpenRange | dot => trivial
  | mark found => exact lexical_punctuation found

theorem Lexes.lexical {text : List Char} {tokens : List Token} (lexes : Lexes text tokens) :
    ∀ token ∈ tokens, token.Lexical := by
  induction lexes with
  | done => simp
  | blank _ _ induction => exact induction
  | token taken _ induction =>
    have first := (scans_of_scan taken).lexical
    exact List.forall_mem_cons.mpr ⟨first, induction⟩

end PatternClauses
