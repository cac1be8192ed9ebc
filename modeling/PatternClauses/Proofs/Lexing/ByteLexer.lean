import PatternClauses.Proofs.Lexing.ByteReader

/-!
# Reading tokens from bytes

The lexer over bytes looks at one byte at a time, steps back to the last byte of a token that it
has read, and slices the source where a token or an error begins and ends.  On every source it
reads what `lex` reads.
-/

namespace PatternClauses

namespace ByteReader

def wordBytes : ByteClass := fun byte before =>
  isWordStart (characterOf byte) || !before.isEmpty && (characterOf byte).isDigit

def refuseAt {α : Type} (expected : ExpectedCharacter) (place : Nat) : ByteReader α := do
  let rest ← slice place (← size)
  refuse (.unexpectedCharacter expected (rest.toList.headD (Char.ofNat 0)) place)

def skipDigits : ByteReader Unit := skip (.ofCharacters Char.isDigit)

def skipFraction : ByteReader Unit := do
  if characterOf (← peek 0) == '.' then
    if (characterOf (← peek 1)).isDigit then
      forward 1
      skipDigits

/-- Read a number, whose value is that of the characters that spell it. -/
def lexNumber : ByteReader Token := do
  let start ← get
  skipDigits
  skipFraction
  let literal ← slice start (← get)
  back
  match scanNumber start literal.toList with
  | .ok (token, _) => return token
  | .error error =>
    let _ ← sum start literal.utf8ByteSize
    refuse error

/-- The place of the first quote from a place on, or the end. -/
def findQuote : (budget : Nat) → (place : Nat) → ByteReader Nat
  | 0, _ => stop .endless
  | budget + 1, place => do
    if ((← read).bytes[place]?).any (characterOf · != '"') then
      findQuote budget (← sum place 1)
    else return place

def lexString : ByteReader Token := do
  let start ← sum (← get) 1
  let finish ← findQuote ((← size) + 1) start
  if finish < (← size) then
    moveTo finish
    return .string (← slice start finish)
  else refuse (.unterminatedString ⟨← get, finish⟩)

def lexDot : ByteReader Token := do
  let second ← peek 1
  let third ← peek 2
  if characterOf second == '.' then
    if characterOf third == '.' then
      forward 2
      return .closedRange
    else if characterOf third == '<' then
      forward 2
      return .halfOpenRange
    else refuseAt .rangeEnd (← sum (← get) 2)
  else return .dot

/-- Read the token that begins with a character, and leave the cursor at its last byte. -/
def lexFirst (first : Char) : ByteReader Token := do
  if isWordStart first then return .ofWord (← readRun wordBytes)
  else if first.isDigit then lexNumber
  else if first = '"' then lexString
  else if first = '.' then lexDot
  else match punctuation.lookup first with
    | some token => return token
    | none => refuseAt .token (← get)

def lexLexeme : ByteReader Lexeme := do
  let start ← get
  let token ← lexFirst (characterOf (← peek 0))
  let finish ← sum (← get) 1
  forward 1
  return ⟨token, ⟨start, finish⟩⟩

def lexFrom : (budget : Nat) → ByteReader (List Lexeme)
  | 0 => stop .endless
  | budget + 1 => do
    skipBlanks
    if (← get) < (← size) then
      let lexeme ← lexLexeme
      let later ← lexFrom budget
      return lexeme :: later
    else return []

def lex : ByteReader (List Lexeme) := do lexFrom ((← size) + 1)

end ByteReader

/-! ## Words -/

theorem isAscii_wordBytes : ByteReader.wordBytes.IsAscii := by
  intro byte before accepted
  have part : isWordPart (characterOf byte) = true := by
    rw [ByteReader.wordBytes, Bool.or_eq_true, Bool.and_eq_true] at accepted
    rw [isWordPart, Bool.or_eq_true]
    exact accepted.imp id And.right
  rw [← toNat_characterOf]
  exact onlyAscii_isWordPart _ part

theorem onCharacters_wordBytes (character : Char) (before : List Char) :
    ByteReader.wordBytes.onCharacters character before =
      (isWordStart character || !before.isEmpty && character.isDigit) := by
  rw [ByteClass.onCharacters, ByteReader.wordBytes]
  by_cases small : character.toNat < 128
  · have empty : (utf8Bytes before).isEmpty = before.isEmpty := by
      cases before with
      | nil => rfl
      | cons first rest =>
        rw [utf8Bytes_cons, List.isEmpty_eq_false_iff.mpr, List.isEmpty_cons]
        exact List.append_ne_nil_of_left_ne_nil String.utf8EncodeChar_ne_nil _
    rw [decide_eq_true small, Bool.true_and, characterOf_ofNat small, empty]
  · have beyond := Nat.le_of_not_lt small
    rw [decide_eq_false small, onlyAscii_isWordStart.eq_false_of_le beyond,
      onlyAscii_isDigit.eq_false_of_le beyond, Bool.and_false]
    rfl

theorem acceptedRun_wordBytes {before : List Char} (some : before ≠ []) (text : List Char) :
    acceptedRun ByteReader.wordBytes.onCharacters before text = text.takeWhile isWordPart := by
  induction text generalizing before with
  | nil => rfl
  | cons first rest induction =>
    have part : ByteReader.wordBytes.onCharacters first before = isWordPart first := by
      rw [onCharacters_wordBytes, List.isEmpty_eq_false_iff.mpr some]
      rfl
    rw [acceptedRun, List.takeWhile_cons, part, induction (List.concat_ne_nil first before)]

theorem acceptedRun_word {first : Char} (start : isWordStart first = true) (rest : List Char) :
    acceptedRun ByteReader.wordBytes.onCharacters [] (first :: rest) =
      (first :: rest).takeWhile isWordPart := by
  have taken : ByteReader.wordBytes.onCharacters first [] = true := by
    rw [onCharacters_wordBytes, start, Bool.true_or]
  have part : isWordPart first = true := by rw [isWordPart, start, Bool.true_or]
  rw [acceptedRun, if_pos taken, List.takeWhile_cons, if_pos part, List.nil_append,
    acceptedRun_wordBytes (List.cons_ne_nil first [])]

/-! ## Numbers -/

def fractionOf : List Char → List Char
  | '.' :: rest =>
    if rest.head?.any Char.isDigit then '.' :: rest.takeWhile Char.isDigit else []
  | _ => []

theorem fractionOf_of_ne {text : List Char} (noPoint : text.head? ≠ some '.') :
    fractionOf text = [] := by
  rw [fractionOf.eq_def]
  split
  · exact absurd rfl noPoint
  · rfl

theorem fractionOf_isPrefix (text : List Char) : fractionOf text <+: text := by
  rw [fractionOf.eq_def]
  split
  · split
    · exact (List.prefix_cons_inj _).mpr (List.takeWhile_prefix _)
    · exact List.nil_prefix
  · exact List.nil_prefix

def numeralOf (text : List Char) : List Char :=
  text.takeWhile Char.isDigit ++ fractionOf (text.dropWhile Char.isDigit)

theorem numeralOf_isPrefix (text : List Char) : numeralOf text <+: text := by
  have parts := List.takeWhile_append_dropWhile (p := Char.isDigit) (l := text)
  have front := (List.prefix_append_right_inj (text.takeWhile Char.isDigit)).mpr
    (fractionOf_isPrefix (text.dropWhile Char.isDigit))
  rwa [parts] at front

theorem lt_of_mem_numeralOf {text : List Char} {character : Char}
    (member : character ∈ numeralOf text) : character.toNat < 128 := by
  have digits {run : List Char} (digit : character ∈ run.takeWhile Char.isDigit) :
      character.toNat < 128 :=
    (onlyAscii_isDigit _ (List.mem_takeWhile_imp digit)).2
  rcases List.mem_append.mp member with whole | fraction
  · exact digits whole
  · rw [fractionOf.eq_def] at fraction
    split at fraction
    · split at fraction
      · rcases List.mem_cons.mp fraction with rfl | digit
        · decide
        · exact digits digit
      · cases fraction
    · cases fraction

theorem fractionOf_eq_nil_iff {text : List Char} : fractionOf text = [] ↔
    ∀ digit rest, text = '.' :: digit :: rest → digit.isDigit = false := by
  rw [fractionOf.eq_def]
  split
  · rename_i rest
    cases rest with
    | nil => simp
    | cons digit rest => cases isDigit : digit.isDigit <;> simp [isDigit]
  · rename_i noPoint
    exact iff_of_true rfl fun digit rest same => (noPoint _ same).elim

theorem Numbers.eq_numeralOf {text run : List Char} {token : Token}
    (numbers : Numbers text token run) : run = numeralOf text := by
  cases numbers with
  | integer whole plain small =>
    rw [numeralOf, fractionOf_eq_nil_iff.mpr plain, whole, List.append_nil]
  | float whole point isDigit fraction =>
    rw [numeralOf, point, fractionOf, List.head?_cons, Option.any_some, if_pos isDigit, whole,
      fraction]

theorem scanNumber_of_plain {text : List Char}
    (plain : fractionOf (text.dropWhile Char.isDigit) = []) (offset : Nat) :
    scanNumber offset text = scanNumber.integer offset (text.takeWhile Char.isDigit) := by
  rw [scanNumber.eq_def]
  split
  · rename_i digit rest point
    have noDigit := fractionOf_eq_nil_iff.mp plain digit rest point
    rw [noDigit]
    rfl
  · rfl

theorem scanNumber_numeralOf (offset : Nat) (text : List Char) :
    scanNumber offset (numeralOf text) = scanNumber offset text := by
  cases taken : scanNumber offset text with
  | ok scanned =>
    rcases scanned with ⟨token, run⟩
    have numbers := scanNumber_eq_ok_iff.mp taken
    rw [← numbers.eq_numeralOf]
    exact scanNumber_eq_ok_iff.mpr numbers.alone
  | error error =>
    have plain : fractionOf (text.dropWhile Char.isDigit) = [] := by
      rw [fractionOf_eq_nil_iff]
      intro digit rest point
      rw [Bool.eq_false_iff]
      intro isDigit
      rw [scanNumber_eq_ok_iff.mpr (.float rfl point isDigit rfl)] at taken
      cases taken
    have nothing : (text.takeWhile Char.isDigit).dropWhile Char.isDigit = [] :=
      List.dropWhile_eq_nil_iff.mpr fun _ => List.mem_takeWhile_imp
    rw [numeralOf, plain, List.append_nil, scanNumber_of_plain (by rw [nothing]; rfl),
      takeWhile_takeWhile_self, ← scanNumber_of_plain plain, taken]

section

variable {machine : Machine} {reach offset : Nat} {first : Char} {rest : List Char}
  {cursor : Cursor}

theorem yields_skipDigits (stands : cursor.At machine.source.toList)
    (inside : machine.source.utf8ByteSize ≤ reach) :
    Yields machine reach ByteReader.skipDigits cursor.offset
      (.ok ((), (cursor.advance (cursor.rest.takeWhile Char.isDigit)).offset)) :=
  yields_skip_of_constant onlyAscii_isDigit stands inside

theorem yields_skipFraction (stands : cursor.At machine.source.toList)
    (inside : machine.source.utf8ByteSize < reach) :
    Yields machine reach ByteReader.skipFraction cursor.offset
      (.ok ((), (cursor.advance (fractionOf cursor.rest)).offset)) := by
  rcases cursor with ⟨offset, text⟩
  refine (yields_peek stands (Nat.le_of_lt (stands.offset_le.trans_lt inside))).bind ?_
  rw [Cursor.byteAt_beq (by decide)]
  by_cases dot : text.head? = some '.'
  · rcases List.head?_eq_some_iff.mp dot with ⟨rest, rfl⟩
    refine (yields_peek stands (Nat.succ_le_of_lt (stands.offset_le.trans_lt inside))).bind ?_
    rw [Cursor.byteAt_succ (by decide) 0, onlyAscii_isDigit.byteAt, fractionOf]
    split
    · have here : ['.'] <+: '.' :: rest := List.prefix_append _ _
      have moved := yields_forward stands here (Nat.le_of_lt inside)
      have skipped := yields_skipDigits (stands.advance here) (Nat.le_of_lt inside)
      rw [← Cursor.offset_advance_append] at skipped
      exact moved.bind skipped
    · exact yields_pure _
  · rw [fractionOf_of_ne dot, beq_eq_false_iff_ne.mpr dot]
    exact yields_pure _

/-- The outcome of a token that begins at an offset: its value, and the place of its last byte. -/
def readAt (offset : Nat) (outcome : Except LexError Scanned) : Except LexError (Token × Nat) :=
  outcome.map fun scanned => (scanned.1, offset + utf8Length scanned.2 - 1)

theorem yields_token {place : Nat} {run : List Char} (token : Token)
    (last : place + 1 = offset + utf8Length run) :
    Yields machine reach (pure token) place (readAt offset (.ok (token, run))) := by
  have same : offset + utf8Length run - 1 = place := by rw [← last, Nat.add_sub_cancel]
  change Yields _ _ _ _ (.ok (token, offset + utf8Length run - 1))
  rw [same]
  exact yields_pure token

theorem yields_token_of_lt {run : List Char} (some : run ≠ [])
    (ascii : ∀ character ∈ run, character.toNat < 128) (token : Token) :
    Yields machine reach (pure token) (cursor.advance run.dropLast).offset
      (readAt cursor.offset (.ok (token, run))) := by
  refine yields_token token ?_
  rw [utf8Length_eq_dropLast_add_one some ascii, ← Nat.add_assoc]
  rfl

theorem yields_lexNumber {text : List Char}
    (stands : Cursor.At machine.source.toList ⟨offset, text⟩) (some : numeralOf text ≠ [])
    (inside : machine.source.utf8ByteSize < reach) :
    Yields machine reach ByteReader.lexNumber offset (readAt offset (scanNumber offset text)) := by
  have front : text.takeWhile Char.isDigit <+: text := List.takeWhile_prefix _
  have small : ∀ character ∈ numeralOf text, character.toNat < 128 := fun _ => lt_of_mem_numeralOf
  have whole := numeralOf_isPrefix text
  have skipped := yields_skipFraction (stands.advance front) inside
  rw [Cursor.rest_advance_takeWhile ⟨offset, text⟩, ← Cursor.offset_advance_append] at skipped
  refine yields_get.bind ((yields_skipDigits stands (Nat.le_of_lt inside)).bind
    (skipped.bind (yields_get.bind ((yields_slice stands whole).bind
      ((yields_back stands whole some small).bind ?_)))))
  rw [String.toList_ofList, scanNumber_numeralOf]
  cases taken : scanNumber offset text with
  | ok scanned =>
    rcases scanned with ⟨token, run⟩
    rw [(scanNumber_eq_ok_iff.mp taken).eq_numeralOf]
    exact yields_token_of_lt some small token
  | error error =>
    have bound := (stands.advance whole).offset_le
    rw [utf8ByteSize_ofList]
    exact (yields_sum (Nat.le_trans bound (Nat.le_of_lt inside))).bind (yields_refuse error)

/-! ## Strings -/

theorem characterOf_ne_quote {character : Char} (noQuote : character ≠ '"') {byte : UInt8}
    (member : byte ∈ String.utf8EncodeChar character) : characterOf byte ≠ '"' := by
  by_cases small : character.toNat < 128
  · rw [utf8EncodeChar_of_lt small, List.mem_singleton] at member
    rwa [member, characterOf_ofNat small]
  · intro quote
    have beyond := le_of_mem_utf8EncodeChar (Nat.le_of_not_lt small) member
    rw [← toNat_characterOf, quote] at beyond
    exact absurd beyond (by decide)

theorem takeWhile_utf8Bytes (text : List Char) :
    (utf8Bytes text).takeWhile (characterOf · != '"') = utf8Bytes (text.takeWhile (· != '"')) := by
  induction text with
  | nil => rfl
  | cons first rest induction =>
    by_cases quote : first = '"'
    · subst quote
      rfl
    · have each : ∀ byte ∈ String.utf8EncodeChar first, (characterOf byte != '"') = true :=
        fun byte member => bne_iff_ne.mpr (characterOf_ne_quote quote member)
      rw [utf8Bytes_cons, List.takeWhile_append_of_pos each, induction, List.takeWhile_cons,
        if_pos (bne_iff_ne.mpr quote), utf8Bytes_cons]

theorem yields_findQuote {budget place : Nat} {behind : List UInt8}
    (split : machine.bytes.drop place = behind) (enough : behind.length < budget)
    (inside : machine.source.utf8ByteSize < reach) (start : Nat) :
    Yields machine reach (ByteReader.findQuote budget place) start
      (.ok (place + (behind.takeWhile (characterOf · != '"')).length, start)) := by
  have here : machine.bytes[place]? = behind.head? := by rw [← split, List.head?_drop]
  -- the search goes byte by byte, also through characters of several bytes
  induction budget generalizing place behind with
  | zero => cases enough
  | succ budget induction =>
    refine yields_read.bind ?_
    rw [here]
    cases behind with
    | nil => exact yields_pure place
    | cons byte behind =>
      have within : place < machine.source.utf8ByteSize := by
        rw [← machine.length_bytes]
        exact (List.getElem?_eq_some_iff.mp here).1
      have further : machine.bytes.drop (place + 1) = behind := by
        rw [← List.drop_drop, split, List.drop_one, List.tail_cons]
      rw [List.head?_cons, Option.any_some, List.takeWhile_cons]
      split
      · have later := induction further (Nat.lt_of_succ_lt_succ enough)
          (by rw [← further, List.head?_drop])
        rw [List.length_cons, Nat.add_comm _ 1, ← Nat.add_assoc]
        exact (yields_sum (Nat.le_of_lt (Nat.lt_of_le_of_lt within inside))).bind later
      · exact yields_pure place

theorem yields_lexString (stands : Cursor.At machine.source.toList ⟨offset, '"' :: rest⟩)
    (inside : machine.source.utf8ByteSize < reach) :
    Yields machine reach ByteReader.lexString offset (readAt offset (scanString offset rest)) := by
  have behind : Cursor.At machine.source.toList ⟨offset + 1, rest⟩ :=
    stands.advance (List.prefix_append ['"'] rest)
  have finish : offset + 1 + utf8Length rest = machine.source.utf8ByteSize := behind.offset_add
  have enough : (utf8Bytes rest).length < machine.source.utf8ByteSize + 1 := by
    rw [length_utf8Bytes]
    omega
  have found : Yields machine reach
      (ByteReader.findQuote (machine.source.utf8ByteSize + 1) (offset + 1)) offset
      (.ok (offset + 1 + utf8Length (rest.takeWhile (· != '"')), offset)) := by
    have found := yields_findQuote behind.drop_bytes enough inside offset
    rwa [takeWhile_utf8Bytes, length_utf8Bytes] at found
  refine yields_get.bind ((yields_sum (by omega)).bind (yields_size.bind
    (found.bind (yields_size.bind ?_))))
  have body := List.takeWhile_prefix (p := (· != '"')) (l := rest)
  by_cases shorter : (rest.takeWhile (· != '"')).length < rest.length
  · rcases dropWhile_of_shorter shorter with ⟨more, left⟩
    have parts := congrArg utf8Length
      (List.takeWhile_append_dropWhile (p := (· != '"')) (l := rest))
    rw [left, utf8Length_append, utf8Length_cons, utf8Size_of_lt (by decide)] at parts
    have closed : offset + 1 + utf8Length (rest.takeWhile (· != '"')) <
        machine.source.utf8ByteSize := by omega
    rw [if_pos closed, scanString, if_pos shorter]
    refine (yields_moveTo (behind.advance body).isValid).bind
      ((yields_slice behind body).bind ?_)
    apply yields_token
    rw [utf8Length_append, utf8Length_cons, utf8Size_of_lt (by decide)]
    change offset + 1 + _ + 1 = offset + (1 + _ + 1)
    omega
  · have all : rest.takeWhile (· != '"') = rest := body.eq_of_length_le (Nat.le_of_not_lt shorter)
    rw [all, if_neg (by omega), scanString, if_neg shorter]
    exact yields_get.bind (yields_refuse _)

/-! ## Tokens -/

theorem yields_refuseAt {α : Type} {start : Nat} (stands : cursor.At machine.source.toList)
    (expected : ExpectedCharacter) :
    Yields machine reach (ByteReader.refuseAt expected cursor.offset : ByteReader α) start (.error
      (.unexpectedCharacter expected (cursor.rest.headD (Char.ofNat 0)) cursor.offset)) := by
  have finish : (cursor.advance cursor.rest).offset = machine.source.utf8ByteSize :=
    stands.offset_add
  refine yields_size.bind ?_
  rw [← finish]
  refine (yields_slice stands List.prefix_rfl).bind ?_
  rw [String.toList_ofList]
  exact yields_refuse _

theorem scanDot_of_ne (noDot : rest.head? ≠ some '.') :
    scanDot offset rest = .ok (.dot, ['.']) := by
  rw [scanDot.eq_def]
  split
  · exact absurd rfl noDot
  · exact absurd rfl noDot
  · exact absurd rfl noDot
  · rfl

theorem scanDot_of_stray (noDot : rest.head? ≠ some '.') (noLess : rest.head? ≠ some '<') :
    scanDot offset ('.' :: rest) =
      .error (.unexpectedCharacter .rangeEnd (rest.headD (Char.ofNat 0)) (offset + 2)) := by
  rw [scanDot.eq_def]
  split
  · rename_i same
    cases same
    exact absurd rfl noDot
  · rename_i same
    cases same
    exact absurd rfl noLess
  · rename_i same
    cases same
    rfl
  · rename_i point
    exact absurd rfl (point rest)

theorem yields_lexDot (stands : Cursor.At machine.source.toList ⟨offset, '.' :: rest⟩)
    (inside : machine.source.utf8ByteSize < reach) :
    Yields machine reach ByteReader.lexDot offset (readAt offset (scanDot offset rest)) := by
  have behind : Cursor.At machine.source.toList ⟨offset + 1, rest⟩ :=
    stands.advance (List.prefix_append ['.'] rest)
  have finish : offset + 1 + utf8Length rest = machine.source.utf8ByteSize := behind.offset_add
  have near : offset + 2 ≤ reach := by omega
  refine (yields_peek stands (Nat.le_of_succ_le near)).bind ((yields_peek stands near).bind ?_)
  rw [Cursor.byteAt_succ (by decide) 0, Cursor.byteAt_succ (by decide) 1,
    Cursor.byteAt_beq (by decide)]
  by_cases dot : rest.head? = some '.'
  · rcases List.head?_eq_some_iff.mp dot with ⟨more, rfl⟩
    rw [Cursor.byteAt_succ (by decide) 0, Cursor.byteAt_beq (by decide),
      Cursor.byteAt_beq (by decide)]
    have moved := yields_forward stands (List.prefix_append ['.', '.'] more)
      (Nat.le_of_lt inside)
    by_cases closed : more.head? = some '.'
    · rcases List.head?_eq_some_iff.mp closed with ⟨after, rfl⟩
      exact moved.bind (yields_token _ rfl)
    · by_cases halfOpen : more.head? = some '<'
      · rcases List.head?_eq_some_iff.mp halfOpen with ⟨after, rfl⟩
        exact moved.bind (yields_token _ rfl)
      · rw [scanDot_of_stray closed halfOpen, beq_eq_false_iff_ne.mpr closed,
          beq_eq_false_iff_ne.mpr halfOpen]
        have stray := stands.advance (List.prefix_append ['.', '.'] more)
        exact yields_get.bind ((yields_sum near).bind (yields_refuseAt stray .rangeEnd))
  · rw [scanDot_of_ne dot, beq_eq_false_iff_ne.mpr dot]
    exact yields_token _ rfl

theorem yields_word (stands : Cursor.At machine.source.toList ⟨offset, first :: rest⟩)
    (start : isWordStart first = true) (inside : machine.source.utf8ByteSize ≤ reach) :
    Yields machine reach (do return Token.ofWord (← ByteReader.readRun ByteReader.wordBytes)) offset
      (readAt offset (.ok (.ofWord (String.ofList ((first :: rest).takeWhile isWordPart)),
        (first :: rest).takeWhile isWordPart))) := by
  have some : (first :: rest).takeWhile isWordPart ≠ [] := by
    have part : isWordPart first = true := by rw [isWordPart, start, Bool.true_or]
    rw [List.takeWhile_cons, if_pos part]
    exact List.cons_ne_nil _ _
  have small : ∀ character ∈ (first :: rest).takeWhile isWordPart, character.toNat < 128 :=
    fun character member => (onlyAscii_isWordPart character (List.mem_takeWhile_imp member)).2
  refine (yields_readRun isAscii_wordBytes stands inside).bind ?_
  rw [Cursor.read, acceptedRun_word start]
  exact yields_token_of_lt some small _

theorem lexFirst_of_le (beyond : 128 ≤ first.toNat) :
    ByteReader.lexFirst first = get >>= ByteReader.refuseAt .token := by
  have noQuote : first ≠ '"' := by
    rintro rfl
    exact absurd beyond (by decide)
  have noDot : first ≠ '.' := by
    rintro rfl
    exact absurd beyond (by decide)
  have noMark : punctuation.lookup first = none :=
    Option.not_isSome_iff_eq_none.mp (Bool.eq_false_iff.mp
      (onlyAscii_punctuation.eq_false_of_le beyond))
  rw [ByteReader.lexFirst, onlyAscii_isWordStart.eq_false_of_le beyond,
    onlyAscii_isDigit.eq_false_of_le beyond, if_neg noQuote, if_neg noDot, noMark]
  rfl

/-- What the lexer does is told from the first byte of a character as from the character. -/
theorem lexFirst_byteAt (offset : Nat) (first : Char) (rest : List Char) :
    ByteReader.lexFirst (characterOf (Cursor.byteAt ⟨offset, first :: rest⟩ 0)) =
      ByteReader.lexFirst first := by
  by_cases small : first.toNat < 128
  · rw [Cursor.byteAt_of_lt small, characterOf_ofNat small]
  · have beyond := Nat.le_of_not_lt small
    have byte : 128 ≤ (characterOf (Cursor.byteAt ⟨offset, first :: rest⟩ 0)).toNat := by
      rw [toNat_characterOf]
      exact Cursor.le_byteAt beyond offset rest
    rw [lexFirst_of_le byte, lexFirst_of_le beyond]

theorem yields_lexFirst (stands : Cursor.At machine.source.toList ⟨offset, first :: rest⟩)
    (inside : machine.source.utf8ByteSize < reach) :
    Yields machine reach (ByteReader.lexFirst first) offset
      (readAt offset (scan offset first rest)) := by
  rw [ByteReader.lexFirst, scan]
  split
  · rename_i start
    exact yields_word stands start (Nat.le_of_lt inside)
  · split
    · rename_i digit
      have some : numeralOf (first :: rest) ≠ [] := by
        rw [numeralOf, List.takeWhile_cons, if_pos digit]
        exact List.cons_ne_nil _ _
      exact yields_lexNumber stands some inside
    · split
      · rename_i quote
        subst quote
        exact yields_lexString stands inside
      · split
        · rename_i dot
          subst dot
          exact yields_lexDot stands inside
        · cases found : punctuation.lookup first with
          | some token =>
            have mark := Option.isSome_iff_exists.mpr ⟨token, found⟩
            have small := (onlyAscii_punctuation first mark).2
            refine yields_token token ?_
            rw [utf8Length_cons, utf8Size_of_lt small]
            rfl
          | none => exact yields_get.bind (yields_refuseAt stands .token)

/-! ## All tokens -/

theorem yields_lexLexeme (stands : Cursor.At machine.source.toList ⟨offset, first :: rest⟩)
    (inside : machine.source.utf8ByteSize < reach) :
    Yields machine reach ByteReader.lexLexeme offset
      ((scan offset first rest).map fun scanned =>
        (⟨scanned.1, ⟨offset, offset + utf8Length scanned.2⟩⟩, offset + utf8Length scanned.2)) := by
  have token := yields_lexFirst stands inside
  have here := stands.offset_le.trans (Nat.le_of_lt inside)
  refine yields_get.bind ((yields_peek stands here).bind ?_)
  rw [lexFirst_byteAt]
  cases taken : scan offset first rest with
  | error error =>
    rw [taken] at token
    exact token.bind_refused
  | ok scanned =>
    rcases scanned with ⟨value, run⟩
    rcases (scans_of_scan taken).run with ⟨after, rfl, front⟩
    have next := stands.advance ((List.prefix_cons_inj first).mpr front)
    have last : offset + utf8Length (first :: after) - 1 + 1 =
        offset + utf8Length (first :: after) := by
      have positive := first.utf8Size_pos
      rw [utf8Length_cons]
      omega
    have bound : offset + utf8Length (first :: after) - 1 + 1 ≤ reach :=
      (Nat.le_of_eq last).trans (next.offset_le.trans (Nat.le_of_lt inside))
    have moved := yields_forward_to (by rw [last]; exact next.isValid) bound
    rw [taken] at token
    refine Yields.bind token (yields_get.bind ((yields_sum bound).bind (moved.bind ?_)))
    rw [last]
    exact yields_pure _

theorem lexFrom_of_nothing (done : cursor.skipBlanks.rest = []) (budget : Nat) :
    lexFrom budget cursor = .ok [] := by
  cases budget with
  | zero => rfl
  | succ budget => rw [lexFrom, done]

theorem lexFrom_of_taken {token : Token} {run : List Char}
    (spaced : cursor.skipBlanks = ⟨offset, first :: rest⟩)
    (taken : scan offset first rest = .ok (token, run)) (budget : Nat) :
    lexFrom (budget + 1) cursor =
      (lexFrom budget (Cursor.advance ⟨offset, first :: rest⟩ run)).map
        (⟨token, ⟨offset, offset + utf8Length run⟩⟩ :: ·) := by
  rw [lexFrom, spaced]
  simp only [taken]
  cases later : lexFrom budget (Cursor.advance ⟨offset, first :: rest⟩ run) <;>
    simp only [later, Bind.bind, Except.bind] <;> rfl

theorem lexFrom_of_refused {error : LexError}
    (spaced : cursor.skipBlanks = ⟨offset, first :: rest⟩)
    (refused : scan offset first rest = .error error) (budget : Nat) :
    lexFrom (budget + 1) cursor = .error error := by
  rw [lexFrom, spaced]
  simp only [refused]
  rfl

theorem yields_lexFrom {budget enough : Nat} (stands : cursor.At machine.source.toList)
    (room : cursor.rest.length ≤ budget) (more : cursor.rest.length < enough)
    (inside : machine.source.utf8ByteSize < reach) :
    Yields machine reach (ByteReader.lexFrom enough) cursor.offset
      ((lexFrom budget cursor).map fun lexemes => (lexemes, machine.source.utf8ByteSize)) := by
  -- Both budgets are counted down, and a token shortens the text by a character or more.
  induction enough generalizing cursor budget with
  | zero => cases more
  | succ enough induction =>
    have left : cursor.skipBlanks.rest.length ≤ cursor.rest.length := by
      rw [Cursor.skipBlanks, Cursor.advance, List.length_drop]
      exact Nat.sub_le _ _
    have here := stands.skipBlanks
    refine (yields_skipBlanks stands (Nat.le_of_lt inside)).bind (yields_get.bind
      (yields_size.bind ?_))
    cases spaced : cursor.skipBlanks with
    | mk offset text =>
    rw [spaced] at here left
    have finish : offset + utf8Length text = machine.source.utf8ByteSize := here.offset_add
    cases text with
    | nil =>
      have done : offset = machine.source.utf8ByteSize := finish
      rw [lexFrom_of_nothing (congrArg Cursor.rest spaced), done, if_neg (Nat.lt_irrefl _)]
      exact yields_pure []
    | cons first rest =>
      rw [List.length_cons] at left
      have positive := first.utf8Size_pos
      rw [utf8Length_cons] at finish
      have within : offset < machine.source.utf8ByteSize := by omega
      rw [if_pos within]
      cases budget with
      | zero => omega
      | succ budget =>
        have lexeme := yields_lexLexeme here inside
        cases taken : scan offset first rest with
        | error error =>
          rw [taken] at lexeme
          rw [lexFrom_of_refused spaced taken]
          exact lexeme.bind_refused
        | ok scanned =>
          rcases scanned with ⟨token, run⟩
          rcases (scans_of_scan taken).run with ⟨after, rfl, front⟩
          have next := here.advance ((List.prefix_cons_inj first).mpr front)
          have shorter : (Cursor.advance ⟨offset, first :: rest⟩ (first :: after)).rest.length <
              cursor.rest.length := by
            simp only [Cursor.advance, List.length_drop, List.length_cons]
            omega
          have behind := @induction _ budget next (by omega) (by omega)
          rw [taken] at lexeme
          rw [lexFrom_of_taken spaced taken]
          refine Yields.bind lexeme ?_
          cases later :
            lexFrom budget (Cursor.advance ⟨offset, first :: rest⟩ (first :: after)) with
          | error error =>
            rw [later] at behind
            exact behind.bind_refused
          | ok lexemes =>
            rw [later] at behind
            exact behind.bind (yields_pure _)

end

/-! ## No check fails -/

/-- Operations with classes of ASCII give the answers that they give on a cursor between
characters, and leave the reader at its place.  From there on the lexer over bytes reads what the
lexer reads, up to the end of the source: with no operation before it, that is `lex source`.  No
check fails, unless a machine word is too small for the length of the source or for a place to peek
at. -/
theorem ByteReader.runs_without_misstep (source : String) (limit : Nat)
    (operations : List CursorOperation) (ascii : ∀ operation ∈ operations, operation.IsAscii) :
    let cursor := (CursorOperation.runAll (.start source) operations).2
    Yields ⟨source, limit⟩ (CursorOperation.farthest (.start source) operations)
      (CursorOperation.performAll operations) 0
      (.ok ((CursorOperation.runAll (.start source) operations).1, cursor.offset)) ∧
    cursor.offset ≤ source.utf8ByteSize ∧ String.Pos.Raw.IsValid source ⟨cursor.offset⟩ ∧
    Yields ⟨source, limit⟩ (source.utf8ByteSize + 1) ByteReader.lex cursor.offset
      ((PatternClauses.lexFrom source.length cursor).map fun lexemes =>
        (lexemes, source.utf8ByteSize)) := by
  intro cursor
  have start : Cursor.At (Machine.source ⟨source, limit⟩).toList (.start source) :=
    Cursor.at_start source
  have stands : cursor.At (Machine.source ⟨source, limit⟩).toList :=
    CursorOperation.at_all start
  have fewer : cursor.rest.length ≤ source.length := by
    rcases stands with ⟨before, split, -⟩
    rw [← String.length_toList, split, List.length_append]
    exact Nat.le_add_left _ _
  have bytes : cursor.rest.length ≤ source.utf8ByteSize :=
    (length_le_utf8Length _).trans (stands.offset_add ▸ Nat.le_add_left _ _)
  refine ⟨yields_performAll ascii start, stands.offset_le, stands.isValid, ?_⟩
  exact yields_size.bind (yields_lexFrom stands fewer (Nat.lt_succ_of_le bytes)
    (Nat.lt_succ_self _))

/-- A word is read behind the blanks, a byte beyond ASCII is peeked at, and the lexer goes on from
the quote, through the string, up to the character that it refuses. -/
theorem ByteReader.runs_around_letters_beyond_ascii :
    let machine : Machine := ⟨"  x\"é\"..ß", 65536⟩
    let letters := ByteClass.ofCharacters isWordStart
    CursorOperation.performAll [.skipBlanks, .read letters, .peek 2, .skip letters] machine 0 =
      .ok ([.nothing, .text "x", .byte 195, .nothing], 3) ∧
    ByteReader.lex machine 3 = .error (.refusal (.unexpectedCharacter .rangeEnd 'ß' 9)) := by
  intro machine letters
  have word : letters.IsAscii := ByteClass.isAscii_ofCharacters onlyAscii_isWordStart
  have ascii : ∀ operation ∈ [.skipBlanks, .read letters, .peek 2, .skip letters],
      CursorOperation.IsAscii operation := by
    simp only [List.forall_mem_cons]
    exact ⟨trivial, word, trivial, word, List.forall_mem_nil _⟩
  have ran : CursorOperation.runAll (.start machine.source)
      [.skipBlanks, .read letters, .peek 2, .skip letters] =
      ([.nothing, .text "x", .byte 195, .nothing], ⟨3, ['"', 'é', '"', '.', '.', 'ß']⟩) := by
    decide +kernel
  have length : machine.source.length = 9 := by decide
  have runs := ByteReader.runs_without_misstep machine.source machine.limit _ ascii
  rw [ran, length] at runs
  rcases runs with ⟨answers, -, -, tokens⟩
  exact ⟨answers.resolve_right fun far => absurd far.1 (by decide +kernel),
    tokens.resolve_right fun far => absurd far.1 (by decide +kernel)⟩

end PatternClauses
