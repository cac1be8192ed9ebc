import Mathlib.Data.List.Induction
import Mathlib.Data.Nat.Digits.Defs
import PatternClauses.Proofs.Lexing.Tokens

/-!
# Tokens tile a source

The spans of the tokens lie in the source one behind the other, and between them are blanks only.
A token depends on its own characters alone, and it takes as many of them as it can.
-/

namespace PatternClauses

/-! ## The value of digits -/

/-- The number that decimal digits stand for: the last one counts ones, the one before it tens. -/
def decimalValue (digits : List Char) : Nat :=
  Nat.ofDigits 10 (digits.reverse.map fun digit => digit.toNat - '0'.toNat)

theorem naturalOfDigits_eq_decimalValue (digits : List Char) :
    naturalOfDigits digits = decimalValue digits := by
  induction digits using List.reverseRecOn with
  | nil => rfl
  | append_singleton digits last induction =>
    have front : naturalOfDigits (digits ++ [last]) =
        10 * naturalOfDigits digits + (last.toNat - '0'.toNat) := by
      simp [naturalOfDigits, Nat.ofDigitChars]
    rw [front, induction, decimalValue, decimalValue, List.reverse_append, List.reverse_singleton,
      List.singleton_append, List.map_cons, Nat.ofDigits_cons, Nat.add_comm]

/-! ## A token alone -/

theorem takeWhile_takeWhile_self (accepts : Char → Bool) (text : List Char) :
    (text.takeWhile accepts).takeWhile accepts = text.takeWhile accepts :=
  List.takeWhile_eq_self_iff.mpr fun _ => List.mem_takeWhile_imp

theorem Numbers.alone {text run : List Char} {token : Token} (numbers : Numbers text token run) :
    Numbers run token run := by
  cases numbers with
  | integer whole plain small =>
    subst whole
    refine .integer (takeWhile_takeWhile_self _ _) ?_ small
    intro digit rest point
    have none : (text.takeWhile Char.isDigit).dropWhile Char.isDigit = [] :=
      List.dropWhile_eq_nil_iff.mpr fun _ => List.mem_takeWhile_imp
    rw [none] at point
    cases point
  | @float whole digit rest fraction front point isDigit behind =>
    have digits : ∀ part ∈ whole, part.isDigit = true := by
      rw [← front]
      exact fun _ => List.mem_takeWhile_imp
    have first : fraction = digit :: rest.takeWhile Char.isDigit := by
      rw [← behind, List.takeWhile_cons, if_pos isDigit]
    have stops : ∀ next, ('.' :: fraction).head? = some next → next.isDigit = false := by
      rintro _ ⟨⟩
      rfl
    have dropped : (whole ++ '.' :: fraction).dropWhile Char.isDigit = '.' :: fraction := by
      rw [List.dropWhile_append_of_pos digits]
      rfl
    refine .float (takeWhile_append digits stops) (dropped.trans (congrArg _ first)) isDigit ?_
    rw [← first, ← behind, takeWhile_takeWhile_self]

/-- A token depends on the characters that spell it alone. -/
theorem Scans.alone {first : Char} {rest run : List Char} {token : Token}
    (scans : Scans first rest token run) : Scans first run.tail token run := by
  rcases scans.run with ⟨more, same, -⟩
  cases scans with
  | word start word =>
    have whole : first :: run.tail = run := by
      rw [same]
      rfl
    refine .word start ?_
    rw [whole, ← word, takeWhile_takeWhile_self]
  | number noWord digit numbers =>
    subst same
    exact .number noWord digit numbers.alone
  | string closed => exact .string closed
  | closedRange => exact .closedRange
  | halfOpenRange => exact .halfOpenRange
  | dot => exact .dot nofun
  | mark found => exact .mark found

/-! ## What follows a token -/

/-- The token does not go on with what follows it. -/
structure Stops (token : Token) (after : List Char) : Prop where
  word : token.isWord = true → ∀ next, after.head? = some next → isWordPart next = false
  number : token.isNumber = true → ∀ next, after.head? = some next → next.isDigit = false
  point : ∀ value, token = .integer value → ∀ digit more, after = '.' :: digit :: more →
    digit.isDigit = false

theorem stops_of_mark {token : Token} (noWord : token.isWord = false)
    (noNumber : token.isNumber = false) (after : List Char) : Stops token after where
  word word := by
    rw [noWord] at word
    cases word
  number number := by
    rw [noNumber] at number
    cases number
  point value same := by
    rw [same] at noNumber
    cases noNumber

theorem stops_of_takeWhile {accepts : Char → Bool} {text after : List Char}
    (split : text = text.takeWhile accepts ++ after) :
    after = text.dropWhile accepts ∧ ∀ next, after.head? = some next → accepts next = false := by
  have behind : after = text.dropWhile accepts := by
    have both : text.takeWhile accepts ++ after =
        text.takeWhile accepts ++ text.dropWhile accepts := by
      rw [← split, List.takeWhile_append_dropWhile]
    exact List.append_cancel_left both
  refine ⟨behind, fun next head => ?_⟩
  have stopped := List.head?_dropWhile_not accepts text
  rw [← behind, head] at stopped
  simpa using stopped

theorem Numbers.stops {text run after : List Char} {token : Token}
    (numbers : Numbers text token run) (split : text = run ++ after) : Stops token after := by
  cases numbers with
  | integer whole plain small =>
    subst whole
    rcases stops_of_takeWhile split with ⟨behind, stops⟩
    refine ⟨nofun, fun _ => stops, fun _ _ digit more point => ?_⟩
    exact plain digit more (behind ▸ point)
  | @float whole digit rest fraction front point isDigit behind =>
    subst behind front
    rw [List.append_assoc] at split
    have fraction := (stops_of_takeWhile split).1
    rw [point, List.cons_append, List.cons.injEq] at fraction
    exact ⟨nofun, fun _ => (stops_of_takeWhile fraction.2.symm).2, nofun⟩

theorem Scans.stops {first : Char} {rest run after : List Char} {token : Token}
    (scans : Scans first rest token run) (split : first :: rest = run ++ after) :
    Stops token after := by
  cases scans with
  | word start word =>
    subst word
    have isWord := Token.isWord_ofWord (String.ofList ((first :: rest).takeWhile isWordPart))
    refine ⟨fun _ => (stops_of_takeWhile split).2, fun isNumber => ?_, fun value same => ?_⟩
    · rw [Token.isNumber_eq_false isWord] at isNumber
      cases isNumber
    · rw [same] at isWord
      cases isWord
  | number noWord digit numbers => exact numbers.stops split
  | string => exact stops_of_mark rfl rfl after
  | closedRange => exact stops_of_mark rfl rfl after
  | halfOpenRange => exact stops_of_mark rfl rfl after
  | dot => exact stops_of_mark rfl rfl after
  | mark found =>
    rcases Token.plain_of_punctuation found with ⟨noWord, noNumber⟩
    exact stops_of_mark noWord noNumber after

/-! ## Bytes -/

def utf8Bytes (text : List Char) : List UInt8 := text.flatMap String.utf8EncodeChar

@[simp] theorem length_utf8Bytes (text : List Char) :
    (utf8Bytes text).length = utf8Length text := by
  induction text with
  | nil => rfl
  | cons first rest induction =>
    simp only [utf8Bytes] at induction
    simp [utf8Bytes, induction]

theorem utf8Bytes_append (left right : List Char) :
    utf8Bytes (left ++ right) = utf8Bytes left ++ utf8Bytes right :=
  List.flatMap_append

theorem toByteArray_eq_utf8Bytes (source : String) :
    source.toByteArray = (utf8Bytes source.toList).toByteArray :=
  String.utf8Encode_toList.symm

theorem utf8ByteSize_eq_utf8Length (source : String) :
    source.utf8ByteSize = utf8Length source.toList := by
  rw [← String.size_toByteArray, toByteArray_eq_utf8Bytes, List.size_toByteArray, length_utf8Bytes]

theorem utf8ByteSize_ofList (text : List Char) :
    (String.ofList text).utf8ByteSize = utf8Length text := by
  rw [utf8ByteSize_eq_utf8Length, String.toList_ofList]

/-- The bytes of ASCII white space: the tab, line feed, form feed, carriage return and space. -/
def blankBytes : List UInt8 := [0x09, 0x0a, 0x0c, 0x0d, 0x20]

theorem utf8Bytes_blank {character : Char} (blank : isBlank character = true) :
    ∃ byte ∈ blankBytes, utf8Bytes [character] = [byte] := by
  simp only [isBlank, Bool.or_eq_true, beq_iff_eq] at blank
  rcases blank with (((rfl | rfl) | rfl) | rfl) | rfl
  · exact ⟨0x20, by decide, by decide⟩
  · exact ⟨0x09, by decide, by decide⟩
  · exact ⟨0x0a, by decide, by decide⟩
  · exact ⟨0x0c, by decide, by decide⟩
  · exact ⟨0x0d, by decide, by decide⟩

theorem utf8Size_blank {character : Char} (blank : isBlank character = true) :
    character.utf8Size = 1 := by
  rcases utf8Bytes_blank blank with ⟨byte, -, bytes⟩
  have length := length_utf8Bytes [character]
  rw [bytes] at length
  simpa using length.symm

/-! ## Spans -/

def Span.Holds (span : Span) (place : Nat) : Prop := span.start ≤ place ∧ place < span.stop

theorem Scans.text_eq {first : Char} {rest run : List Char} {token : Token}
    (scans : Scans first rest token (first :: run)) :
    first :: rest = (first :: run) ++ rest.drop run.length := by
  rcases scans.run with ⟨more, same, front⟩
  cases same
  rw [List.cons_append, List.prefix_iff_eq_append.mp front]

theorem Tiles.blank_between {offset : Nat} {text : List Char} {lexemes : List Lexeme}
    (tiles : Tiles offset text lexemes) {place : Nat} {byte : UInt8}
    (here : (utf8Bytes text)[place]? = some byte)
    (outside : ∀ lexeme ∈ lexemes, ¬ lexeme.span.Holds (offset + place)) : byte ∈ blankBytes := by
  induction tiles generalizing place with
  | done => cases here
  | @blank first offset rest lexemes blank _ induction =>
    rcases utf8Bytes_blank blank with ⟨only, member, bytes⟩
    rw [← List.singleton_append, utf8Bytes_append, bytes] at here
    cases place with
    | zero =>
      cases here
      exact member
    | succ place =>
      rw [utf8Size_blank blank] at induction
      apply induction here
      rwa [Nat.add_assoc, Nat.add_comm 1 place]
  | @token first rest token run offset lexemes scans _ induction =>
    rw [List.forall_mem_cons] at outside
    have beyond : utf8Length (first :: run) ≤ place := by
      have apart := outside.1
      simp only [Span.Holds] at apart
      omega
    rw [scans.text_eq, utf8Bytes_append, List.getElem?_append_right (by simpa using beyond),
      length_utf8Bytes] at here
    apply induction here
    rw [Nat.add_assoc, Nat.add_sub_cancel' beyond]
    exact outside.2

theorem Tiles.ordered {offset : Nat} {text : List Char} {lexemes : List Lexeme}
    (tiles : Tiles offset text lexemes) :
    (∀ lexeme ∈ lexemes, offset ≤ lexeme.span.start) ∧
      lexemes.Pairwise fun earlier later => earlier.span.stop ≤ later.span.start := by
  induction tiles with
  | done => exact ⟨fun _ member => absurd member List.not_mem_nil, .nil⟩
  | @blank first offset rest lexemes _ _ induction =>
    refine ⟨fun lexeme member => ?_, induction.2⟩
    have behind := induction.1 lexeme member
    omega
  | @token first rest token run offset lexemes _ _ induction =>
    refine ⟨fun lexeme member => ?_, .cons induction.1 induction.2⟩
    rcases List.mem_cons.mp member with rfl | later
    · exact Nat.le_refl offset
    · have behind := induction.1 lexeme later
      omega

/-- A lexeme in its source: what stands in front of it, the text that it covers, and what follows.
As parts of the source they end between characters. -/
structure Tile (source : String) (lexeme : Lexeme) (before covered after : String) : Prop where
  source_eq : source = before ++ covered ++ after
  start_eq : lexeme.span.start = before.utf8ByteSize
  stop_eq : lexeme.span.stop = before.utf8ByteSize + covered.utf8ByteSize
  nonempty : lexeme.span.start < lexeme.span.stop
  /-- The token can be told from the covered text alone. -/
  alone : lex covered = .ok [⟨lexeme.token, ⟨0, covered.utf8ByteSize⟩⟩]
  integer : ∀ value, lexeme.token = .integer value →
    (∀ digit ∈ covered.toList, digit.isDigit = true) ∧ value.toInt = decimalValue covered.toList
  /-- The token takes all that it can. -/
  stops : Stops lexeme.token after.toList

theorem Numbers.integer_eq {text run : List Char} {token : Token}
    (numbers : Numbers text token run) {value : Int64} (same : token = .integer value) :
    (∀ digit ∈ run, digit.isDigit = true) ∧ value.toInt = decimalValue run := by
  cases numbers with
  | float => cases same
  | integer whole plain small =>
    cases same
    constructor
    · rw [← whole]
      exact fun _ => List.mem_takeWhile_imp
    · rw [maximalInteger] at small
      rw [Int64.toInt_ofNat_of_lt (by omega), naturalOfDigits_eq_decimalValue]

theorem lex_of_scans {first : Char} {run : List Char} {token : Token}
    (scans : Scans first run token (first :: run)) :
    lex (String.ofList (first :: run)) = .ok [⟨token, ⟨0, utf8Length (first :: run)⟩⟩] := by
  rw [lex_eq_ok_iff_tiles, String.toList_ofList]
  have nothing : Tiles (0 + utf8Length (first :: run)) (run.drop run.length) [] := by
    rw [List.drop_length]
    exact .done
  have tiles := Tiles.token scans nothing
  rwa [Nat.zero_add] at tiles

theorem Scans.tile {first : Char} {rest run : List Char} {token : Token}
    (scans : Scans first rest token (first :: run)) (before : String) :
    Tile (before ++ String.ofList (first :: rest))
      ⟨token, ⟨before.utf8ByteSize, before.utf8ByteSize + utf8Length (first :: run)⟩⟩
      before (String.ofList (first :: run)) (String.ofList (rest.drop run.length)) where
  source_eq := by rw [scans.text_eq, String.ofList_append, String.append_assoc]
  start_eq := rfl
  stop_eq := by rw [utf8ByteSize_ofList]
  nonempty := by
    have bytes : 0 < utf8Length (first :: run) := Nat.add_pos_left first.utf8Size_pos _
    exact Nat.lt_add_of_pos_right bytes
  alone := by
    rw [utf8ByteSize_ofList]
    exact lex_of_scans scans.alone
  integer value same := by
    change token = .integer value at same
    subst same
    rw [String.toList_ofList]
    exact (scans.numbers rfl).2.2.integer_eq rfl
  stops := by
    rw [String.toList_ofList]
    exact scans.stops scans.text_eq

theorem Tiles.tile {offset : Nat} {text : List Char} {lexemes : List Lexeme}
    (tiles : Tiles offset text lexemes) {front : String} (here : offset = front.utf8ByteSize) :
    ∀ lexeme ∈ lexemes, ∃ before covered after,
      Tile (front ++ String.ofList text) lexeme before covered after := by
  induction tiles generalizing front with
  | done => exact fun _ member => absurd member List.not_mem_nil
  | @blank first offset rest lexemes _ _ induction =>
    have behind := @induction (front ++ String.ofList [first]) (by simp [here])
    rwa [String.append_assoc, ← String.ofList_append, List.singleton_append] at behind
  | @token first rest token run offset lexemes scans _ induction =>
    subst here
    have behind := @induction (front ++ String.ofList (first :: run))
      (by simp [utf8ByteSize_ofList])
    rw [String.append_assoc, ← String.ofList_append, ← scans.text_eq] at behind
    intro lexeme member
    rcases List.mem_cons.mp member with rfl | later
    · exact ⟨_, _, _, scans.tile front⟩
    · exact behind lexeme later

/-- The tokens of a source tile it: each covers a part of its own that it is read from alone and
that nothing goes on with, the parts lie one behind the other, and between them are blanks. -/
theorem lex_tiles (source : String) (lexemes : List Lexeme) (read : lex source = .ok lexemes) :
    (∀ lexeme ∈ lexemes, ∃ before covered after, Tile source lexeme before covered after) ∧
    (lexemes.Pairwise fun earlier later => earlier.span.stop ≤ later.span.start) ∧
    ∀ place (inside : place < source.utf8ByteSize),
      (∀ lexeme ∈ lexemes, ¬ lexeme.span.Holds place) →
        source.getUTF8Byte ⟨place⟩ inside ∈ blankBytes := by
  have tiles := lex_eq_ok_iff_tiles.mp read
  refine ⟨?_, tiles.ordered.2, fun place inside outside => ?_⟩
  · have whole : "" ++ String.ofList source.toList = source := by
      rw [String.empty_append, String.ofList_toList]
    exact whole ▸ tiles.tile rfl
  · have here : (utf8Bytes source.toList)[place]? = some (source.getUTF8Byte ⟨place⟩ inside) := by
      have bytes := toByteArray_eq_utf8Bytes source
      have bound : place < (utf8Bytes source.toList).length := by
        rwa [length_utf8Bytes, ← utf8ByteSize_eq_utf8Length]
      rw [List.getElem?_eq_getElem bound, String.getUTF8Byte_eq_getElem]
      simp only [bytes, List.getElem_toByteArray]
    apply tiles.blank_between here
    rwa [Nat.zero_add]

theorem lex_tiles_of_range : ∃ lexemes, lex "x 007...1.5" = .ok lexemes ∧ lexemes.length = 4 ∧
    ∀ lexeme ∈ lexemes, ∃ before covered after, Tile "x 007...1.5" lexeme before covered after := by
  have read : lex "x 007...1.5" = .ok [⟨.identifier "x", ⟨0, 1⟩⟩, ⟨.integer 7, ⟨2, 5⟩⟩,
      ⟨.closedRange, ⟨5, 8⟩⟩, ⟨.float (.ofDecimal false 15 (-1)), ⟨8, 11⟩⟩] := by rfl
  exact ⟨_, read, rfl, (lex_tiles _ _ read).1⟩

end PatternClauses
