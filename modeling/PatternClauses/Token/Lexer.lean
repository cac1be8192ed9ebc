import PatternClauses.Token
import PatternClauses.Token.Cursor

/-!
# Reading tokens

`lex` divides a source into lexemes.  Blanks separate tokens and are dropped; every token is read
as far as it goes, so a word ends before the first character that no word holds and a number
before the first character that is no digit of it.
-/

namespace PatternClauses

/-! ## Errors -/

inductive ExpectedCharacter where
  | token
  | rangeEnd
  deriving DecidableEq

def ExpectedCharacter.text : ExpectedCharacter → String
  | .token => "pattern token"
  | .rangeEnd => "'.' or '<'"

inductive LexError where
  | unexpectedCharacter (expected : ExpectedCharacter) (actual : Char) (offset : Nat)
  | unterminatedString (span : Span)
  | invalidNumber (literal : String) (span : Span)
  deriving DecidableEq

def LexError.diagnostic : LexError → Diagnostic
  | .unexpectedCharacter expected actual offset =>
    { message := "unexpected-character"
      code := "lexer::unexpected_character"
      help := "Expected " ++ expected.text ++ ", got " ++ quotedCharacter actual ++ " instead"
      labels := [⟨"Unexpected character: " ++ quotedCharacter actual,
        ⟨offset, offset + actual.utf8Size⟩⟩] }
  | .unterminatedString span =>
    { message := "unterminated-string"
      code := "lexer::unterminated_string"
      help := "Close the string literal with '\"'"
      labels := [⟨"String starts here and never ends", span⟩] }
  | .invalidNumber literal span =>
    { message := "invalid-number"
      code := "lexer::invalid_number"
      help := quoted literal ++ " is not a valid number literal"
      labels := [⟨"Invalid number: " ++ quoted literal, span⟩] }

/-! ## One token -/

def isWordStart (character : Char) : Bool := character.isAlpha || character == '_'

def isWordPart (character : Char) : Bool := isWordStart character || character.isDigit

/-- A token together with the characters that spell it. -/
abbrev Scanned := Token × List Char

def maximalInteger : Nat := 9223372036854775807

/-- A run of digits is an integer; with a point and a further digit behind it, a float that takes
in the digits after the point. -/
def scanNumber (offset : Nat) (text : List Char) : Except LexError Scanned :=
  let whole := text.takeWhile Char.isDigit
  match text.dropWhile Char.isDigit with
  | '.' :: digit :: rest =>
    if digit.isDigit then
      let fraction := (digit :: rest).takeWhile Char.isDigit
      .ok (.float (.ofDecimal false (naturalOfDigits (whole ++ fraction)) (-fraction.length)),
        whole ++ '.' :: fraction)
    else integer whole
  | _ => integer whole
where
  integer (digits : List Char) : Except LexError Scanned :=
    let value := naturalOfDigits digits
    if value ≤ maximalInteger then .ok (.integer (Int64.ofNat value), digits)
    else .error (.invalidNumber (String.ofList digits) ⟨offset, offset + utf8Length digits⟩)

def scanString (offset : Nat) (text : List Char) : Except LexError Scanned :=
  let body := text.takeWhile (· != '"')
  if body.length < text.length then
    .ok (.string (String.ofList body), '"' :: body ++ ['"'])
  else .error (.unterminatedString ⟨offset, offset + 1 + utf8Length text⟩)

def scanDot (offset : Nat) : List Char → Except LexError Scanned
  | '.' :: '.' :: _ => .ok (.closedRange, ['.', '.', '.'])
  | '.' :: '<' :: _ => .ok (.halfOpenRange, ['.', '.', '<'])
  | '.' :: rest => .error (.unexpectedCharacter .rangeEnd (rest.headD (Char.ofNat 0)) (offset + 2))
  | _ => .ok (.dot, ['.'])

def punctuation : List (Char × Token) :=
  [('(', .leftParen), (')', .rightParen), (',', .comma), (':', .colon), ('?', .questionMark),
    ('-', .minus)]

/-- The token at the front of a text that begins with `first`. -/
def scan (offset : Nat) (first : Char) (rest : List Char) : Except LexError Scanned :=
  if isWordStart first then
    let word := (first :: rest).takeWhile isWordPart
    .ok (.ofWord (String.ofList word), word)
  else if first.isDigit then scanNumber offset (first :: rest)
  else if first = '"' then scanString offset rest
  else if first = '.' then scanDot offset rest
  else match punctuation.lookup first with
    | some token => .ok (token, [first])
    | none => .error (.unexpectedCharacter .token first offset)

/-! ## All tokens -/

/-- The lexemes from a cursor on.  Each takes at least one character, so a budget of one step for
every character is never short. -/
def lexFrom : (budget : Nat) → Cursor → Except LexError (List Lexeme)
  | 0, _ => .ok []
  | budget + 1, cursor =>
    let here := cursor.skipBlanks
    match here.rest with
    | [] => .ok []
    | first :: rest => do
      let (token, run) ← scan here.offset first rest
      let next := here.advance run
      let later ← lexFrom budget next
      return ⟨token, ⟨here.offset, next.offset⟩⟩ :: later

def lex (source : String) : Except LexError (List Lexeme) :=
  lexFrom source.length (.start source)

example : (lex "x? 1.5").toOption = some
    [⟨.identifier "x", ⟨0, 1⟩⟩, ⟨.questionMark, ⟨1, 2⟩⟩,
      ⟨.float (.ofDecimal false 15 (-1)), ⟨3, 6⟩⟩] := by
  decide +kernel

example : lex "1..2" = .error (.unexpectedCharacter .rangeEnd '2' 3) := by rfl

end PatternClauses
