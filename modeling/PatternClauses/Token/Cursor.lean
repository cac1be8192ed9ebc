import PatternClauses.Diagnostic

/-!
# Cursors

A cursor stands between the characters of a source: it holds the number of bytes before it and
the characters after it, so it never stands inside a character or past the end.  `Cursor.At`
relates it to its source and every operation keeps that relation.
-/

namespace PatternClauses

structure Cursor where
  offset : Nat
  rest : List Char
  deriving DecidableEq

/-- A class of characters.  Membership may depend on the characters accepted before. -/
abbrev CharClass := Char → List Char → Bool

/-- The longest run at the front of a text in which every character is accepted after those
before it. -/
def acceptedRun (accepts : CharClass) (accepted : List Char) : List Char → List Char
  | [] => []
  | head :: tail =>
    if accepts head accepted then head :: acceptedRun accepts (accepted ++ [head]) tail else []

theorem acceptedRun_append_drop (accepts : CharClass) (accepted text : List Char) :
    acceptedRun accepts accepted text ++
      text.drop (acceptedRun accepts accepted text).length = text := by
  induction text generalizing accepted with
  | nil => rfl
  | cons head tail induction =>
    simp only [acceptedRun]
    split <;> simp [induction]

def isBlank (character : Char) : Bool :=
  character == ' ' || character == '\t' || character == '\n' || character == '\x0c' ||
    character == '\r'

namespace Cursor

def start (source : String) : Cursor := ⟨0, source.toList⟩

def advance (cursor : Cursor) (run : List Char) : Cursor :=
  ⟨cursor.offset + utf8Length run, cursor.rest.drop run.length⟩

/-- The byte `distance` places after the cursor, or zero past the end. -/
def byteAt (cursor : Cursor) (distance : Nat) : UInt8 :=
  go cursor.rest distance
where
  go : List Char → Nat → UInt8
    | [], _ => 0
    | head :: tail, distance =>
      if distance < head.utf8Size then (String.utf8EncodeChar head)[distance]?.getD 0
      else go tail (distance - head.utf8Size)

def current (cursor : Cursor) : UInt8 := cursor.byteAt 0

def skipBlanks (cursor : Cursor) : Cursor := cursor.advance (cursor.rest.takeWhile isBlank)

def skip (cursor : Cursor) (accepts : CharClass) : Cursor :=
  cursor.advance (acceptedRun accepts [] cursor.rest)

/-- Read everything that a class accepts.  The cursor is left at the last character read, and
stays in place when there is none. -/
def read (cursor : Cursor) (accepts : CharClass) : List Char × Cursor :=
  let run := acceptedRun accepts [] cursor.rest
  (run, cursor.advance run.dropLast)

/-! ## Cursors of a source -/

structure At (source : List Char) (cursor : Cursor) : Prop where
  split : ∃ before, source = before ++ cursor.rest ∧ cursor.offset = utf8Length before

theorem at_start (source : String) : At source.toList (start source) := ⟨[], rfl, rfl⟩

theorem At.advance {source : List Char} {cursor : Cursor} (stands : At source cursor)
    {run : List Char} (here : run <+: cursor.rest) : At source (cursor.advance run) := by
  obtain ⟨before, split, offset⟩ := stands
  obtain ⟨after, equal⟩ := here
  refine ⟨before ++ run, ?_, ?_⟩
  · simp [Cursor.advance, split, ← equal]
  · simp [Cursor.advance, offset]

theorem At.skipBlanks {source : List Char} {cursor : Cursor} (stands : At source cursor) :
    At source cursor.skipBlanks :=
  stands.advance (List.takeWhile_prefix _)

theorem acceptedRun_isPrefix (accepts : CharClass) (accepted text : List Char) :
    acceptedRun accepts accepted text <+: text :=
  ⟨_, acceptedRun_append_drop accepts accepted text⟩

theorem At.skip {source : List Char} {cursor : Cursor} (stands : At source cursor)
    (accepts : CharClass) : At source (cursor.skip accepts) :=
  stands.advance (acceptedRun_isPrefix _ _ _)

theorem At.read {source : List Char} {cursor : Cursor} (stands : At source cursor)
    (accepts : CharClass) : At source (cursor.read accepts).2 :=
  stands.advance ((List.dropLast_prefix _).trans (acceptedRun_isPrefix _ _ _))

end Cursor

end PatternClauses
