import PatternClauses.Proofs.Lexing.Bytes

/-!
# Readers of bytes

A byte reader holds its source as bytes and its cursor as a number, and every step of it that could
go wrong is checked.  `Yields` says what a reader comes to.  The operations on a cursor come to what
they come to on a `Cursor`, which stands between characters by construction: no check fails but that
of a sum, for a source or a place to peek at that is too far for a machine word.
-/

namespace PatternClauses

/-! ## Readers -/

/-- A source in memory. -/
structure Machine where
  source : String
  /-- The first number that a machine word cannot hold. -/
  limit : Nat

def Machine.bytes (machine : Machine) : List UInt8 := machine.source.toByteArray.data.toList

inductive Misstep where
  | overflow
  | negative
  | noByte
  /-- The ends are out of order, outside of the source or inside a character. -/
  | badSlice
  /-- The cursor is put past the end or inside a character. -/
  | strayCursor
  /-- A loop takes more steps than the source has bytes. -/
  | endless
  deriving DecidableEq

/-- Why a reader comes to no result: a check fails, or the source is not one of tokens. -/
inductive Stop where
  | misstep (misstep : Misstep)
  | refusal (error : LexError)
  deriving DecidableEq

/-- A reader of a source by bytes, whose state is its cursor. -/
abbrev ByteReader := ReaderT Machine (StateT Nat (Except Stop))

namespace ByteReader

def stop {α : Type} (misstep : Misstep) : ByteReader α := throw (.misstep misstep)

def refuse {α : Type} (error : LexError) : ByteReader α := throw (.refusal error)

def sum (left right : Nat) : ByteReader Nat := do
  if left + right < (← read).limit then return left + right else stop .overflow

def difference (left right : Nat) : ByteReader Nat :=
  if right ≤ left then return left - right else stop .negative

def size : ByteReader Nat := return (← read).bytes.length

def byteAt (place : Nat) : ByteReader UInt8 := do
  match (← read).bytes[place]? with
  | some byte => return byte
  | none => stop .noByte

def bytesBetween (start finish : Nat) : ByteReader (List UInt8) := do
  let bytes := (← read).bytes
  if start ≤ finish ∧ finish ≤ bytes.length then return bytes.extract start finish
  else stop .badSlice

/-- The text between two places, both of which have to lie between characters. -/
def slice (start finish : Nat) : ByteReader String := do
  let source := (← read).source
  if valid : start ≤ finish ∧ String.Pos.Raw.IsValid source ⟨start⟩ ∧
      String.Pos.Raw.IsValid source ⟨finish⟩ then
    return source.extract (source.pos ⟨start⟩ valid.2.1) (source.pos ⟨finish⟩ valid.2.2)
  else stop .badSlice

/-- Put the cursor to a place, which has to lie between characters. -/
def moveTo (place : Nat) : ByteReader Unit := do
  if String.Pos.Raw.IsValid (← read).source ⟨place⟩ then set place else stop .strayCursor

def forward (distance : Nat) : ByteReader Unit := do moveTo (← sum (← get) distance)

def back : ByteReader Unit := do moveTo (← difference (← get) 1)

def peek (distance : Nat) : ByteReader UInt8 := do
  let place ← sum (← get) distance
  if place < (← size) then byteAt place else return 0

def skipFrom (accepts : ByteClass) (start : Nat) : (budget : Nat) → ByteReader Unit
  | 0 => stop .endless
  | budget + 1 => do
    if accepts (← peek 0) (← bytesBetween start (← get)) then
      forward 1
      skipFrom accepts start budget

def skip (accepts : ByteClass) : ByteReader Unit := do
  skipFrom accepts (← get) ((← size) + 1)

def skipBlanks : ByteReader Unit := skip (.ofCharacters isBlank)

/-- Read everything that a class accepts.  The cursor is left at the last character read, and
stays in place when there is none. -/
def readRun (accepts : ByteClass) : ByteReader String := do
  let start ← get
  skip accepts
  let finish ← get
  if finish = start then return ""
  else
    let text ← slice start finish
    back
    return text

end ByteReader

/-! ## Operations -/

inductive CursorOperation where
  | skipBlanks
  | skip (accepts : ByteClass)
  | read (accepts : ByteClass)
  | peek (distance : Nat)

inductive Answer where
  | nothing
  | text (text : String)
  | byte (byte : UInt8)
  deriving DecidableEq

namespace CursorOperation

def IsAscii : CursorOperation → Prop
  | skip accepts | read accepts => accepts.IsAscii
  | skipBlanks | peek _ => True

def perform : CursorOperation → ByteReader Answer
  | skipBlanks => do
    ByteReader.skipBlanks
    return .nothing
  | skip accepts => do
    ByteReader.skip accepts
    return .nothing
  | read accepts => return .text (← ByteReader.readRun accepts)
  | peek distance => return .byte (← ByteReader.peek distance)

def run (cursor : Cursor) : CursorOperation → Answer × Cursor
  | skipBlanks => (.nothing, cursor.skipBlanks)
  | skip accepts => (.nothing, cursor.skip accepts.onCharacters)
  | read accepts =>
    let (text, next) := cursor.read accepts.onCharacters
    (.text (String.ofList text), next)
  | peek distance => (.byte (cursor.byteAt distance), cursor)

def performAll : List CursorOperation → ByteReader (List Answer)
  | [] => return []
  | operation :: later => do
    let answer ← operation.perform
    return answer :: (← performAll later)

def runAll (cursor : Cursor) : List CursorOperation → List Answer × Cursor
  | [] => ([], cursor)
  | operation :: later =>
    let (answer, next) := operation.run cursor
    let (answers, finish) := runAll next later
    (answer :: answers, finish)

/-- The farthest place that the operation looks at: the one that it peeks at, or the end. -/
def reach (cursor : Cursor) : CursorOperation → Nat
  | peek distance => cursor.offset + distance
  | _ => cursor.offset + utf8Length cursor.rest

def farthest (cursor : Cursor) : List CursorOperation → Nat
  | [] => cursor.offset + utf8Length cursor.rest
  | operation :: later => max (operation.reach cursor) (farthest (operation.run cursor).2 later)

end CursorOperation

theorem Machine.bytes_eq (machine : Machine) :
    machine.bytes = utf8Bytes machine.source.toList := by
  rw [Machine.bytes, toByteArray_eq_utf8Bytes]
  exact List.data_toByteArray ▸ rfl

theorem Machine.length_bytes (machine : Machine) :
    machine.bytes.length = machine.source.utf8ByteSize := by
  rw [Machine.bytes_eq, length_utf8Bytes, utf8ByteSize_eq_utf8Length]

/-! ## What readers yield -/

/-- The reader has the outcome, a value and the place of the cursor behind it or a refusal, unless
a machine word is too small for numbers up to `reach` and a sum overflows. -/
def Yields {α : Type} (machine : Machine) (reach : Nat) (reader : ByteReader α) (start : Nat)
    (outcome : Except LexError (α × Nat)) : Prop :=
  reader machine start = outcome.mapError .refusal ∨
    machine.limit ≤ reach ∧ reader machine start = .error (.misstep .overflow)

section

variable {machine : Machine} {reach start place : Nat} {α β : Type} {value : α}
  {reader : ByteReader α} {next : α → ByteReader β} {outcome : Except LexError (α × Nat)}

theorem Yields.mono {farther : Nat} (yields : Yields machine reach reader start outcome)
    (wider : reach ≤ farther) : Yields machine farther reader start outcome :=
  yields.imp id fun overflow => ⟨Nat.le_trans overflow.1 wider, overflow.2⟩

theorem yields_pure (value : α) : Yields machine reach (pure value) start (.ok (value, start)) :=
  .inl rfl

theorem yields_refuse (error : LexError) :
    Yields machine reach (ByteReader.refuse error : ByteReader α) start (.error error) :=
  .inl rfl

theorem Yields.bind {later : Except LexError (β × Nat)}
    (first : Yields machine reach reader start (.ok (value, place)))
    (second : Yields machine reach (next value) place later) :
    Yields machine reach (reader >>= next) start later := by
  have step : (reader >>= next) machine start =
      reader machine start >>= fun state => next state.1 machine state.2 := rfl
  rcases first with read | ⟨short, overflow⟩
  · rw [Yields, step, read]
    exact second
  · exact .inr ⟨short, by rw [step, overflow]; rfl⟩

theorem Yields.bind_refused {error : LexError}
    (first : Yields machine reach reader start (.error error)) :
    Yields machine reach (reader >>= next) start (.error error) := by
  have step : (reader >>= next) machine start =
      reader machine start >>= fun state => next state.1 machine state.2 := rfl
  rcases first with read | ⟨short, overflow⟩
  · exact .inl (by rw [step, read]; rfl)
  · exact .inr ⟨short, by rw [step, overflow]; rfl⟩

theorem yields_get : Yields machine reach get start (.ok (start, start)) := .inl rfl

theorem yields_read : Yields machine reach read start (.ok (machine, start)) := .inl rfl

theorem yields_size :
    Yields machine reach ByteReader.size start (.ok (machine.source.utf8ByteSize, start)) := by
  rw [← machine.length_bytes]
  exact .inl rfl

theorem yields_sum {left right : Nat} (inside : left + right ≤ reach) :
    Yields machine reach (ByteReader.sum left right) start (.ok (left + right, start)) := by
  refine yields_read.bind ?_
  by_cases fits : left + right < machine.limit
  · rw [if_pos fits]
    exact yields_pure _
  · rw [if_neg fits]
    exact .inr ⟨Nat.le_trans (Nat.le_of_not_lt fits) inside, rfl⟩

theorem yields_difference {left right : Nat} (ordered : right ≤ left) :
    Yields machine reach (ByteReader.difference left right) start (.ok (left - right, start)) := by
  rw [ByteReader.difference, if_pos ordered]
  exact yields_pure _

theorem yields_byteAt {byte : UInt8} (here : machine.bytes[place]? = some byte) :
    Yields machine reach (ByteReader.byteAt place) start (.ok (byte, start)) := by
  refine yields_read.bind ?_
  rw [here]
  exact yields_pure _

theorem yields_moveTo (valid : String.Pos.Raw.IsValid machine.source ⟨place⟩) :
    Yields machine reach (ByteReader.moveTo place) start (.ok ((), place)) := by
  refine yields_read.bind ?_
  rw [if_pos valid]
  exact .inl rfl

theorem yields_bytesBetween {before covered after : List Char}
    (split : machine.source.toList = before ++ covered ++ after) :
    Yields machine reach
      (ByteReader.bytesBetween (utf8Length before) (utf8Length (before ++ covered))) start
      (.ok (utf8Bytes covered, start)) := by
  have bytes : machine.bytes = utf8Bytes before ++ (utf8Bytes covered ++ utf8Bytes after) := by
    rw [machine.bytes_eq, split, utf8Bytes_append, utf8Bytes_append, List.append_assoc]
  refine yields_read.bind ?_
  have inside : utf8Length before ≤ utf8Length (before ++ covered) ∧
      utf8Length (before ++ covered) ≤ machine.bytes.length := by
    simp only [bytes, List.length_append, length_utf8Bytes, utf8Length_append]
    omega
  have between : machine.bytes.extract (utf8Length before) (utf8Length (before ++ covered)) =
      utf8Bytes covered := by
    rw [bytes, List.extract_eq_take_drop, utf8Length_append, Nat.add_sub_cancel_left,
      ← length_utf8Bytes before, List.drop_left, ← length_utf8Bytes covered, List.take_left]
  rw [if_pos inside, between]
  exact yields_pure _

/-! ## Readers at a cursor -/

variable {cursor : Cursor} {run : List Char} {accepts : ByteClass}

theorem Cursor.At.drop_bytes (stands : cursor.At machine.source.toList) :
    machine.bytes.drop cursor.offset = utf8Bytes cursor.rest := by
  rcases stands with ⟨before, split, offset⟩
  rw [machine.bytes_eq, split, utf8Bytes_append, offset, ← length_utf8Bytes before, List.drop_left]

theorem yields_slice (stands : cursor.At machine.source.toList) (here : run <+: cursor.rest) :
    Yields machine reach (ByteReader.slice cursor.offset (cursor.advance run).offset) start
      (.ok (String.ofList run, start)) := by
  have ends := And.intro stands.isValid (stands.advance here).isValid
  refine yields_read.bind ?_
  rw [dif_pos ⟨Nat.le_add_right _ _, ends⟩, stands.extract here]
  exact yields_pure _

theorem yields_peek (stands : cursor.At machine.source.toList) {distance : Nat}
    (inside : cursor.offset + distance ≤ reach) :
    Yields machine reach (ByteReader.peek distance) cursor.offset
      (.ok (cursor.byteAt distance, cursor.offset)) := by
  have finish := stands.offset_add
  have behind : machine.bytes[cursor.offset + distance]? = (utf8Bytes cursor.rest)[distance]? := by
    rw [← stands.drop_bytes, List.getElem?_drop]
  refine yields_get.bind ((yields_sum inside).bind (yields_size.bind ?_))
  by_cases within : cursor.offset + distance < machine.source.utf8ByteSize
  · rw [if_pos within, cursor.byteAt_eq]
    have bound : distance < (utf8Bytes cursor.rest).length := by
      rw [length_utf8Bytes]
      omega
    rw [List.getElem?_eq_getElem bound] at behind ⊢
    exact yields_byteAt behind
  · rw [if_neg within, cursor.byteAt_eq, List.getElem?_eq_none (by rw [length_utf8Bytes]; omega)]
    exact yields_pure _

theorem yields_forward_to {distance : Nat}
    (valid : String.Pos.Raw.IsValid machine.source ⟨start + distance⟩)
    (inside : start + distance ≤ reach) :
    Yields machine reach (ByteReader.forward distance) start (.ok ((), start + distance)) :=
  yields_get.bind ((yields_sum inside).bind (yields_moveTo valid))

theorem yields_forward (stands : cursor.At machine.source.toList) (here : run <+: cursor.rest)
    (inside : machine.source.utf8ByteSize ≤ reach) :
    Yields machine reach (ByteReader.forward (utf8Length run)) cursor.offset
      (.ok ((), (cursor.advance run).offset)) := by
  have moved := stands.advance here
  exact yields_forward_to moved.isValid (Nat.le_trans moved.offset_le inside)

theorem yields_back (stands : cursor.At machine.source.toList) (here : run <+: cursor.rest)
    (some : run ≠ []) (ascii : ∀ character ∈ run, character.toNat < 128) :
    Yields machine reach ByteReader.back (cursor.advance run).offset
      (.ok ((), (cursor.advance run.dropLast).offset)) := by
  have moved := stands.advance ((List.dropLast_prefix run).trans here)
  have before : (cursor.advance run).offset = (cursor.advance run.dropLast).offset + 1 := by
    simp only [Cursor.advance, utf8Length_eq_dropLast_add_one some ascii, Nat.add_assoc]
  rw [before]
  exact yields_get.bind ((yields_difference (Nat.le_add_left 1 _)).bind
    (yields_moveTo moved.isValid))

theorem yields_skipFrom (ascii : accepts.IsAscii) {before accepted text : List Char}
    (split : machine.source.toList = before ++ accepted ++ text)
    (inside : machine.source.utf8ByteSize ≤ reach) {budget : Nat} (enough : text.length < budget) :
    Yields machine reach (ByteReader.skipFrom accepts (utf8Length before) budget)
      (utf8Length (before ++ accepted)) (.ok ((), utf8Length (before ++ accepted) +
        utf8Length (acceptedRun accepts.onCharacters accepted text))) := by
  -- what is accepted is one byte, so each step leaves the cursor between characters
  induction budget generalizing accepted text with
  | zero => cases enough
  | succ budget induction =>
    have stands : Cursor.At machine.source.toList ⟨utf8Length (before ++ accepted), text⟩ :=
      ⟨_, split, rfl⟩
    refine (yields_peek stands (stands.offset_le.trans inside)).bind (yields_get.bind
      ((yields_bytesBetween split).bind ?_))
    rw [ascii.accepts_byteAt]
    cases text with
    | nil => exact yields_pure _
    | cons first rest =>
      rw [List.head?_cons, Option.any_some, acceptedRun]
      split
      · rename_i member
        have one : utf8Length [first] = 1 := utf8Size_of_lt (ByteClass.lt_of_onCharacters member)
        have moved := yields_forward stands (List.prefix_append [first] rest) inside
        have further : machine.source.toList = before ++ (accepted ++ [first]) ++ rest := by
          rw [split, ← List.append_assoc, List.append_assoc _ [first], List.singleton_append]
        have later := induction further (Nat.lt_of_succ_lt_succ enough)
        rw [← List.append_assoc, utf8Length_append _ [first], Nat.add_assoc,
          ← utf8Length_append [first]] at later
        rw [one] at moved
        exact moved.bind later
      · exact yields_pure _

theorem yields_skip (ascii : accepts.IsAscii) (stands : cursor.At machine.source.toList)
    (inside : machine.source.utf8ByteSize ≤ reach) :
    Yields machine reach (ByteReader.skip accepts) cursor.offset
      (.ok ((), (cursor.skip accepts.onCharacters).offset)) := by
  have finish := stands.offset_add
  have characters := length_le_utf8Length cursor.rest
  rcases stands with ⟨before, split, offset⟩
  have whole : machine.source.toList = before ++ [] ++ cursor.rest := by
    rw [split, List.append_nil]
  have enough : cursor.rest.length < machine.source.utf8ByteSize + 1 := by omega
  have skipped := yields_skipFrom ascii whole inside enough
  rw [List.append_nil, ← offset] at skipped
  exact yields_get.bind (yields_size.bind skipped)

-- a byte beyond ASCII would take the cursor into a character
example : ByteReader.skip (fun byte _ => byte == 0xc3) ⟨"é", 65536⟩ 0 =
    .error (.misstep .strayCursor) := by rfl

theorem yields_skip_of_constant {holds : Char → Bool} (ascii : OnlyAscii holds)
    (stands : cursor.At machine.source.toList) (inside : machine.source.utf8ByteSize ≤ reach) :
    Yields machine reach (ByteReader.skip (.ofCharacters holds)) cursor.offset
      (.ok ((), (cursor.advance (cursor.rest.takeWhile holds)).offset)) := by
  have skipped := yields_skip (ByteClass.isAscii_ofCharacters ascii) stands inside
  rwa [ByteClass.onCharacters_ofCharacters ascii, Cursor.skip, acceptedRun_of_constant] at skipped

theorem yields_skipBlanks (stands : cursor.At machine.source.toList)
    (inside : machine.source.utf8ByteSize ≤ reach) :
    Yields machine reach ByteReader.skipBlanks cursor.offset
      (.ok ((), cursor.skipBlanks.offset)) :=
  yields_skip_of_constant onlyAscii_isBlank stands inside

theorem yields_readRun (ascii : accepts.IsAscii) (stands : cursor.At machine.source.toList)
    (inside : machine.source.utf8ByteSize ≤ reach) :
    Yields machine reach (ByteReader.readRun accepts) cursor.offset
      (.ok (String.ofList (cursor.read accepts.onCharacters).1,
        (cursor.read accepts.onCharacters).2.offset)) := by
  have front : acceptedRun accepts.onCharacters [] cursor.rest <+: cursor.rest :=
    Cursor.acceptedRun_isPrefix ..
  have small : ∀ character ∈ acceptedRun accepts.onCharacters [] cursor.rest,
      character.toNat < 128 := fun _ => lt_of_mem_acceptedRun
  refine yields_get.bind ((yields_skip ascii stands inside).bind (yields_get.bind ?_))
  rw [Cursor.read, Cursor.skip]
  generalize acceptedRun accepts.onCharacters [] cursor.rest = run at front small ⊢
  by_cases nothing : run = []
  · have stays : (cursor.advance []).offset = cursor.offset := Nat.add_zero _
    rw [nothing, if_pos stays]
    exact yields_pure _
  · have moves : (cursor.advance run).offset ≠ cursor.offset := by
      simp only [Cursor.advance, utf8Length_eq_dropLast_add_one nothing small]
      omega
    rw [if_neg moves]
    exact (yields_slice stands front).bind
      ((yields_back stands front nothing small).bind (yields_pure _))

variable {operation : CursorOperation} {operations : List CursorOperation}

theorem CursorOperation.at (stands : cursor.At machine.source.toList) :
    (operation.run cursor).2.At machine.source.toList := by
  cases operation with
  | skipBlanks => exact stands.skipBlanks
  | skip accepts => exact stands.skip _
  | read accepts => exact stands.read _
  | peek distance => exact stands

theorem yields_perform (ascii : operation.IsAscii)
    (stands : cursor.At machine.source.toList) (covers : operation.reach cursor ≤ reach) :
    Yields machine reach operation.perform cursor.offset
      (.ok ((operation.run cursor).1, (operation.run cursor).2.offset)) := by
  have finish := stands.offset_add
  cases operation with
  | skipBlanks => exact (yields_skipBlanks stands (finish ▸ covers)).bind (yields_pure _)
  | skip accepts => exact (yields_skip ascii stands (finish ▸ covers)).bind (yields_pure _)
  | read accepts => exact (yields_readRun ascii stands (finish ▸ covers)).bind (yields_pure _)
  | peek distance => exact (yields_peek stands covers).bind (yields_pure _)

theorem CursorOperation.at_all (stands : cursor.At machine.source.toList) :
    (CursorOperation.runAll cursor operations).2.At machine.source.toList := by
  induction operations generalizing cursor with
  | nil => exact stands
  | cons operation later induction => exact induction (CursorOperation.at stands)

theorem yields_performAll (ascii : ∀ operation ∈ operations, operation.IsAscii)
    (stands : cursor.At machine.source.toList) :
    Yields machine (CursorOperation.farthest cursor operations)
      (CursorOperation.performAll operations) cursor.offset
      (.ok ((CursorOperation.runAll cursor operations).1,
        (CursorOperation.runAll cursor operations).2.offset)) := by
  induction operations generalizing cursor with
  | nil => exact yields_pure _
  | cons operation later induction =>
    rw [List.forall_mem_cons] at ascii
    refine (yields_perform ascii.1 stands (Nat.le_max_left _ _)).bind (Yields.bind
      ((induction ascii.2 (CursorOperation.at stands)).mono (Nat.le_max_right _ _)) (yields_pure _))

end

end PatternClauses
