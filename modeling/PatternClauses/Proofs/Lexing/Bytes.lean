import PatternClauses.Proofs.Lexing.Tiling

/-!
# Characters as bytes

An ASCII character is one byte, and no byte of any other character is an ASCII character.  So what
a class of ASCII characters accepts can be told from bytes, and a run of such characters begins and
ends between characters of the source.
-/

namespace PatternClauses

/-! ## Classes of bytes -/

/-- A class of bytes.  Membership may depend on the bytes accepted before. -/
abbrev ByteClass := UInt8 → List UInt8 → Bool

def characterOf (byte : UInt8) : Char := .ofNat byte.toNat

namespace ByteClass

/-- Every byte that the class accepts is an ASCII character by itself, and none is zero. -/
def IsAscii (accepts : ByteClass) : Prop :=
  ∀ byte before, accepts byte before = true → 0 < byte.toNat ∧ byte.toNat < 128

def onCharacters (accepts : ByteClass) : CharClass := fun character before =>
  decide (character.toNat < 128) && accepts (.ofNat character.toNat) (utf8Bytes before)

def ofCharacters (holds : Char → Bool) : ByteClass := fun byte _ => holds (characterOf byte)

end ByteClass

def OnlyAscii (holds : Char → Bool) : Prop :=
  ∀ character, holds character = true → 0 < character.toNat ∧ character.toNat < 128

/-! ## Bytes of a character -/

theorem utf8Bytes_cons (first : Char) (rest : List Char) :
    utf8Bytes (first :: rest) = String.utf8EncodeChar first ++ utf8Bytes rest :=
  rfl

theorem utf8EncodeChar_of_lt {character : Char} (ascii : character.toNat < 128) :
    String.utf8EncodeChar character = [UInt8.ofNat character.toNat] := by
  have small : character.val.toNat ≤ 127 := Nat.le_of_lt_succ ascii
  rw [String.utf8EncodeChar]
  exact if_pos small

theorem utf8Size_of_lt {character : Char} (ascii : character.toNat < 128) :
    character.utf8Size = 1 := by
  rw [← String.length_utf8EncodeChar, utf8EncodeChar_of_lt ascii, List.length_singleton]

theorem le_of_mem_utf8EncodeChar {character : Char} (beyond : 128 ≤ character.toNat)
    {byte : UInt8} (member : byte ∈ String.utf8EncodeChar character) : 128 ≤ byte.toNat := by
  have value : 128 ≤ character.val.toNat := beyond
  simp only [String.utf8EncodeChar] at member
  split at member
  · omega
  · split at member
    · simp only [List.mem_cons, List.not_mem_nil, or_false] at member
      rcases member with rfl | rfl <;> simp only [UInt8.toNat_ofNat'] <;> omega
    · split at member
      · simp only [List.mem_cons, List.not_mem_nil, or_false] at member
        rcases member with rfl | rfl | rfl <;> simp only [UInt8.toNat_ofNat'] <;> omega
      · simp only [List.mem_cons, List.not_mem_nil, or_false] at member
        rcases member with rfl | rfl | rfl | rfl <;> simp only [UInt8.toNat_ofNat'] <;> omega

theorem toNat_characterOf (byte : UInt8) : (characterOf byte).toNat = byte.toNat := by
  have bound := byte.toNat_lt
  have valid : byte.toNat.isValidChar := .inl (by omega)
  rw [characterOf, Char.ofNat, dif_pos valid]
  rfl

theorem characterOf_ofNat {character : Char} (ascii : character.toNat < 128) :
    characterOf (.ofNat character.toNat) = character := by
  have value : (UInt8.ofNat character.toNat).toNat = character.toNat := by
    rw [UInt8.toNat_ofNat']
    omega
  rw [characterOf, value, Char.ofNat_toNat]

theorem length_le_utf8Length (text : List Char) : text.length ≤ utf8Length text := by
  induction text with
  | nil => exact Nat.le_refl 0
  | cons first rest induction =>
    have positive := first.utf8Size_pos
    rw [List.length_cons, utf8Length_cons]
    omega

theorem utf8Length_eq_dropLast_add_one {text : List Char} (some : text ≠ [])
    (ascii : ∀ character ∈ text, character.toNat < 128) :
    utf8Length text = utf8Length text.dropLast + 1 := by
  have last := utf8Size_of_lt (ascii _ (List.getLast_mem some))
  have parts := congrArg utf8Length (List.dropLast_concat_getLast some)
  rw [utf8Length_append, utf8Length_cons, last, utf8Length_nil] at parts
  exact parts.symm

/-! ## ASCII characters -/

theorem onlyAscii_isBlank : OnlyAscii isBlank := by
  intro character blank
  simp only [isBlank, Bool.or_eq_true, beq_iff_eq] at blank
  rcases blank with (((rfl | rfl) | rfl) | rfl) | rfl <;> decide

theorem onlyAscii_isDigit : OnlyAscii Char.isDigit := by
  intro character digit
  unfold Char.isDigit at digit
  simp only [Bool.and_eq_true, decide_eq_true_eq, UInt32.le_iff_toNat_le, ge_iff_le] at digit
  change 48 ≤ character.toNat ∧ character.toNat ≤ 57 at digit
  omega

theorem onlyAscii_isWordStart : OnlyAscii isWordStart := by
  intro character start
  unfold isWordStart Char.isAlpha Char.isUpper Char.isLower at start
  simp only [Bool.or_eq_true, beq_iff_eq, Bool.and_eq_true, decide_eq_true_eq,
    UInt32.le_iff_toNat_le, ge_iff_le] at start
  rcases start with (upper | lower) | rfl
  · change 65 ≤ character.toNat ∧ character.toNat ≤ 90 at upper
    omega
  · change 97 ≤ character.toNat ∧ character.toNat ≤ 122 at lower
    omega
  · decide

theorem OnlyAscii.or {left right : Char → Bool} (one : OnlyAscii left) (other : OnlyAscii right) :
    OnlyAscii fun character => left character || right character := by
  intro character holds
  rcases Bool.or_eq_true_iff.mp holds with holds | holds
  · exact one _ holds
  · exact other _ holds

theorem onlyAscii_isWordPart : OnlyAscii isWordPart :=
  onlyAscii_isWordStart.or onlyAscii_isDigit

theorem onlyAscii_beq {character : Char} (ascii : 0 < character.toNat ∧ character.toNat < 128) :
    OnlyAscii (· == character) := by
  intro other same
  exact (beq_iff_eq.mp same) ▸ ascii

theorem onlyAscii_punctuation :
    OnlyAscii fun character => (punctuation.lookup character).isSome := by
  intro character found
  rcases Option.isSome_iff_exists.mp found with ⟨token, found⟩
  have member := mem_of_lookup found
  simp only [punctuation, List.mem_cons, Prod.mk.injEq, List.not_mem_nil, or_false] at member
  rcases member with ⟨rfl, -⟩ | ⟨rfl, -⟩ | ⟨rfl, -⟩ | ⟨rfl, -⟩ | ⟨rfl, -⟩ | ⟨rfl, -⟩ <;> decide

theorem OnlyAscii.eq_false_of_le {holds : Char → Bool} (ascii : OnlyAscii holds) {character : Char}
    (beyond : 128 ≤ character.toNat) : holds character = false :=
  Bool.eq_false_iff.mpr fun accepted => Nat.not_lt.mpr beyond (ascii _ accepted).2

theorem ByteClass.isAscii_ofCharacters {holds : Char → Bool} (ascii : OnlyAscii holds) :
    (ByteClass.ofCharacters holds).IsAscii := by
  intro byte _ accepted
  rw [← toNat_characterOf]
  exact ascii _ accepted

theorem ByteClass.onCharacters_ofCharacters {holds : Char → Bool} (ascii : OnlyAscii holds) :
    (ByteClass.ofCharacters holds).onCharacters = fun character _ => holds character := by
  funext character before
  rw [ByteClass.onCharacters, ByteClass.ofCharacters]
  by_cases small : character.toNat < 128
  · rw [decide_eq_true small, Bool.true_and, characterOf_ofNat small]
  · rw [decide_eq_false small, Bool.false_and, eq_comm, Bool.eq_false_iff]
    exact fun accepted => small (ascii _ accepted).2

theorem ByteClass.lt_of_onCharacters {accepts : ByteClass} {character : Char} {before : List Char}
    (accepted : accepts.onCharacters character before = true) : character.toNat < 128 := by
  rw [ByteClass.onCharacters, Bool.and_eq_true, decide_eq_true_eq] at accepted
  exact accepted.1

theorem lt_of_mem_acceptedRun {accepts : ByteClass} {accepted text : List Char} {character : Char}
    (member : character ∈ acceptedRun accepts.onCharacters accepted text) :
    character.toNat < 128 := by
  induction text generalizing accepted with
  | nil => cases member
  | cons first rest induction =>
    rw [acceptedRun] at member
    split at member
    · rename_i taken
      rcases List.mem_cons.mp member with rfl | later
      · exact ByteClass.lt_of_onCharacters taken
      · exact induction later
    · cases member

theorem acceptedRun_of_constant (holds : Char → Bool) (accepted text : List Char) :
    acceptedRun (fun character _ => holds character) accepted text = text.takeWhile holds := by
  induction text generalizing accepted with
  | nil => rfl
  | cons first rest induction => rw [acceptedRun, List.takeWhile_cons, induction]

/-! ## Bytes at a cursor -/

theorem Cursor.byteAt_eq (cursor : Cursor) (distance : Nat) :
    cursor.byteAt distance = (utf8Bytes cursor.rest)[distance]?.getD 0 := by
  rcases cursor with ⟨offset, text⟩
  change Cursor.byteAt.go text distance = (utf8Bytes text)[distance]?.getD 0
  induction text generalizing distance with
  | nil => rfl
  | cons first rest induction =>
    rw [Cursor.byteAt.go, utf8Bytes_cons]
    split
    · rename_i inside
      rw [List.getElem?_append_left (by rwa [String.length_utf8EncodeChar])]
    · rename_i outside
      rw [List.getElem?_append_right (by rw [String.length_utf8EncodeChar]; omega),
        String.length_utf8EncodeChar, induction]

theorem Cursor.byteAt_of_lt {offset : Nat} {first : Char} {rest : List Char}
    (ascii : first.toNat < 128) :
    Cursor.byteAt ⟨offset, first :: rest⟩ 0 = .ofNat first.toNat := by
  rw [Cursor.byteAt_eq, utf8Bytes_cons, utf8EncodeChar_of_lt ascii]
  rfl

theorem Cursor.le_byteAt {first : Char} (beyond : 128 ≤ first.toNat) (offset : Nat)
    (rest : List Char) : 128 ≤ (Cursor.byteAt ⟨offset, first :: rest⟩ 0).toNat := by
  have inside : 0 < (String.utf8EncodeChar first).length := by
    rw [String.length_utf8EncodeChar]
    exact first.utf8Size_pos
  rw [Cursor.byteAt_eq, utf8Bytes_cons, List.getElem?_append_left inside,
    List.getElem?_eq_getElem inside]
  exact le_of_mem_utf8EncodeChar beyond (List.getElem_mem inside)

theorem Cursor.byteAt_succ {offset : Nat} {first : Char} {rest : List Char}
    (ascii : first.toNat < 128) (distance : Nat) :
    Cursor.byteAt ⟨offset, first :: rest⟩ (distance + 1) =
      Cursor.byteAt ⟨offset + 1, rest⟩ distance := by
  rw [Cursor.byteAt_eq, Cursor.byteAt_eq, utf8Bytes_cons, utf8EncodeChar_of_lt ascii]
  rfl

theorem ByteClass.IsAscii.accepts_byteAt {accepts : ByteClass} (ascii : accepts.IsAscii)
    (offset : Nat) (text before : List Char) :
    accepts (Cursor.byteAt ⟨offset, text⟩ 0) (utf8Bytes before) =
      text.head?.any (accepts.onCharacters · before) := by
  cases text with
  | nil =>
    rw [List.head?_nil, Option.any_none, Bool.eq_false_iff]
    intro accepted
    exact absurd (ascii _ _ accepted).1 (Nat.lt_irrefl 0)
  | cons first rest =>
    rw [List.head?_cons, Option.any_some, ByteClass.onCharacters]
    by_cases small : first.toNat < 128
    · rw [Cursor.byteAt_of_lt small, decide_eq_true small, Bool.true_and]
    · rw [decide_eq_false small, Bool.false_and, Bool.eq_false_iff]
      intro accepted
      have beyond := Cursor.le_byteAt (Nat.le_of_not_lt small) offset rest
      have bound := (ascii _ _ accepted).2
      omega

theorem OnlyAscii.byteAt {holds : Char → Bool} (ascii : OnlyAscii holds) (offset : Nat)
    (text : List Char) :
    holds (characterOf (Cursor.byteAt ⟨offset, text⟩ 0)) = text.head?.any holds := by
  have same := (ByteClass.isAscii_ofCharacters ascii).accepts_byteAt offset text []
  rwa [ByteClass.onCharacters_ofCharacters ascii] at same

theorem Cursor.byteAt_beq {character : Char} (ascii : 0 < character.toNat ∧ character.toNat < 128)
    (offset : Nat) (text : List Char) :
    (characterOf (Cursor.byteAt ⟨offset, text⟩ 0) == character) =
      (text.head? == some character) := by
  refine ((onlyAscii_beq ascii).byteAt offset text).trans ?_
  cases text <;> rfl

/-! ## Places of a cursor -/

theorem Cursor.rest_advance_takeWhile (cursor : Cursor) (holds : Char → Bool) :
    (cursor.advance (cursor.rest.takeWhile holds)).rest = cursor.rest.dropWhile holds :=
  calc cursor.rest.drop (cursor.rest.takeWhile holds).length
    _ = (cursor.rest.takeWhile holds ++ cursor.rest.dropWhile holds).drop
        (cursor.rest.takeWhile holds).length := by rw [List.takeWhile_append_dropWhile]
    _ = cursor.rest.dropWhile holds := List.drop_left

theorem Cursor.offset_advance_append (cursor : Cursor) (first second : List Char) :
    (cursor.advance (first ++ second)).offset = ((cursor.advance first).advance second).offset := by
  simp only [Cursor.advance, utf8Length_append, Nat.add_assoc]

theorem Cursor.At.offset_add {source : String} {cursor : Cursor}
    (stands : cursor.At source.toList) :
    cursor.offset + utf8Length cursor.rest = source.utf8ByteSize := by
  rcases stands with ⟨before, split, offset⟩
  rw [utf8ByteSize_eq_utf8Length, split, utf8Length_append, offset]

theorem Cursor.At.offset_le {source : String} {cursor : Cursor} (stands : cursor.At source.toList) :
    cursor.offset ≤ source.utf8ByteSize :=
  stands.offset_add ▸ Nat.le_add_right _ _

theorem Cursor.At.isValid {source : String} {cursor : Cursor} (stands : cursor.At source.toList) :
    String.Pos.Raw.IsValid source ⟨cursor.offset⟩ := by
  rcases stands with ⟨before, split, offset⟩
  rw [String.Pos.Raw.isValid_iff_exists_append]
  refine ⟨String.ofList before, String.ofList cursor.rest, ?_, ?_⟩
  · rw [← String.ofList_append, ← split, String.ofList_toList]
  · rw [String.rawEndPos, utf8ByteSize_ofList, offset]

theorem Cursor.At.extract {source : String} {cursor : Cursor} {run : List Char}
    (stands : cursor.At source.toList) (here : run <+: cursor.rest)
    (starts : String.Pos.Raw.IsValid source ⟨cursor.offset⟩)
    (stops : String.Pos.Raw.IsValid source ⟨(cursor.advance run).offset⟩) :
    source.extract (source.pos _ starts) (source.pos _ stops) = String.ofList run := by
  rcases stands with ⟨before, split, offset⟩
  rcases here with ⟨after, whole⟩
  have bytes : source.toByteArray = (utf8Bytes before).toByteArray ++
      ((utf8Bytes run).toByteArray ++ (utf8Bytes after).toByteArray) := by
    rw [toByteArray_eq_utf8Bytes, split, ← whole, utf8Bytes_append, utf8Bytes_append,
      List.toByteArray_append, List.toByteArray_append]
  have front : cursor.offset = (utf8Bytes before).toByteArray.size := by
    rw [List.size_toByteArray, length_utf8Bytes, offset]
  have covered : utf8Length run = (utf8Bytes run).toByteArray.size := by
    rw [List.size_toByteArray, length_utf8Bytes]
  apply String.toByteArray_inj.mp
  rw [String.toByteArray_extract]
  calc source.toByteArray.extract (cursor.offset + 0) (cursor.offset + utf8Length run)
    _ = ((utf8Bytes run).toByteArray ++ (utf8Bytes after).toByteArray).extract 0
        (utf8Length run) := by
      rw [bytes, ByteArray.extract_append_size_add' front]
    _ = (utf8Bytes run).toByteArray := ByteArray.extract_append_eq_left covered
    _ = (String.ofList run).toByteArray := by
      rw [toByteArray_eq_utf8Bytes, String.toList_ofList]

end PatternClauses
