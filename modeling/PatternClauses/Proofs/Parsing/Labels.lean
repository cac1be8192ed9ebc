import PatternClauses.Proofs.Lexing.Tiling
import PatternClauses.Proofs.Parsing.Failures

/-!
# Where labels point to

The labels of an error are runs of whole characters of the source, or stand at its end.  What the
parser refuses are lexemes, which tile the source.  What the lexer refuses begins at a cursor that
it comes to over blanks and tokens.  At one such cursor the label lies outside of the source: two
dots that nothing follows should be a range, and the character behind them is missing.
-/

namespace PatternClauses

/-- The span lies in the source and divides none of its characters. -/
structure Span.Within (source : String) (span : Span) : Prop where
  bound : span.start + span.length ≤ source.utf8ByteSize
  starts : String.Pos.Raw.IsValid source ⟨span.start⟩
  stops : String.Pos.Raw.IsValid source ⟨span.start + span.length⟩

theorem within_of_append (before covered after : String) :
    Span.Within (before ++ covered ++ after)
      ⟨before.utf8ByteSize, before.utf8ByteSize + covered.utf8ByteSize⟩ := by
  have length : Span.length ⟨before.utf8ByteSize, before.utf8ByteSize + covered.utf8ByteSize⟩ =
      covered.utf8ByteSize := Nat.add_sub_cancel_left ..
  refine ⟨?_, ?_, ?_⟩
  · rw [length, String.utf8ByteSize_append, String.utf8ByteSize_append]
    exact Nat.le_add_right _ _
  · rw [String.Pos.Raw.isValid_iff_exists_append]
    exact ⟨before, covered ++ after, String.append_assoc, rfl⟩
  · rw [length, String.Pos.Raw.isValid_iff_exists_append]
    refine ⟨before ++ covered, after, rfl, ?_⟩
    simp [String.rawEndPos]

theorem Span.Within.finish {source : String} {span : Span} (within : span.Within source)
    (ordered : span.start ≤ span.stop) : Span.Within source ⟨span.stop, span.stop⟩ := by
  have stop : span.start + span.length = span.stop := Nat.add_sub_cancel' ordered
  have nothing : Span.length ⟨span.stop, span.stop⟩ = 0 := Nat.sub_self _
  rcases within with ⟨bound, -, stops⟩
  rw [stop] at bound stops
  exact ⟨by rwa [nothing], stops, by rwa [nothing]⟩

theorem within_start (source : String) : Span.Within source ⟨0, 0⟩ := by
  have within := within_of_append "" "" source
  rwa [String.empty_append, String.empty_append] at within

/-! ## Labels of the lexer -/

/-- The lexer comes from one cursor to another over blanks and tokens. -/
inductive LexesTo : Cursor → Cursor → Prop
  | here : LexesTo cursor cursor
  | blank : isBlank first = true → LexesTo ⟨offset + first.utf8Size, rest⟩ stop →
      LexesTo ⟨offset, first :: rest⟩ stop
  | token : Scans first rest token (first :: run) →
      LexesTo ⟨offset + utf8Length (first :: run), rest.drop run.length⟩ stop →
      LexesTo ⟨offset, first :: rest⟩ stop

theorem LexesTo.at {source : List Char} {start stop : Cursor} (lexes : LexesTo start stop)
    (stands : start.At source) : stop.At source := by
  induction lexes with
  | here => exact stands
  | @blank first offset rest _ _ _ induction =>
    apply induction
    have next : (Cursor.advance ⟨offset, first :: rest⟩ [first]).At source :=
      stands.advance ⟨rest, rfl⟩
    rwa [Cursor.advance, utf8Length_cons, utf8Length_nil, Nat.add_zero] at next
  | @token first rest token run offset _ scans _ induction =>
    apply induction
    have next : (Cursor.advance ⟨offset, first :: rest⟩ (first :: run)).At source :=
      stands.advance ⟨_, scans.text_eq.symm⟩
    exact next

theorem Cursor.At.within {source : String} {cursor : Cursor} (stands : cursor.At source.toList)
    {front run after : List Char} (rest : cursor.rest = front ++ run ++ after) :
    Span.Within source ⟨cursor.offset + utf8Length front,
      cursor.offset + utf8Length front + utf8Length run⟩ := by
  rcases stands with ⟨before, split, offset⟩
  have within := within_of_append (String.ofList (before ++ front)) (String.ofList run)
    (String.ofList after)
  have whole : String.ofList (before ++ front) ++ String.ofList run ++ String.ofList after =
      source := by
    rw [← String.ofList_append, ← String.ofList_append, ← String.ofList_toList (s := source), split,
      rest]
    simp only [List.append_assoc]
  rwa [whole, utf8ByteSize_ofList, utf8ByteSize_ofList, utf8Length_append, ← offset] at within

theorem lexesTo_of_lexFrom {budget offset : Nat} {text : List Char} {error : LexError}
    (refused : lexFrom budget ⟨offset, text⟩ = .error error) (enough : text.length ≤ budget) :
    ∃ place first rest, LexesTo ⟨offset, text⟩ ⟨place, first :: rest⟩ ∧ isBlank first = false ∧
      scan place first rest = .error error := by
  induction budget generalizing offset text with
  | zero => cases refused
  | succ budget budgetInduction =>
    induction text generalizing offset with
    | nil => cases refused
    | cons first rest induction =>
      by_cases blank : isBlank first = true
      · rw [lexFrom_blank blank] at refused
        rcases induction refused (Nat.le_of_succ_le enough) with ⟨place, next, more, lexes, found⟩
        exact ⟨place, next, more, .blank blank lexes, found⟩
      · have solid := Bool.eq_false_iff.mpr blank
        rw [lexFrom_token solid] at refused
        cases taken : scan offset first rest with
        | error reason =>
          rw [taken] at refused
          cases refused
          exact ⟨offset, first, rest, .here, solid, taken⟩
        | ok scanned =>
          rcases scanned with ⟨token, run⟩
          have scans := scans_of_scan taken
          rcases scans.run with ⟨run, rfl, -⟩
          simp only [taken, Bind.bind, Except.bind] at refused
          split at refused
          · rename_i reason behind
            cases refused
            have room : (rest.drop run.length).length ≤ budget := by
              rw [List.length_cons] at enough
              rw [List.length_drop]
              omega
            rcases budgetInduction behind room with ⟨place, next, more, lexes, found⟩
            exact ⟨place, next, more, .token scans lexes, found⟩
          · cases refused

theorem lexFrom_of_lexesTo {budget place : Nat} {start : Cursor} {first : Char} {rest : List Char}
    {error : LexError} (lexes : LexesTo start ⟨place, first :: rest⟩)
    (solid : isBlank first = false) (refused : scan place first rest = .error error)
    (enough : start.rest.length ≤ budget) : lexFrom budget start = .error error := by
  generalize stopped : (⟨place, first :: rest⟩ : Cursor) = stop at lexes
  induction lexes generalizing budget with
  | here =>
    subst stopped
    cases budget with
    | zero => cases enough
    | succ budget =>
      rw [lexFrom_token solid, refused]
      rfl
  | blank blank _ induction =>
    cases budget with
    | zero => cases enough
    | succ budget =>
      rw [lexFrom_blank blank]
      exact induction (Nat.le_of_succ_le enough) stopped
  | @token first rest token run offset _ scans _ induction =>
    cases budget with
    | zero => cases enough
    | succ budget =>
      have room : (rest.drop run.length).length ≤ budget := by
        rw [List.length_cons] at enough
        rw [List.length_drop]
        omega
      have taken := scan_of_scans offset scans
      have behind := induction room stopped
      rw [lexFrom_token (solid_of_scan taken), taken]
      simp only [Bind.bind, Except.bind]
      rw [List.length_cons, List.drop_succ_cons, behind]

theorem lex_eq_error_iff {source : String} {error : LexError} : lex source = .error error ↔
    ∃ offset first rest, LexesTo (.start source) ⟨offset, first :: rest⟩ ∧
      isBlank first = false ∧ scan offset first rest = .error error := by
  have enough : source.toList.length ≤ source.length := Nat.le_of_eq String.length_toList
  constructor
  · exact fun refused => lexesTo_of_lexFrom refused enough
  · rintro ⟨offset, first, rest, lexes, solid, refused⟩
    exact lexFrom_of_lexesTo lexes solid refused enough

def LexError.LiesIn (error : LexError) (offset : Nat) (text : List Char) : Prop :=
  ∃ front run after label, text = front ++ run ++ after ∧ error.diagnostic.labels = [label] ∧
    label.span = ⟨offset + utf8Length front, offset + utf8Length front + utf8Length run⟩

variable {offset : Nat} {error : LexError}

theorem liesIn_of_number {text : List Char} (refused : scanNumber offset text = .error error) :
    error.LiesIn offset text := by
  have integer (large : scanNumber.integer offset (text.takeWhile Char.isDigit) = .error error) :
      error.LiesIn offset text := by
    rw [scanNumber.integer] at large
    split at large
    · cases large
    · cases large
      exact ⟨[], _, _, _, List.takeWhile_append_dropWhile.symm, rfl, rfl⟩
  rw [scanNumber.eq_def] at refused
  split at refused
  · split at refused
    · cases refused
    · exact integer refused
  · exact integer refused

theorem liesIn_of_string {rest : List Char} (refused : scanString offset rest = .error error) :
    error.LiesIn offset ('"' :: rest) := by
  rw [scanString] at refused
  split at refused
  · cases refused
  · cases refused
    refine ⟨[], '"' :: rest, [], _, (List.append_nil _).symm, rfl, ?_⟩
    rw [utf8Length_cons, ← Nat.add_assoc]
    rfl

theorem liesIn_of_dot {rest : List Char} (refused : scanDot offset rest = .error error)
    (more : rest ≠ ['.']) : error.LiesIn offset ('.' :: rest) := by
  rw [scanDot.eq_def] at refused
  split at refused
  · cases refused
  · cases refused
  · rename_i behind _ _
    cases refused
    cases behind with
    | nil => exact absurd rfl more
    | cons next behind => exact ⟨['.', '.'], [next], behind, _, rfl, rfl, rfl⟩
  · cases refused

theorem liesIn_of_scan {first : Char} {rest : List Char}
    (refused : scan offset first rest = .error error) (more : first :: rest ≠ ['.', '.']) :
    error.LiesIn offset (first :: rest) := by
  rw [scan] at refused
  split at refused
  · cases refused
  · split at refused
    · exact liesIn_of_number refused
    · split at refused
      · rename_i quote
        exact quote ▸ liesIn_of_string refused
      · split at refused
        · rename_i dot
          subst dot
          exact liesIn_of_dot refused fun same => more (congrArg _ same)
        · split at refused
          · cases refused
          · cases refused
            exact ⟨[], [first], rest, _, rfl, rfl, rfl⟩

/-- The lexer comes to two dots that end the source. -/
def BreaksOffRange (source : String) : Prop := ∃ offset, LexesTo (.start source) ⟨offset, ['.', '.']⟩

theorem lex_of_breaksOffRange {source : String} (breaksOff : BreaksOffRange source) :
    lex source = .error (.unexpectedCharacter .rangeEnd (Char.ofNat 0) source.utf8ByteSize) := by
  rcases breaksOff with ⟨offset, lexes⟩
  rcases lexes.at (Cursor.at_start source) with ⟨before, split, place⟩
  have finish : source.utf8ByteSize = offset + 2 := by
    rw [utf8ByteSize_eq_utf8Length, split, utf8Length_append, ← place]
    rfl
  rw [lex_eq_error_iff, finish]
  exact ⟨offset, '.', ['.'], lexes, rfl, rfl⟩

theorem within_of_lex {source : String} (refused : lex source = .error error)
    (complete : ¬ BreaksOffRange source) :
    ∀ label ∈ error.diagnostic.labels, label.span.Within source := by
  rcases lex_eq_error_iff.mp refused with ⟨offset, first, rest, lexes, -, refused⟩
  have more : first :: rest ≠ ['.', '.'] := by
    intro same
    rw [same] at lexes
    exact complete ⟨offset, lexes⟩
  rcases liesIn_of_scan refused more with ⟨front, run, after, label, split, labels, span⟩
  rw [labels, List.forall_mem_singleton, span]
  exact (lexes.at (Cursor.at_start source)).within split

/-! ## Labels of the parser -/

theorem PointsAt.span {lexemes : List Lexeme} {cursor : Nat} {error : ParseError}
    {labels : List Label} (points : PointsAt lexemes cursor error labels) :
    ∀ label ∈ labels, (∃ lexeme ∈ lexemes, label.span = lexeme.span) ∨
      label.span = ⟨sourceEnd lexemes, sourceEnd lexemes⟩ := by
  cases points with
  | token found | form found =>
    rw [List.forall_mem_singleton]
    exact .inl ⟨_, List.mem_of_getElem? found, rfl⟩
  | finish =>
    rw [List.forall_mem_singleton]
    exact .inr rfl
  | @name before after name first second front _ earlier =>
    have member {lexeme : Lexeme} (here : lexeme ∈ before ++ ⟨.identifier name, second⟩ :: after) :
        lexeme ∈ lexemes := by
      rw [← front] at here
      exact List.mem_of_mem_take here
    rw [List.forall_mem_cons, List.forall_mem_singleton]
    exact ⟨.inl ⟨_, member (List.mem_append_left _ earlier), rfl⟩,
      .inl ⟨_, member (List.mem_append_right _ List.mem_cons_self), rfl⟩⟩

theorem within_of_tiles {source : String} {lexemes : List Lexeme}
    (tiles : Tiles 0 source.toList lexemes) :
    ∀ lexeme ∈ lexemes, lexeme.span.Within source ∧ lexeme.span.start ≤ lexeme.span.stop := by
  intro lexeme member
  have whole : "" ++ String.ofList source.toList = source := by
    rw [String.empty_append, String.ofList_toList]
  rcases whole ▸ tiles.tile rfl lexeme member with ⟨before, covered, after, tile⟩
  refine ⟨?_, Nat.le_of_lt tile.nonempty⟩
  have span : lexeme.span =
      ⟨before.utf8ByteSize, before.utf8ByteSize + covered.utf8ByteSize⟩ := by
    rw [← tile.stop_eq, ← tile.start_eq]
  rw [span, tile.source_eq]
  exact within_of_append before covered after

theorem within_sourceEnd {source : String} {lexemes : List Lexeme}
    (tiles : Tiles 0 source.toList lexemes) :
    Span.Within source ⟨sourceEnd lexemes, sourceEnd lexemes⟩ := by
  rw [sourceEnd]
  cases last : lexemes.getLast? with
  | none => exact within_start source
  | some lexeme =>
    rcases within_of_tiles tiles lexeme (List.mem_of_getLast? last) with ⟨within, ordered⟩
    exact within.finish ordered

theorem within_of_parse {context : PatternContext} {source : String} {error : ParseError}
    (refused : Pattern.parse context source = .error error) (complete : ¬ BreaksOffRange source) :
    ∀ label ∈ error.diagnostic.labels, label.span.Within source := by
  unfold Pattern.parse Pattern.parseIn at refused
  split at refused
  · rename_i lexemes read
    have tiles := lex_eq_ok_iff_tiles.mp read
    rcases Reader.answer_eq_error_iff.mp refused with ⟨stop, run⟩
    have settled := Reader.settled_wholeIn (Reader.modeOf context) (TokenStream.at_ofLexemes lexemes)
    rw [run] at settled
    intro label member
    rcases settled.2.span label member with ⟨lexeme, inside, same⟩ | same
    · exact same ▸ (within_of_tiles tiles lexeme inside).1
    · exact same ▸ within_sourceEnd tiles
  · rename_i reason read
    cases refused
    exact within_of_lex read complete

theorem parse_of_breaksOffRange (context : PatternContext) {source : String}
    (breaksOff : BreaksOffRange source) : Pattern.parse context source =
      .error (.lexical (.unexpectedCharacter .rangeEnd (Char.ofNat 0) source.utf8ByteSize)) := by
  rw [Pattern.parse, Pattern.parseIn, lex_of_breaksOffRange breaksOff]

/-- The labels of an error point into the source, except for a source that ends in two dots: it is
reported one byte past its end. -/
theorem Pattern.parse_labels_within_iff (context : PatternContext) (source : String)
    (error : ParseError) (refused : parse context source = .error error) :
    ((∀ label ∈ error.diagnostic.labels, label.span.Within source) ↔ ¬ BreaksOffRange source) ∧
    (BreaksOffRange source →
      error.diagnostic.labels.map (·.span) = [⟨source.utf8ByteSize, source.utf8ByteSize + 1⟩]) := by
  have past (breaksOff : BreaksOffRange source) :
      error.diagnostic.labels.map (·.span) =
        [⟨source.utf8ByteSize, source.utf8ByteSize + 1⟩] := by
    rw [parse_of_breaksOffRange context breaksOff] at refused
    cases refused
    rfl
  refine ⟨⟨fun within breaksOff => ?_, within_of_parse refused⟩, past⟩
  rcases List.map_eq_singleton_iff.mp (past breaksOff) with ⟨label, labels, span⟩
  rw [labels, List.forall_mem_singleton, span] at within
  have bound : source.utf8ByteSize + (source.utf8ByteSize + 1 - source.utf8ByteSize) ≤
      source.utf8ByteSize := within.bound
  omega

/-- In `"é` the string begins at the quote and ends with the source, behind a character of two
bytes. -/
theorem Pattern.labels_within_of_unclosed_quote :
    let source := "\"é"
    let error : ParseError := .lexical (.unterminatedString ⟨0, 3⟩)
    parse .full source = .error error ∧ ¬ BreaksOffRange source ∧
      ∀ label ∈ error.diagnostic.labels, label.span.Within source := by
  intro source error
  have refused : parse .full source = .error error := by decide +kernel
  have within := parse_labels_within_iff .full source error refused
  have complete : ¬ BreaksOffRange source := by
    intro breaksOff
    have spans := within.2 breaksOff
    revert spans
    decide
  exact ⟨refused, complete, within.1.mpr complete⟩

/-- In `1..` the label lies behind the third byte, the last one. -/
theorem Pattern.label_past_end : ∃ error, parse .full "1.." = .error error ∧
    ∃ label ∈ error.diagnostic.labels,
      "1..".utf8ByteSize < label.span.start + label.span.length :=
  ⟨.lexical (.unexpectedCharacter .rangeEnd (Char.ofNat 0) 3), by rfl, _, List.mem_cons_self,
    by decide⟩

end PatternClauses
