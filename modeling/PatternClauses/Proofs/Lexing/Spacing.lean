import Mathlib.Data.List.Infix
import Mathlib.Logic.Relation
import PatternClauses.Proofs.Lexing.Spelling
import PatternClauses.Proofs.Lexing.Tiling

/-!
# Spacing

A token is read from its own characters as long as what follows does not go on with it, and a blank
goes on with no token.  So texts with blanks between them are read one after the other, and a text
can be cut wherever no token is cut; between the tokens the blanks may be other ones.
-/

namespace PatternClauses

/-! ## What follows a token -/

/-- What follows the token neither goes on with it nor takes it for the beginning of a range. -/
structure Ends (token : Token) (after : List Char) : Prop extends Stops token after where
  dot : token = .dot → after.head? ≠ some '.'

/-- The text goes on with no token in front of it. -/
def Separates (text : List Char) : Prop :=
  ∀ first, text.head? = some first → isWordPart first = false ∧ first ≠ '.'

theorem separates_nil : Separates [] := nofun

theorem separates_cons {first : Char} (mark : isWordPart first = false) (other : first ≠ '.')
    (rest : List Char) : Separates (first :: rest) := by
  rintro _ ⟨⟩
  exact ⟨mark, other⟩

theorem separates_blank {first : Char} (blank : isBlank first = true) (rest : List Char) :
    Separates (first :: rest) := by
  simp only [isBlank, Bool.or_eq_true, beq_iff_eq] at blank
  rcases blank with (((rfl | rfl) | rfl) | rfl) | rfl <;> exact separates_cons rfl (by decide) rest

theorem not_isDigit_of_not_isWordPart {character : Char} (mark : isWordPart character = false) :
    character.isDigit = false := by
  rw [isWordPart, Bool.or_eq_false_iff] at mark
  exact mark.2

theorem ends_of_separates (token : Token) {after : List Char} (separates : Separates after) :
    Ends token after where
  word _ next head := (separates next head).1
  number _ next head := not_isDigit_of_not_isWordPart (separates next head).1
  point _ _ _ _ same := absurd rfl (separates '.' (congrArg List.head? same)).2
  dot _ head := (separates '.' head).2 rfl

theorem Ends.append {token : Token} {after more : List Char} (ends : Ends token after)
    (separates : Separates more) : Ends token (after ++ more) := by
  cases after with
  | nil => exact ends_of_separates token separates
  | cons first after =>
    refine ⟨⟨ends.word, ends.number, fun value same digit rest point => ?_⟩, ends.dot⟩
    rw [List.cons_append, List.cons.injEq] at point
    rcases point with ⟨rfl, behind⟩
    cases after with
    | nil => exact not_isDigit_of_not_isWordPart (separates digit (congrArg List.head? behind)).1
    | cons second after =>
      rw [List.cons_append, List.cons.injEq] at behind
      exact ends.point value same digit after (by rw [behind.1])

theorem Ends.front {token : Token} {after more : List Char} (ends : Ends token (after ++ more)) :
    Ends token after := by
  cases after with
  | nil => exact ends_of_separates token separates_nil
  | cons first after =>
    refine ⟨⟨ends.word, ends.number, fun value same digit rest point => ?_⟩, ends.dot⟩
    exact ends.point value same digit (rest ++ more) (congrArg (· ++ more) point)

theorem Scans.ends {first : Char} {rest run after : List Char} {token : Token}
    (scans : Scans first rest token run) (split : first :: rest = run ++ after) :
    Ends token after := by
  refine ⟨scans.stops split, fun same => ?_⟩
  cases scans with
  | word =>
    have isWord := Token.isWord_ofWord (String.ofList run)
    rw [same] at isWord
    cases isWord
  | number _ _ numbers =>
    have isNumber := numbers.isNumber
    rw [same] at isNumber
    cases isNumber
  | string | closedRange | halfOpenRange => cases same
  | dot noDot =>
    rw [List.singleton_append, List.cons.injEq] at split
    exact split.2 ▸ noDot
  | mark found =>
    have each : ∀ pair ∈ punctuation, pair.2 ≠ .dot := by decide
    exact absurd same (each _ found)

/-! ## A token in front of what ends it -/

theorem Numbers.of_stops {run after : List Char} {token : Token} (numbers : Numbers run token run)
    (stops : Stops token after) : Numbers (run ++ after) token run := by
  generalize own : token = given at numbers
  cases numbers with
  | integer whole _ small =>
    have digits := List.takeWhile_eq_self_iff.mp whole
    have ends := stops.number (by rw [own]; rfl)
    refine .integer (takeWhile_append digits ends) ?_ small
    intro digit more point
    rw [List.dropWhile_append_of_pos digits] at point
    cases after with
    | nil => cases point
    | cons first after =>
      rw [List.dropWhile_cons_of_neg (by simp [ends first rfl])] at point
      exact stops.point _ own digit more point
  | float whole point digit fraction =>
    exact (Numbers.float whole point digit fraction).float_append
      (stops.number (by rw [own]; rfl))

theorem Scans.of_ends {first : Char} {run after : List Char} {token : Token}
    (alone : Scans first run token (first :: run)) (ends : Ends token after) :
    Scans first (run ++ after) token (first :: run) := by
  generalize own : token = given at alone
  generalize whole : first :: run = spelled at alone
  cases alone with
  | word start word =>
    have parts : ∀ part ∈ first :: run, isWordPart part = true := by
      rw [whole, ← word]
      exact fun part => List.mem_takeWhile_imp
    have stops := ends.word (by rw [own]; exact Token.isWord_ofWord _)
    subst whole
    exact .word start (takeWhile_append parts stops)
  | number noWord digit numbers =>
    subst whole own
    exact .number noWord digit (numbers.of_stops ends.toStops)
  | string closed =>
    rw [List.append_assoc]
    exact .string closed
  | closedRange =>
    cases whole
    exact .closedRange
  | halfOpenRange =>
    cases whole
    exact .halfOpenRange
  | dot =>
    cases whole
    exact .dot (ends.dot own)
  | mark found =>
    cases whole
    exact .mark found

theorem Scans.append {first : Char} {rest run more : List Char} {token : Token}
    (scans : Scans first rest token (first :: run)) (separates : Separates more) :
    Scans first (rest ++ more) token (first :: run) := by
  have ends := (scans.ends scans.text_eq).append separates
  have longer := scans.alone.of_ends ends
  have split : rest = run ++ rest.drop run.length := (List.cons.inj scans.text_eq).2
  have whole : rest ++ more = run ++ (rest.drop run.length ++ more) := by
    rw [← List.append_assoc, ← split]
  rw [whole]
  exact longer

theorem Scans.front {first : Char} {rest run more : List Char} {token : Token}
    (scans : Scans first (rest ++ more) token (first :: run)) (within : run <+: rest) :
    Scans first rest token (first :: run) := by
  rcases within with ⟨after, rfl⟩
  have ends : Ends token (after ++ more) := scans.ends (by simp)
  exact scans.alone.of_ends ends.front

/-! ## Texts one after the other -/

theorem Tiles.append {offset : Nat} {front rest : List Char} {first second : List Lexeme}
    (tiles : Tiles offset front first) (separates : Separates rest)
    (behind : Tiles (offset + utf8Length front) rest second) :
    Tiles offset (front ++ rest) (first ++ second) := by
  induction tiles with
  | done => exact behind
  | blank blank _ induction =>
    rw [utf8Length_cons, ← Nat.add_assoc] at behind
    exact .blank blank (induction behind)
  | @token head text token run offset lexemes scans _ induction =>
    rcases scans.run with ⟨_, same, inside⟩
    cases same
    have later := congrArg utf8Length scans.text_eq
    rw [utf8Length_append] at later
    rw [later, ← Nat.add_assoc] at behind
    apply Tiles.token (scans.append separates)
    rw [List.drop_append_of_le_length inside.length_le]
    exact induction behind

theorem Lexes.append {front rest : List Char} {tokens behind : List Token}
    (lexes : Lexes front tokens) (separates : Separates rest) (later : Lexes rest behind) :
    Lexes (front ++ rest) (tokens ++ behind) := by
  rcases lexes.exists_tiles 0 with ⟨first, tiles, rfl⟩
  rcases later.exists_tiles (0 + utf8Length front) with ⟨second, more, rfl⟩
  rw [← List.map_append]
  exact (tiles.append separates more).lexes

theorem tiles_blanks_iff {gap rest : List Char} (blank : ∀ character ∈ gap, isBlank character = true)
    {offset : Nat} {lexemes : List Lexeme} :
    Tiles offset (gap ++ rest) lexemes ↔ Tiles (offset + utf8Length gap) rest lexemes := by
  induction gap generalizing offset with
  | nil => exact Iff.rfl
  | cons first gap induction =>
    rw [List.forall_mem_cons] at blank
    rw [utf8Length_cons, ← Nat.add_assoc, ← induction blank.2]
    refine ⟨fun tiles => ?_, .blank blank.1⟩
    cases tiles with
    | blank _ behind => exact behind
    | token scans =>
      have solid := solid_of_scan (scan_of_scans 0 scans)
      rw [blank.1] at solid
      cases solid

def Lexeme.movedBy (bytes : Nat) (lexeme : Lexeme) : Lexeme :=
  ⟨lexeme.token, ⟨bytes + lexeme.span.start, bytes + lexeme.span.stop⟩⟩

theorem token_movedBy (bytes : Nat) (lexemes : List Lexeme) :
    (lexemes.map (·.movedBy bytes)).map (·.token) = lexemes.map (·.token) := by
  rw [List.map_map]
  rfl

theorem Tiles.movedBy {offset : Nat} {text : List Char} {lexemes : List Lexeme}
    (tiles : Tiles offset text lexemes) (bytes : Nat) :
    Tiles (bytes + offset) text (lexemes.map (·.movedBy bytes)) := by
  induction tiles with
  | done => exact .done
  | blank blank _ induction => exact .blank blank (Nat.add_assoc bytes _ _ ▸ induction)
  | token scans _ induction =>
    rw [← Nat.add_assoc] at induction
    have moved := Tiles.token scans induction
    rwa [Nat.add_assoc] at moved

/-! ## Cutting between tokens -/

theorem prefix_of_utf8Length_le {left right text : List Char} (one : left <+: text)
    (other : right <+: text) (shorter : utf8Length left ≤ utf8Length right) : left <+: right := by
  rcases List.prefix_or_prefix_of_prefix one other with here | ⟨more, rfl⟩
  · exact here
  · cases more with
    | nil =>
      rw [List.append_nil]
    | cons first more =>
      have bytes := first.utf8Size_pos
      rw [utf8Length_append, utf8Length_cons] at shorter
      omega

theorem Tiles.cut {offset : Nat} {front rest : List Char} {lexemes : List Lexeme}
    (tiles : Tiles offset (front ++ rest) lexemes)
    (between : ∀ lexeme ∈ lexemes, lexeme.span.stop ≤ offset + utf8Length front ∨
      offset + utf8Length front ≤ lexeme.span.start) :
    ∃ first second, lexemes = first ++ second ∧ Tiles offset front first ∧
      Tiles (offset + utf8Length front) rest second := by
  generalize whole : front ++ rest = text at tiles
  -- On the tiles of the whole text; the front part gets shorter with each blank or token.
  induction tiles generalizing front with
  | done =>
    rcases List.append_eq_nil_iff.mp whole with ⟨rfl, rfl⟩
    exact ⟨[], [], rfl, .done, .done⟩
  | @blank head offset text lexemes blank behind induction =>
    cases front with
    | nil =>
      cases whole
      exact ⟨[], lexemes, rfl, .done, .blank blank behind⟩
    | cons _ front =>
      cases whole
      rw [utf8Length_cons, ← Nat.add_assoc] at between ⊢
      rcases induction between rfl with ⟨first, second, rfl, before, after⟩
      exact ⟨first, second, rfl, .blank blank before, after⟩
  | @token head text token run offset lexemes scans behind induction =>
    cases front with
    | nil =>
      cases whole
      exact ⟨[], _, rfl, .done, .token scans behind⟩
    | cons _ front =>
      cases whole
      rw [List.forall_mem_cons] at between
      have inside : run <+: front := by
        rcases scans.run with ⟨_, same, taken⟩
        cases same
        apply prefix_of_utf8Length_le taken (List.prefix_append _ _)
        have bytes := head.utf8Size_pos
        have stop := between.1
        simp only [utf8Length_cons] at stop
        omega
      rcases inside with ⟨front, rfl⟩
      have drops : (run ++ front ++ rest).drop run.length = front ++ rest := by
        rw [List.append_assoc, List.drop_left]
      have bytes : offset + utf8Length (head :: (run ++ front)) =
          offset + utf8Length (head :: run) + utf8Length front := by
        simp only [utf8Length_cons, utf8Length_append]
        omega
      rw [bytes] at between ⊢
      rcases induction between.2 drops.symm with ⟨first, second, rfl, before, after⟩
      have scanned := scans.front (List.prefix_append run front)
      have dropped : (run ++ front).drop run.length = front := List.drop_left
      exact ⟨_ :: first, second, rfl, .token scanned (dropped.symm ▸ before), after⟩

/-! ## Other blanks -/

/-- The second source has other blanks at one place between tokens of the first, where that has
blanks or none. -/
inductive Respaces : String → String → Prop
  | replace {front gap other back : String} {lexemes : List Lexeme} :
      lex (front ++ gap ++ back) = .ok lexemes →
      (∀ lexeme ∈ lexemes, lexeme.span.stop ≤ front.utf8ByteSize ∨
        front.utf8ByteSize + gap.utf8ByteSize ≤ lexeme.span.start) →
      (∀ character ∈ gap.toList, isBlank character = true) →
      (∀ character ∈ other.toList, isBlank character = true) → other ≠ "" →
      Respaces (front ++ gap ++ back) (front ++ other ++ back)

theorem lex_spaced {front gap back : String} {first second : List Lexeme}
    (one : lex front = .ok first) (two : lex back = .ok second) (nonempty : gap ≠ "")
    (blank : ∀ character ∈ gap.toList, isBlank character = true) :
    lex (front ++ gap ++ back) =
      .ok (first ++ second.map (·.movedBy (front ++ gap).utf8ByteSize)) := by
  rw [lex_eq_ok_iff_tiles] at one two ⊢
  have separates : Separates (gap.toList ++ back.toList) := by
    cases letters : gap.toList with
    | nil => exact absurd (String.toList_eq_nil_iff.mp letters) nonempty
    | cons head rest => exact separates_blank (blank head (letters ▸ .head _)) _
  have moved := two.movedBy (front ++ gap).utf8ByteSize
  rw [utf8ByteSize_eq_utf8Length, String.toList_append, utf8Length_append, Nat.add_zero] at moved
  rw [utf8ByteSize_eq_utf8Length, String.toList_append, String.toList_append, List.append_assoc,
    utf8Length_append]
  apply one.append separates
  rw [Nat.zero_add]
  exact (tiles_blanks_iff blank).mpr moved

theorem lex_cut {front gap back : String} {lexemes : List Lexeme}
    (read : lex (front ++ gap ++ back) = .ok lexemes)
    (between : ∀ lexeme ∈ lexemes, lexeme.span.stop ≤ front.utf8ByteSize ∨
      front.utf8ByteSize + gap.utf8ByteSize ≤ lexeme.span.start)
    (blank : ∀ character ∈ gap.toList, isBlank character = true) :
    ∃ first second, lex front = .ok first ∧ lex back = .ok second ∧
      lexemes.map (·.token) = first.map (·.token) ++ second.map (·.token) := by
  rw [lex_eq_ok_iff_tiles, String.toList_append, String.toList_append, List.append_assoc] at read
  have apart : ∀ lexeme ∈ lexemes, lexeme.span.stop ≤ 0 + utf8Length front.toList ∨
      0 + utf8Length front.toList ≤ lexeme.span.start := by
    intro lexeme member
    rw [Nat.zero_add, ← utf8ByteSize_eq_utf8Length]
    have place := between lexeme member
    omega
  rcases read.cut apart with ⟨first, later, rfl, before, after⟩
  have behind := (tiles_blanks_iff blank).mp after
  rcases behind.lexes.exists_tiles 0 with ⟨second, tiles, same⟩
  refine ⟨first, second, lex_eq_ok_iff_tiles.mpr before, lex_eq_ok_iff_tiles.mpr tiles, ?_⟩
  rw [List.map_append, same]

theorem Respaces.lex {source respaced : String} (respaces : Respaces source respaced) :
    ∃ lexemes others, PatternClauses.lex source = .ok lexemes ∧
      PatternClauses.lex respaced = .ok others ∧
      others.map (·.token) = lexemes.map (·.token) := by
  cases respaces with
  | replace read between blank other nonempty =>
    rcases lex_cut read between blank with ⟨first, second, one, two, same⟩
    refine ⟨_, _, read, lex_spaced one two nonempty other, ?_⟩
    rw [List.map_append, token_movedBy, same]

/-- Two sources with blanks between them are read one after the other: first the tokens of the one,
in their places, then those of the other, further on by all the bytes in front of it.  And a source
keeps its tokens when the blanks between them are exchanged or blanks are put between them, at any
number of places. -/
theorem lex_across_blanks :
    (∀ (front gap back : String) (first second : List Lexeme),
      lex front = .ok first → lex back = .ok second → gap ≠ "" →
      (∀ character ∈ gap.toList, isBlank character = true) →
        lex (front ++ gap ++ back) =
          .ok (first ++ second.map (·.movedBy (front ++ gap).utf8ByteSize))) ∧
    ∀ (source respaced : String) (lexemes : List Lexeme),
      lex source = .ok lexemes → Relation.ReflTransGen Respaces source respaced →
        ∃ others, lex respaced = .ok others ∧ others.map (·.token) = lexemes.map (·.token) := by
  refine ⟨fun _ _ _ _ _ => lex_spaced, fun source respaced lexemes read steps => ?_⟩
  induction steps with
  | refl => exact ⟨lexemes, read, rfl⟩
  | tail _ step induction =>
    rcases induction with ⟨middle, here, same⟩
    rcases step.lex with ⟨given, others, again, there, alike⟩
    cases here.symm.trans again
    exact ⟨others, there, alike.trans same⟩

/-- The point at the end of the first source does not make a float of the digit behind it, and the
blank inside the string stays as it is. -/
theorem lex_across_blanks_of_point :
    let first : List Lexeme := [⟨.identifier "x", ⟨0, 1⟩⟩, ⟨.integer 1, ⟨2, 3⟩⟩, ⟨.dot, ⟨3, 4⟩⟩]
    let second : List Lexeme := [⟨.integer 5, ⟨0, 1⟩⟩, ⟨.string "a b", ⟨1, 6⟩⟩]
    let moved : List Lexeme := [⟨.integer 5, ⟨6, 7⟩⟩, ⟨.string "a b", ⟨7, 12⟩⟩]
    lex "x 1." = .ok first ∧ lex "5\"a b\"" = .ok second ∧
      lex "x 1.\n 5\"a b\"" = .ok (first ++ moved) ∧
      Respaces "x 1.\n 5\"a b\"" "x 1.\n 5\t\"a b\"" ∧
      ∃ others, lex "x 1.\n 5\t\"a b\"" = .ok others ∧
        others.map (·.token) = (first ++ moved).map (·.token) := by
  intro first second moved
  have one : lex "x 1." = .ok first := by rfl
  have two : lex "5\"a b\"" = .ok second := by rfl
  have gap : ∀ character ∈ "\n ".toList, isBlank character = true := List.all_eq_true.mp rfl
  have tab : ∀ character ∈ "\t".toList, isBlank character = true := List.all_eq_true.mp rfl
  have both := lex_across_blanks.1 "x 1." "\n " "5\"a b\"" first second one two (by decide) gap
  have respaces : Respaces ("x 1.\n 5" ++ "" ++ "\"a b\"") ("x 1.\n 5" ++ "\t" ++ "\"a b\"") :=
    .replace both (by decide +kernel) nofun tab (by decide)
  exact ⟨one, two, both, respaces, lex_across_blanks.2 _ _ _ both (.single respaces)⟩

end PatternClauses
