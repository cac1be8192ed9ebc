import PatternClauses.Proofs.Parsing.Language

/-!
# The names in a source

Which names of a source a pattern binds can be told from its lexemes alone: those that stand
outside of types, not behind a dot, and in front of neither a dot nor a parenthesis.  The reader
records exactly these, in the order of the source and with their places.
-/

namespace PatternClauses

def Token.isName : Token → Bool
  | .identifier _ => true
  | _ => false

/-- Where a lexeme stands: in a pattern, behind a dot, or in a type with `depth` of its parentheses
open. -/
inductive Place where
  | pattern
  | caseName
  | type (depth : Nat)
  deriving DecidableEq

/-- The place behind a token.  A type begins at a colon, `as` or `is` and ends where the item or the
list around it does. -/
def Place.after : Place → Token → Place
  | .type 0, .comma | .type 0, .rightParen => .pattern
  | .type (depth + 1), .rightParen => .type depth
  | .type depth, .leftParen => .type (depth + 1)
  | .type depth, _ => .type depth
  | _, .colon | _, .asKeyword | _, .isKeyword => .type 0
  | _, .dot => .caseName
  | _, _ => .pattern

/-- The name that a token binds in its place, in front of the next token. -/
def Place.boundName? : Place → Token → (next : Option Token) → Option String
  | .pattern, .identifier name, next =>
    if next = some .dot ∨ next = some .leftParen then none else some name
  | _, _, _ => none

def leavesFrom : Place → List Lexeme → List (String × Span)
  | _, [] => []
  | place, lexeme :: rest =>
    let later := leavesFrom (place.after lexeme.token) rest
    match place.boundName? lexeme.token (rest.head?.map (·.token)) with
    | some name => (name, lexeme.span) :: later
    | none => later

/-- The names that the lexemes of a pattern bind, with their spans, in the order of the source. -/
def leaves (lexemes : List Lexeme) : List (String × Span) := leavesFrom .pattern lexemes

example : leaves [⟨.identifier "x", ⟨0, 1⟩⟩, ⟨.colon, ⟨1, 2⟩⟩, ⟨.identifier "T", ⟨3, 4⟩⟩] =
    [("x", ⟨0, 1⟩)] := by
  decide

theorem Place.after_type {token : Token} (depth : Nat)
    (inner : token ≠ .comma ∧ token ≠ .leftParen ∧ token ≠ .rightParen) :
    (Place.type depth).after token = .type depth := by
  cases depth <;> cases token <;> first | rfl | simp at inner

def Place.IsEnd (place : Place) : Prop := place = .pattern ∨ place = .type 0

namespace Place.IsEnd

variable {place : Place}

theorem after_comma (isEnd : place.IsEnd) : place.after .comma = .pattern := by
  rcases isEnd with rfl | rfl <;> rfl

theorem after_rightParen (isEnd : place.IsEnd) : place.after .rightParen = .pattern := by
  rcases isEnd with rfl | rfl <;> rfl

theorem after_colon (isEnd : place.IsEnd) : place.after .colon = .type 0 := by
  rcases isEnd with rfl | rfl <;> rfl

theorem after_asKeyword (isEnd : place.IsEnd) : place.after .asKeyword = .type 0 := by
  rcases isEnd with rfl | rfl <;> rfl

end Place.IsEnd

namespace TokenStream

/-- The names recorded so far and, from a place on, those to come. -/
def allLeaves (stream : TokenStream) (place : Place) : List (String × Span) :=
  stream.bound.reverse ++ leavesFrom place stream.unread

theorem allLeaves_advance {stream : TokenStream} {token : Token}
    (next : stream.tokens.head? = some token) {place : Place}
    (binds : place.boundName? token stream.tokens[1]? = none) :
    stream.advance.allLeaves (place.after token) = stream.allLeaves place := by
  rcases List.head?_eq_some_iff.mp next with ⟨rest, here⟩
  rcases unread_of_tokens here with ⟨lexeme, behind, unread, rfl, rfl⟩
  have second : stream.tokens[1]? = behind.head?.map (·.token) := by
    rw [here, List.getElem?_cons_succ, ← List.head?_eq_getElem?, List.head?_map]
  rw [second] at binds
  simp only [allLeaves, advance, unread, leavesFrom, binds]

theorem allLeaves_advance_mark {stream : TokenStream} {token : Token}
    (next : stream.tokens.head? = some token) (mark : token.isName = false) (place : Place) :
    stream.advance.allLeaves (place.after token) = stream.allLeaves place := by
  apply allLeaves_advance next
  unfold Place.boundName?
  split
  · cases mark
  · rfl

theorem allLeaves_advance_outside {stream : TokenStream} {token : Token} {place : Place}
    (outside : place ≠ .pattern) (next : stream.tokens.head? = some token) :
    stream.advance.allLeaves (place.after token) = stream.allLeaves place := by
  apply allLeaves_advance next
  unfold Place.boundName?
  split
  · exact absurd rfl outside
  · rfl

end TokenStream

namespace Reader

open TokenStream Grammar

/-- From a place on, the reader leaves no name behind: what it does not record is still to come. -/
def Conserves (reader : Reader α) (before : Place) (ends : Place → Prop) : Prop :=
  ∀ start value stop, reader.run start = .ok value stop →
    ∃ after, ends after ∧ stop.allLeaves after = start.allLeaves before

theorem conserves_unexpected (expected : Expected) (before : Place) (ends : Place → Prop) :
    Conserves (unexpected expected : Reader α) before ends :=
  fun start value stop run => absurd run (unexpected_ne_ok expected start stop value)

/-! ## Lists in parentheses -/

section

variable {item : Reader α} {inside outside : Place} {ends : Place → Prop}

theorem conserves_items (conserves : Conserves item inside ends)
    (comma : ∀ place, ends place → place.after .comma = inside)
    (closes : ∀ place, ends place → place.after .rightParen = outside) (expected : Expected)
    (budget : Nat) : Conserves (items item expected budget) inside (· = outside) := by
  induction budget with
  | zero => exact conserves_unexpected _ _ _
  | succ budget induction =>
    intro start values stop run
    rw [items, bind_eq_ok_iff] at run
    rcases run with ⟨first, middle, one, run⟩
    rcases conserves _ _ _ one with ⟨place, ending, same⟩
    simp only [next?_bind] at run
    split at run
    · rename_i next
      simp only [advance_bind, next?_bind] at run
      have step := allLeaves_advance_mark next rfl place
      rw [comma place ending, same] at step
      split at run
      · exact absurd run (unexpected_ne_ok _ _ _ _)
      · rw [bind_eq_ok_iff] at run
        rcases run with ⟨rest, last, others, done⟩
        cases done
        rcases induction _ _ _ others with ⟨after, final, kept⟩
        exact ⟨after, final, kept.trans step⟩
    · rename_i next
      cases run
      have step := allLeaves_advance_mark next rfl place
      rw [closes place ending, same] at step
      exact ⟨outside, rfl, step⟩
    · exact absurd run (unexpected_ne_ok _ _ _ _)

theorem conserves_itemsOrNone (conserves : Conserves item inside ends)
    (comma : ∀ place, ends place → place.after .comma = inside)
    (closes : ∀ place, ends place → place.after .rightParen = outside) (begins : ends inside)
    (expected : Expected) : Conserves (itemsOrNone item expected) inside (· = outside) := by
  intro start values stop run
  simp only [itemsOrNone, next?_bind] at run
  split at run
  · rename_i next
    cases run
    have step := allLeaves_advance_mark next rfl inside
    rw [closes inside begins] at step
    exact ⟨outside, rfl, step⟩
  · rw [remaining_bind] at run
    exact conserves_items conserves comma closes expected _ _ _ _ run

end

/-! ## Types and expressions -/

theorem allLeaves_advance_type {stream : TokenStream} {token : Token} (depth : Nat)
    (next : stream.tokens.head? = some token)
    (inner : token ≠ .comma ∧ token ≠ .leftParen ∧ token ≠ .rightParen) :
    stream.advance.allLeaves (.type depth) = stream.allLeaves (.type depth) := by
  have outside : Place.type depth ≠ .pattern := fun same => by cases same
  have step := allLeaves_advance_outside outside next
  rwa [Place.after_type depth inner] at step

theorem conserves_path (first : String) (budget depth : Nat) :
    Conserves (path first budget) (.type depth) (· = .type depth) := by
  induction budget generalizing first with
  | zero =>
    intro start value stop run
    cases run
    exact ⟨_, rfl, rfl⟩
  | succ budget induction =>
    intro start value stop run
    simp only [path, peek?_bind] at run
    split at run
    · rename_i segment dot name
      rw [← List.head?_eq_getElem?] at dot
      rw [tokens_second] at name
      rcases induction _ _ _ _ run with ⟨_, rfl, kept⟩
      have overDot := allLeaves_advance_type depth dot (by simp)
      have overName := allLeaves_advance_type depth name (by simp)
      exact ⟨_, rfl, kept.trans (overName.trans overDot)⟩
    · cases run
      exact ⟨_, rfl, rfl⟩

theorem conserves_optionals (type : TypeExpr) (budget depth : Nat) :
    Conserves (optionals type budget) (.type depth) (· = .type depth) := by
  induction budget generalizing type with
  | zero =>
    intro start value stop run
    cases run
    exact ⟨_, rfl, rfl⟩
  | succ budget induction =>
    intro start value stop run
    simp only [optionals, next?_bind] at run
    split at run
    · rename_i mark
      rcases induction _ _ _ _ run with ⟨_, rfl, kept⟩
      exact ⟨_, rfl, kept.trans (allLeaves_advance_type depth mark (by simp))⟩
    · cases run
      exact ⟨_, rfl, rfl⟩

theorem conserves_typeWithin (budget depth : Nat) :
    Conserves (typeWithin budget) (.type depth) (· = .type depth) := by
  induction budget generalizing depth with
  | zero => exact conserves_unexpected _ _ _
  | succ budget induction =>
    intro start value stop run
    simp only [typeWithin, next?_bind] at run
    split at run
    · rename_i parenthesis
      rw [advance_bind, bind_eq_ok_iff] at run
      rcases run with ⟨types, middle, list, run⟩
      rw [remaining_bind] at run
      have opened := allLeaves_advance_mark parenthesis rfl (.type depth)
      have opens : (Place.type depth).after .leftParen = .type (depth + 1) := by cases depth <;> rfl
      rw [opens] at opened
      have inside : Conserves (itemsOrNone (typeWithin budget) .type) (.type (depth + 1))
          (· = .type depth) :=
        conserves_itemsOrNone (induction (depth + 1)) (fun _ same => by rw [same]; rfl)
          (fun _ same => by rw [same]; rfl) rfl .type
      rcases inside _ _ _ list with ⟨_, rfl, closed⟩
      rcases conserves_optionals _ _ depth _ _ _ run with ⟨_, rfl, behind⟩
      exact ⟨_, rfl, behind.trans (closed.trans opened)⟩
    · rename_i first name
      rw [advance_bind, remaining_bind, bind_eq_ok_iff] at run
      rcases run with ⟨whole, middle, names, run⟩
      rw [remaining_bind] at run
      have begun := allLeaves_advance_type depth name (by simp)
      rcases conserves_path _ _ depth _ _ _ names with ⟨_, rfl, passed⟩
      rcases conserves_optionals _ _ depth _ _ _ run with ⟨_, rfl, behind⟩
      exact ⟨_, rfl, behind.trans (passed.trans begun)⟩
    · exact absurd run (unexpected_ne_ok _ _ _ _)

theorem conserves_type (depth : Nat) : Conserves type (.type depth) (· = .type depth) := by
  intro start value stop run
  rw [type, remaining_bind] at run
  exact conserves_typeWithin _ _ _ _ _ run

theorem allLeaves_advance_literal {stream : TokenStream} {token : Token} {value : Expression}
    (next : stream.tokens.head? = some token) (literal : literal? token = some value) :
    stream.advance.allLeaves .pattern = stream.allLeaves .pattern := by
  have mark : token.isName = false := by cases token <;> first | rfl | cases literal
  have step := allLeaves_advance_mark next mark .pattern
  have behind : Place.pattern.after token = .pattern := by
    cases token <;> first | rfl | cases literal
  rwa [behind] at step

theorem conserves_unary (budget : Nat) : Conserves (unary budget) .pattern (· = .pattern) := by
  induction budget with
  | zero => exact conserves_unexpected _ _ _
  | succ budget induction =>
    intro start value stop run
    simp only [unary, next?_bind] at run
    split at run
    · rename_i minus
      rw [advance_bind, bind_eq_ok_iff] at run
      rcases run with ⟨operand, middle, inner, done⟩
      cases done
      rcases induction _ _ _ inner with ⟨_, rfl, kept⟩
      have passed := allLeaves_advance_mark minus rfl .pattern
      exact ⟨_, rfl, kept.trans passed⟩
    · rename_i token _ next
      split at run
      · rename_i literal
        cases run
        exact ⟨_, rfl, allLeaves_advance_literal next literal⟩
      · exact absurd run (unexpected_ne_ok _ _ _ _)
    · exact absurd run (unexpected_ne_ok _ _ _ _)

theorem conserves_upper {lower value : Expression} (closed : Bool) {start stop : TokenStream}
    (mark : start.tokens.head? = some (rangeToken closed))
    (run : (do advance; return .range lower (← unary (← remaining)) closed : Reader Expression).run
      start = .ok value stop) : stop.allLeaves .pattern = start.allLeaves .pattern := by
  rw [advance_bind, remaining_bind, bind_eq_ok_iff] at run
  rcases run with ⟨upper, last, second, done⟩
  cases done
  rcases conserves_unary _ _ _ _ second with ⟨_, rfl, behind⟩
  have passed := allLeaves_advance_mark mark (by cases closed <;> rfl) .pattern
  have after : Place.pattern.after (rangeToken closed) = .pattern := by cases closed <;> rfl
  rw [after] at passed
  exact behind.trans passed

theorem conserves_expression : Conserves expression .pattern (· = .pattern) := by
  intro start value stop run
  rw [expression, remaining_bind, bind_eq_ok_iff] at run
  rcases run with ⟨lower, middle, first, run⟩
  rcases conserves_unary _ _ _ _ first with ⟨_, rfl, kept⟩
  simp only [next?_bind] at run
  split at run
  · rename_i mark
    exact ⟨_, rfl, (conserves_upper true mark run).trans kept⟩
  · rename_i mark
    exact ⟨_, rfl, (conserves_upper false mark run).trans kept⟩
  · cases run
    exact ⟨_, rfl, kept⟩

/-! ## Patterns -/

theorem allLeaves_advance_pattern {stream : TokenStream} {token : Token}
    (next : stream.tokens.head? = some token) (mark : token.isName = false)
    (inner : token ≠ .colon ∧ token ≠ .asKeyword ∧ token ≠ .isKeyword ∧ token ≠ .dot) :
    stream.advance.allLeaves .pattern = stream.allLeaves .pattern := by
  have step := allLeaves_advance_mark next mark .pattern
  have after : Place.pattern.after token = .pattern := by
    cases token <;> first | rfl | simp at inner
  rwa [after] at step

theorem allLeaves_advance_caseName {stream : TokenStream} {name : String} {second : Token}
    (first : stream.tokens.head? = some (.identifier name))
    (next : stream.advance.tokens.head? = some second)
    (marks : second = .dot ∨ second = .leftParen) :
    stream.advance.allLeaves .pattern = stream.allLeaves .pattern := by
  have passes : Place.pattern.boundName? (.identifier name) stream.tokens[1]? = none := by
    rw [tokens_second, next]
    simp [Place.boundName?, marks]
  exact allLeaves_advance first passes

theorem allLeaves_advance_segment {stream : TokenStream} {name : String}
    (dot : stream.tokens.head? = some .dot)
    (segment : stream.advance.tokens.head? = some (.identifier name)) :
    stream.advance.advance.allLeaves .pattern = stream.allLeaves .pattern := by
  have overDot := allLeaves_advance_mark dot rfl .pattern
  have outside : Place.caseName ≠ .pattern := fun same => by cases same
  exact (allLeaves_advance_outside outside segment).trans overDot

theorem recorded_advance (stream : TokenStream) (name : String) (span : Span) :
    recorded stream.advance name span = (recorded stream name span).advance := by
  rcases stream with ⟨_ | ⟨lexeme, rest⟩, cursor, finish, bound⟩ <;> rfl

theorem allLeaves_recorded {stream : TokenStream} {name : String} {span : Span}
    {behind : List Lexeme} (unread : stream.unread = ⟨.identifier name, span⟩ :: behind)
    (binds : stream.tokens[1]? ≠ some .dot ∧ stream.tokens[1]? ≠ some .leftParen) :
    (recorded stream.advance name span).allLeaves .pattern = stream.allLeaves .pattern := by
  have second : stream.tokens[1]? = behind.head?.map (·.token) := by
    rw [tokens, unread, List.map_cons, List.getElem?_cons_succ, ← List.head?_eq_getElem?,
      List.head?_map]
  rw [second] at binds
  have leaf : Place.pattern.boundName? (.identifier name) (behind.head?.map (·.token)) =
      some name := by
    simp [Place.boundName?, binds]
  simp only [allLeaves, recorded, TokenStream.advance, unread, leavesFrom, leaf,
    List.reverse_cons, List.append_assoc, List.singleton_append]
  rfl

theorem run_bindName {mode : Mode} {name : String} {span : Span} {start stop : TokenStream}
    {pattern : Pattern} (run : (bindName mode name span).run start = .ok pattern stop) :
    stop = recorded start name span := by
  rw [bindName_of_free span (free_of_bindName run)] at run
  cases run
  rfl

theorem conserves_segments (budget : Nat) :
    Conserves (segments budget) .pattern (· = .pattern) := by
  induction budget with
  | zero =>
    intro start names stop run
    cases run
    exact ⟨_, rfl, rfl⟩
  | succ budget induction =>
    intro start names stop run
    simp only [segments, next?_bind] at run
    split at run
    · rename_i dot
      rw [advance_bind, bind_eq_ok_iff] at run
      rcases run with ⟨segment, middle, first, run⟩
      rcases name_eq_ok_iff.mp first with ⟨next, rfl⟩
      rw [bind_eq_ok_iff] at run
      rcases run with ⟨rest, last, others, done⟩
      cases done
      rcases induction _ _ _ others with ⟨_, rfl, kept⟩
      exact ⟨_, rfl, kept.trans (allLeaves_advance_segment dot next)⟩
    · cases run
      exact ⟨_, rfl, rfl⟩

section

variable {mode : Mode} {nested : Mode → Reader Pattern}

def NestedConserves (nested : Mode → Reader Pattern) : Prop :=
  ∀ mode, Conserves (nested mode) .pattern Place.IsEnd

theorem conserves_tuple (conserves : NestedConserves nested) :
    Conserves (itemsOrNone (nested mode) .pattern) .pattern (· = .pattern) :=
  conserves_itemsOrNone (conserves mode) (fun _ isEnd => isEnd.after_comma)
    (fun _ isEnd => isEnd.after_rightParen) (.inl rfl) .pattern

theorem conserves_enumCase (conserves : NestedConserves nested) (qualifier : Option String)
    (name : String) : Conserves (enumCase nested mode qualifier name) .pattern (· = .pattern) := by
  intro start pattern stop run
  simp only [enumCase, next?_bind] at run
  split at run
  · rename_i parenthesis
    rw [advance_bind, bind_eq_ok_iff] at run
    rcases run with ⟨items, middle, list, done⟩
    cases done
    rcases conserves_tuple conserves _ _ _ list with ⟨_, rfl, kept⟩
    exact ⟨_, rfl, kept.trans
      (allLeaves_advance_pattern parenthesis rfl (by simp))⟩
  · cases run
    exact ⟨_, rfl, rfl⟩

theorem conserves_named (conserves : NestedConserves nested) {name : String} {span : Span}
    {behind : List Lexeme} {start stop : TokenStream} {pattern : Pattern}
    (unread : start.unread = ⟨.identifier name, span⟩ :: behind)
    (run : (named nested mode name span).run start = .ok pattern stop) :
    stop.allLeaves .pattern = start.allLeaves .pattern := by
  have first := head?_of_unread unread
  simp only [named, peek?_bind] at run
  split at run
  · rename_i dot
    rw [tokens_second] at dot
    have run := of_allow_bind run
    rw [advance_bind, remaining_bind, bind_eq_ok_iff] at run
    rcases run with ⟨names, middle, more, run⟩
    rcases conserves_segments _ _ _ _ more with ⟨_, rfl, passed⟩
    rcases conserves_enumCase conserves _ _ _ _ _ run with ⟨_, rfl, payload⟩
    exact payload.trans (passed.trans (allLeaves_advance_caseName first dot (.inl rfl)))
  · rename_i parenthesis
    rw [tokens_second] at parenthesis
    have run := of_allow_bind run
    rw [advance_bind] at run
    rcases conserves_enumCase conserves _ _ _ _ _ run with ⟨_, rfl, payload⟩
    exact payload.trans (allLeaves_advance_caseName first parenthesis (.inr rfl))
  · rename_i mark
    have binds : start.tokens[1]? ≠ some .dot ∧ start.tokens[1]? ≠ some .leftParen := by
      rw [mark]
      simp
    have run := of_allow_bind run
    rw [advance_bind, advance_bind, bind_eq_ok_iff] at run
    rcases run with ⟨inner, middle, bound, done⟩
    cases done
    rw [run_bindName bound]
    rw [tokens_second] at mark
    rw [recorded_advance]
    have next : (recorded start.advance name span).tokens.head? = some .questionMark := mark
    have passed := allLeaves_advance_pattern next rfl (by simp)
    exact passed.trans (allLeaves_recorded unread binds)
  · rename_i noDot noParenthesis _
    rw [advance_bind] at run
    rw [run_bindName run]
    exact allLeaves_recorded unread ⟨noDot, noParenthesis⟩

theorem conserves_primary (conserves : NestedConserves nested) :
    Conserves (primary nested mode) .pattern Place.IsEnd := by
  intro start pattern stop run
  rw [primary, get_bind] at run
  cases unread : start.unread with
  | nil =>
    rw [unread] at run
    exact absurd run (unexpected_ne_ok _ _ _ _)
  | cons lexeme behind =>
    have next := head?_of_unread unread
    rw [unread] at run
    rcases lexeme with ⟨token, span⟩
    cases token with
    | letKeyword | varKeyword =>
      rcases conserves _ _ _ _ run with ⟨after, isEnd, kept⟩
      exact ⟨after, isEnd, kept.trans
        (allLeaves_advance_pattern next rfl (by simp))⟩
    | underscore =>
      cases run
      exact ⟨_, .inl rfl, allLeaves_advance_pattern next rfl (by simp)⟩
    | leftParen =>
      dsimp only at run
      rw [advance_bind, bind_eq_ok_iff] at run
      rcases run with ⟨items, middle, list, done⟩
      cases done
      rcases conserves_tuple conserves _ _ _ list with ⟨_, rfl, kept⟩
      exact ⟨_, .inl rfl, kept.trans
        (allLeaves_advance_pattern next rfl (by simp))⟩
    | dot =>
      have run := of_allow_bind run
      rw [advance_bind, bind_eq_ok_iff] at run
      rcases run with ⟨name, middle, first, run⟩
      rcases name_eq_ok_iff.mp first with ⟨word, rfl⟩
      rcases conserves_enumCase conserves _ _ _ _ _ run with ⟨_, rfl, payload⟩
      exact ⟨_, .inl rfl, payload.trans (allLeaves_advance_segment next word)⟩
    | identifier name => exact ⟨_, .inl rfl, conserves_named conserves unread run⟩
    | isKeyword =>
      have run := of_allow_bind run
      rw [advance_bind, bind_eq_ok_iff] at run
      rcases run with ⟨type, middle, inner, done⟩
      cases done
      rcases conserves_type 0 _ _ _ inner with ⟨_, rfl, kept⟩
      exact ⟨_, .inr rfl, kept.trans
        (allLeaves_advance_mark next rfl .pattern)⟩
    | integer | float | string | boolean | nilKeyword | minus =>
      have run := of_allow_bind run
      rw [bind_eq_ok_iff] at run
      rcases run with ⟨value, middle, inner, done⟩
      cases done
      rcases conserves_expression _ _ _ inner with ⟨_, rfl, kept⟩
      exact ⟨_, .inl rfl, kept⟩
    | _ => exact absurd run (unexpected_ne_ok _ _ _ _)

theorem conserves_annotated (conserves : NestedConserves nested) :
    Conserves (annotated nested mode) .pattern Place.IsEnd := by
  intro start pattern stop run
  rw [annotated, bind_eq_ok_iff] at run
  rcases run with ⟨inner, middle, first, run⟩
  rcases conserves_primary conserves _ _ _ first with ⟨place, isEnd, kept⟩
  simp only [next?_bind] at run
  split at run
  · rename_i colon
    rw [advance_bind, bind_eq_ok_iff] at run
    rcases run with ⟨type, last, second, done⟩
    cases done
    rcases conserves_type 0 _ _ _ second with ⟨_, rfl, annotation⟩
    have passed := allLeaves_advance_mark colon rfl place
    rw [isEnd.after_colon] at passed
    exact ⟨_, .inr rfl, annotation.trans (passed.trans kept)⟩
  · cases run
    exact ⟨place, isEnd, kept⟩

theorem conserves_casts (budget : Nat) {pattern answer : Pattern} {start stop : TokenStream}
    {before : Place} (isEnd : before.IsEnd)
    (run : (casts mode pattern budget).run start = .ok answer stop) :
    ∃ after : Place, after.IsEnd ∧ stop.allLeaves after = start.allLeaves before := by
  induction budget generalizing pattern start before with
  | zero =>
    cases run
    exact ⟨before, isEnd, rfl⟩
  | succ budget induction =>
    simp only [casts, next?_bind] at run
    split at run
    · rename_i word
      have run := of_allow_bind run
      rw [advance_bind, bind_eq_ok_iff] at run
      rcases run with ⟨type, middle, first, run⟩
      rcases conserves_type 0 _ _ _ first with ⟨_, rfl, target⟩
      have passed := allLeaves_advance_mark word rfl before
      rw [isEnd.after_asKeyword] at passed
      rcases induction (.inr rfl) run with ⟨after, ending, kept⟩
      exact ⟨after, ending, kept.trans (target.trans passed)⟩
    · cases run
      exact ⟨before, isEnd, rfl⟩

end

theorem conserves_patternWithin (depth : Nat) : NestedConserves (patternWithin depth) := by
  induction depth with
  | zero => exact fun mode => conserves_unexpected _ _ _
  | succ depth induction =>
    intro mode start pattern stop run
    rw [patternWithin, bind_eq_ok_iff] at run
    rcases run with ⟨inner, middle, first, run⟩
    rw [remaining_bind] at run
    rcases conserves_annotated induction _ _ _ first with ⟨place, isEnd, kept⟩
    rcases conserves_casts _ isEnd run with ⟨after, ending, behind⟩
    exact ⟨after, ending, behind.trans kept⟩

theorem bound_of_whole {mode : Mode} {lexemes : List Lexeme} {pattern : Pattern}
    {stop : TokenStream} (run : (wholeIn mode).run (.ofLexemes lexemes) = .ok pattern stop) :
    stop.bound.reverse = leaves lexemes ∧ (leaves lexemes).map (·.1) = pattern.bindings := by
  rcases wholeIn_run_eq_ok_iff.mp run with ⟨run, none⟩
  rw [patternIn_run] at run
  rcases conserves_patternWithin _ _ _ _ _ run with ⟨after, -, kept⟩
  rcases reads_patternWithin _ _ _ _ _ run with ⟨taken, takes, -, -⟩
  have recorded : stop.bound.reverse = leaves lexemes := by
    rw [allLeaves, List.map_eq_nil_iff.mp none, leavesFrom, List.append_nil] at kept
    exact kept
  have names : stop.boundNames = pattern.bindings.reverse := by
    rw [takes.names]
    exact List.append_nil _
  refine ⟨recorded, ?_⟩
  rw [← recorded, List.map_reverse, ← boundNames, names, List.reverse_reverse]

end Reader

end PatternClauses
