import PatternClauses.Proofs.Parsing.Duplicates

/-!
# Where reading stops

A reader that fails leaves the stream where it stopped, and its error is about that place: a token
that does not belong there stands right behind the cursor, the end of the source is reported only
at the end, and a name is refused as a second binding when it is the last name that was read.  The
proof follows a stream through the list of lexemes it began with, whether a run succeeds or fails.
-/

namespace PatternClauses

def sourceEnd (lexemes : List Lexeme) : Nat := (lexemes.getLast?.map (·.span.stop)).getD 0

namespace TokenStream

/-- The stream stands in a list of lexemes: what lies behind its cursor is unread. -/
structure At (lexemes : List Lexeme) (stream : TokenStream) : Prop where
  within : stream.cursor ≤ lexemes.length
  unread : stream.unread = lexemes.drop stream.cursor
  finish : stream.finish = sourceEnd lexemes

/-- The names recorded with their spans are lexemes in front of the cursor. -/
structure Traced (lexemes : List Lexeme) (stream : TokenStream) : Prop
    extends At lexemes stream where
  bound : ∀ entry ∈ stream.bound, ⟨.identifier entry.1, entry.2⟩ ∈ lexemes.take stream.cursor

variable {lexemes : List Lexeme} {stream : TokenStream}

theorem at_ofLexemes (lexemes : List Lexeme) : At lexemes (ofLexemes lexemes) :=
  ⟨Nat.zero_le _, rfl, rfl⟩

theorem At.traced (stands : At lexemes stream) : Traced lexemes { stream with bound := [] } where
  toAt := ⟨stands.within, stands.unread, stands.finish⟩
  bound _ member := absurd member List.not_mem_nil

theorem At.head (stands : At lexemes stream) {lexeme : Lexeme} {rest : List Lexeme}
    (unread : stream.unread = lexeme :: rest) :
    lexemes[stream.cursor]? = some lexeme ∧ stream.cursor < lexemes.length := by
  have next : lexemes[stream.cursor]? = some lexeme := by
    rw [← List.head?_drop, ← stands.unread, unread, List.head?_cons]
  rw [List.getElem?_eq_some_iff] at next
  rcases next with ⟨inside, same⟩
  exact ⟨List.getElem?_eq_some_iff.mpr ⟨inside, same⟩, inside⟩

theorem At.cursor_of_nothing (stands : At lexemes stream) (nothing : stream.unread = []) :
    stream.cursor = lexemes.length := by
  have beyond := stands.unread.symm.trans nothing
  rw [List.drop_eq_nil_iff] at beyond
  exact Nat.le_antisymm stands.within beyond

theorem At.take_advance (stands : At lexemes stream) {lexeme : Lexeme} {rest : List Lexeme}
    (unread : stream.unread = lexeme :: rest) :
    lexemes.take stream.advance.cursor = lexemes.take stream.cursor ++ [lexeme] := by
  have moved : stream.advance.cursor = stream.cursor + 1 := by rw [advance, unread]
  rw [moved, List.take_add_one, (stands.head unread).1, Option.toList_some]

theorem At.advance (stands : At lexemes stream) : At lexemes stream.advance := by
  unfold TokenStream.advance
  cases unread : stream.unread with
  | nil => exact stands
  | cons lexeme rest =>
    refine ⟨(stands.head unread).2, ?_, stands.finish⟩
    rw [← List.drop_drop, ← stands.unread, unread]
    rfl

theorem Traced.advance (traced : Traced lexemes stream) : Traced lexemes stream.advance where
  toAt := traced.toAt.advance
  bound := by
    cases unread : stream.unread with
    | nil =>
      rw [TokenStream.advance, unread]
      exact traced.bound
    | cons lexeme rest =>
      rw [traced.take_advance unread]
      intro entry member
      rw [TokenStream.advance, unread] at member
      exact List.mem_append_left _ (traced.bound entry member)

end TokenStream

/-- The error and its labels are about the place of the cursor in the lexemes. -/
inductive PointsAt (lexemes : List Lexeme) (cursor : Nat) : ParseError → List Label → Prop
  | token : lexemes[cursor]? = some found →
      PointsAt lexemes cursor (.unexpectedToken expected found)
        [⟨"Unexpected token: " ++ found.token.describe, found.span⟩]
  | form : lexemes[cursor]? = some found →
      PointsAt lexemes cursor (.illegalForm form found.span)
        [⟨"Refutable " ++ form.text ++ " is not allowed in a binding", found.span⟩]
  | finish : cursor = lexemes.length →
      PointsAt lexemes cursor (.unexpectedEnd expected (sourceEnd lexemes))
        [⟨"Unexpected end of pattern", ⟨sourceEnd lexemes, sourceEnd lexemes⟩⟩]
  /-- The second place is that of the last name in front of the cursor. -/
  | name : lexemes.take cursor = before ++ ⟨.identifier name, second⟩ :: after →
      (∀ lexeme ∈ after, lexeme.token.isName = false) →
      ⟨.identifier name, first⟩ ∈ before →
      PointsAt lexemes cursor (.duplicateBinding ⟨name, some (first, second)⟩)
        [⟨"First bound here", first⟩, ⟨"Bound again here", second⟩]

namespace Reader

open TokenStream

/-- However a run ends, the stream stands in the lexemes, and an error points at its cursor. -/
def Settled (lexemes : List Lexeme) : EStateM.Result ParseError TokenStream α → Prop
  | .ok _ stop => Traced lexemes stop
  | .error error stop =>
    Traced lexemes stop ∧ PointsAt lexemes stop.cursor error error.diagnostic.labels

def Settles (lexemes : List Lexeme) (reader : Reader α) : Prop :=
  ∀ start, Traced lexemes start → Settled lexemes (reader.run start)

variable {lexemes : List Lexeme}

theorem Settled.bind {reader : Reader α} {next : α → Reader β} {start : TokenStream}
    (first : Settled lexemes (reader.run start)) (rest : ∀ value, Settles lexemes (next value)) :
    Settled lexemes ((reader >>= next).run start) := by
  cases run : reader.run start with
  | ok value middle =>
    rw [bind_of_ok _ run]
    rw [run] at first
    exact rest value middle first
  | error error stop =>
    rw [bind_of_error _ run]
    rwa [run] at first

theorem Settles.bind {reader : Reader α} {next : α → Reader β} (first : Settles lexemes reader)
    (rest : ∀ value, Settles lexemes (next value)) : Settles lexemes (reader >>= next) :=
  fun start traced => (first start traced).bind rest

theorem settles_pure (value : α) : Settles lexemes (pure value : Reader α) :=
  fun _ traced => traced

theorem settles_unexpected (expected : Expected) :
    Settles lexemes (unexpected expected : Reader α) := by
  intro start traced
  rw [unexpected, get_bind]
  cases unread : start.unread with
  | nil =>
    refine ⟨traced, ?_⟩
    rw [traced.finish]
    exact .finish (traced.cursor_of_nothing unread)
  | cons lexeme rest => exact ⟨traced, .token (traced.head unread).1⟩

theorem settled_allow_bind {mode : Mode} {form : RefutableForm} {next : Unit → Reader α}
    {start : TokenStream} {token : Token} (traced : Traced lexemes start)
    (here : start.tokens.head? = some token) (rest : Settled lexemes ((next ()).run start)) :
    Settled lexemes ((allow mode form >>= next).run start) := by
  rcases List.head?_eq_some_iff.mp here with ⟨behind, tokens⟩
  rcases unread_of_tokens tokens with ⟨lexeme, _, unread, -, -⟩
  cases context : mode.context with
  | full =>
    have allowed : (allow mode form).run start = .ok () start := by
      rw [allow, get_bind, context]
      rfl
    rwa [bind_of_ok _ allowed]
  | bindingOnly =>
    have refused : (allow mode form).run start =
        .error (.illegalForm form lexeme.span) start := by
      rw [allow, get_bind, context, unread]
      rfl
    rw [bind_of_error _ refused]
    exact ⟨traced, .form (traced.head unread).1⟩

theorem settles_name (expected : Expected) : Settles lexemes (name expected) := by
  intro start traced
  simp only [name, next?_bind]
  split
  · exact traced.advance
  · exact settles_unexpected _ _ traced

/-! ## Lists in parentheses -/

section

variable {item : Reader α}

theorem settles_items (settles : Settles lexemes item) (expected : Expected) (budget : Nat) :
    Settles lexemes (items item expected budget) := by
  induction budget with
  | zero => exact settles_unexpected _
  | succ budget induction =>
    apply settles.bind
    intro first middle traced
    simp only [next?_bind]
    split
    · simp only [advance_bind, next?_bind]
      split
      · exact settles_unexpected _ _ traced.advance
      · exact induction.bind (fun rest => settles_pure _) _ traced.advance
    · exact traced.advance
    · exact settles_unexpected _ _ traced

theorem settles_itemsOrNone (settles : Settles lexemes item) (expected : Expected) :
    Settles lexemes (itemsOrNone item expected) := by
  intro start traced
  simp only [itemsOrNone, next?_bind]
  split
  · exact traced.advance
  · exact settles_items settles expected _ _ traced

end

/-! ## Types and expressions -/

theorem settles_path (first : String) (budget : Nat) : Settles lexemes (path first budget) := by
  induction budget generalizing first with
  | zero => exact settles_pure _
  | succ budget induction =>
    intro start traced
    simp only [path, peek?_bind]
    split
    · exact induction _ _ traced.advance.advance
    · exact traced

theorem settles_optionals (type : TypeExpr) (budget : Nat) :
    Settles lexemes (optionals type budget) := by
  induction budget generalizing type with
  | zero => exact settles_pure _
  | succ budget induction =>
    intro start traced
    simp only [optionals, next?_bind]
    split
    · exact induction _ _ traced.advance
    · exact traced

theorem settles_typeWithin (depth : Nat) : Settles lexemes (typeWithin depth) := by
  induction depth with
  | zero => exact settles_unexpected _
  | succ depth induction =>
    intro start traced
    simp only [typeWithin, next?_bind]
    split
    · rw [advance_bind]
      apply (settles_itemsOrNone induction .type).bind _ _ traced.advance
      intro types middle traced
      rw [remaining_bind]
      exact settles_optionals _ _ _ traced
    · rw [advance_bind, remaining_bind]
      apply (settles_path _ _).bind _ _ traced.advance
      intro whole middle traced
      rw [remaining_bind]
      exact settles_optionals _ _ _ traced
    · exact settles_unexpected _ _ traced

theorem settles_type : Settles lexemes type := by
  intro start traced
  rw [type, remaining_bind]
  exact settles_typeWithin _ _ traced

theorem settles_unary (budget : Nat) : Settles lexemes (unary budget) := by
  induction budget with
  | zero => exact settles_unexpected _
  | succ budget induction =>
    intro start traced
    simp only [unary, next?_bind]
    split
    · exact induction.bind (fun operand => settles_pure _) _ traced.advance
    · split
      · exact traced.advance
      · exact settles_unexpected _ _ traced
    · exact settles_unexpected _ _ traced

theorem settles_expression : Settles lexemes expression := by
  intro start traced
  rw [expression, remaining_bind]
  apply (settles_unary _).bind _ _ traced
  intro lower middle traced
  have upper (closed : Bool) : Settles lexemes
      (do return .range lower (← unary (← remaining)) closed : Reader Expression) := by
    intro start traced
    rw [remaining_bind]
    exact (settles_unary _).bind (fun upper => settles_pure _) _ traced
  simp only [next?_bind]
  split
  · exact upper true _ traced.advance
  · exact upper false _ traced.advance
  · exact traced

/-! ## Patterns -/

theorem settled_bindName (mode : Mode) {name : String} {span : Span} {start : TokenStream}
    (stands : At lexemes start) {before after : List Lexeme}
    (front : lexemes.take start.cursor = before ++ ⟨.identifier name, span⟩ :: after)
    (last : ∀ lexeme ∈ after, lexeme.token.isName = false)
    (bound : ∀ entry ∈ start.bound, ⟨.identifier entry.1, entry.2⟩ ∈ before) :
    Settled lexemes ((bindName mode name span).run start) := by
  have traced : Traced lexemes start := by
    refine ⟨stands, fun entry member => ?_⟩
    rw [front]
    exact List.mem_append_left _ (bound entry member)
  rw [bindName, get_bind]
  split
  · rename_i first _ found
    exact ⟨traced, .name front last (bound _ (mem_of_lookup found))⟩
  · have noted : Traced lexemes (recorded start name span) := by
      refine ⟨⟨stands.within, stands.unread, stands.finish⟩, fun entry member => ?_⟩
      rcases List.mem_cons.mp member with rfl | earlier
      · have here : lexemes.take (recorded start name span).cursor = lexemes.take start.cursor := rfl
        rw [here, front]
        exact List.mem_append_right _ List.mem_cons_self
      · exact traced.bound entry earlier
    rw [modify_bind]
    cases mode.mutability <;> exact noted

theorem settles_segments (budget : Nat) : Settles lexemes (segments budget) := by
  induction budget with
  | zero => exact settles_pure _
  | succ budget induction =>
    intro start traced
    simp only [segments, next?_bind]
    split
    · rw [advance_bind]
      apply (settles_name _).bind _ _ traced.advance
      intro segment
      exact induction.bind fun rest => settles_pure _
    · exact traced

section

variable {mode : Mode} {nested : Mode → Reader Pattern}

def NestedSettles (lexemes : List Lexeme) (nested : Mode → Reader Pattern) : Prop :=
  ∀ mode, Settles lexemes (nested mode)

theorem settles_enumCase (settles : NestedSettles lexemes nested) (qualifier : Option String)
    (name : String) : Settles lexemes (enumCase nested mode qualifier name) := by
  intro start traced
  simp only [enumCase, next?_bind]
  split
  · rw [advance_bind]
    exact (settles_itemsOrNone (settles mode) .pattern).bind (fun items => settles_pure _) _
      traced.advance
  · exact traced

theorem settled_named (settles : NestedSettles lexemes nested) {name : String} {span : Span}
    {start : TokenStream} {rest : List Lexeme} (traced : Traced lexemes start)
    (unread : start.unread = ⟨.identifier name, span⟩ :: rest) :
    Settled lexemes ((named nested mode name span).run start) := by
  have here := head?_of_unread unread
  have passed := traced.take_advance unread
  have bound : start.advance.bound = start.bound := by rw [TokenStream.advance, unread]
  simp only [named, peek?_bind]
  rw [tokens_second]
  split
  · apply settled_allow_bind traced here
    rw [advance_bind, remaining_bind]
    exact (settles_segments _).bind (fun names => settles_enumCase settles _ _) _ traced.advance
  · apply settled_allow_bind traced here
    exact settles_enumCase settles _ _ _ traced.advance
  · rename_i mark
    apply settled_allow_bind traced here
    rw [advance_bind, advance_bind]
    rcases List.head?_eq_some_iff.mp mark with ⟨_, tokens⟩
    rcases unread_of_tokens tokens with ⟨sign, behind, second, isMark, -⟩
    have both : lexemes.take start.advance.advance.cursor =
        lexemes.take start.cursor ++ ⟨.identifier name, span⟩ :: [sign] := by
      rw [traced.toAt.advance.take_advance second, passed, List.append_assoc]
      rfl
    have kept : start.advance.advance.bound = start.bound := by
      rw [TokenStream.advance, second, bound]
    have nameless : ∀ lexeme ∈ [sign], lexeme.token.isName = false := by
      simp [isMark, Token.isName]
    apply Settled.bind _ fun leaf => settles_pure _
    apply settled_bindName mode traced.toAt.advance.advance both nameless
    rw [kept]
    exact traced.bound
  · apply settled_bindName mode traced.toAt.advance passed (List.forall_mem_nil _)
    rw [bound]
    exact traced.bound

theorem settles_primary (settles : NestedSettles lexemes nested) :
    Settles lexemes (primary nested mode) := by
  intro start traced
  rw [primary, get_bind]
  cases unread : start.unread with
  | nil => exact settles_unexpected _ _ traced
  | cons lexeme rest =>
    have here := head?_of_unread unread
    rcases lexeme with ⟨token, span⟩
    cases token with
    | letKeyword | varKeyword => exact settles _ _ traced.advance
    | underscore => exact traced.advance
    | leftParen =>
      exact (settles_itemsOrNone (settles mode) .pattern).bind (fun items => settles_pure _) _
        traced.advance
    | dot =>
      apply settled_allow_bind traced here
      exact (settles_name _).bind (fun name => settles_enumCase settles _ _) _ traced.advance
    | identifier name => exact settled_named settles traced unread
    | isKeyword =>
      apply settled_allow_bind traced here
      exact settles_type.bind (fun type => settles_pure _) _ traced.advance
    | integer | float | string | boolean | nilKeyword | minus =>
      apply settled_allow_bind traced here
      exact settles_expression.bind (fun value => settles_pure _) _ traced
    | _ => exact settles_unexpected _ _ traced

theorem settles_annotated (settles : NestedSettles lexemes nested) :
    Settles lexemes (annotated nested mode) := by
  apply (settles_primary settles).bind
  intro pattern middle traced
  simp only [next?_bind]
  split
  · exact settles_type.bind (fun type => settles_pure _) _ traced.advance
  · exact traced

theorem settles_casts (pattern : Pattern) (budget : Nat) :
    Settles lexemes (casts mode pattern budget) := by
  induction budget generalizing pattern with
  | zero => exact settles_pure _
  | succ budget induction =>
    intro start traced
    simp only [casts, next?_bind]
    split
    · rename_i word
      apply settled_allow_bind traced word
      exact settles_type.bind (fun type => induction _) _ traced.advance
    · exact traced

end

theorem settles_patternWithin (depth : Nat) : NestedSettles lexemes (patternWithin depth) := by
  induction depth with
  | zero => exact fun mode => settles_unexpected _
  | succ depth induction =>
    intro mode
    apply (settles_annotated induction).bind
    intro pattern middle traced
    rw [remaining_bind]
    exact settles_casts _ _ _ traced

theorem settled_patternIn (mode : Mode) {start : TokenStream} (stands : At lexemes start) :
    Settled lexemes ((patternIn mode).run start) := by
  rw [patternIn_run]
  exact settles_patternWithin _ mode _ stands.traced

theorem settled_wholeIn (mode : Mode) {start : TokenStream} (stands : At lexemes start) :
    Settled lexemes ((wholeIn mode).run start) := by
  apply (settled_patternIn mode stands).bind
  intro pattern middle traced
  simp only [next?_bind]
  split
  · exact traced
  · exact settles_unexpected _ _ traced

theorem traced_behind {reader : Reader α} {start : TokenStream}
    (settled : Settled lexemes (reader.run start)) : Traced lexemes (behind reader start) := by
  unfold behind
  cases run : reader.run start with
  | ok value stop =>
    rw [run] at settled
    exact settled
  | error error stop =>
    rw [run] at settled
    exact settled.1

end Reader

end PatternClauses
