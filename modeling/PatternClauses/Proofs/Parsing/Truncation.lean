import PatternClauses.Proofs.Parsing.FrontPart

/-!
# Lists that are cut off

A reader of the front part of a list goes in step with a reader of the whole list, up to the end
of the part.  There it either stops or misses what the list goes on with.  Two readers look one
token further than they take, and see something else at the end: the name of an enum or of a case
looks like a name to bind, and the dot of a dotted type name is left behind.
-/

namespace PatternClauses

namespace Reader

open TokenStream

section

variable {cut : Cut} {room : Nat}

theorem cutShort_name (expected : Expected) :
    CutShort cut room (name expected) (name expected) .caseName (· = .pattern) := by
  apply CutShort.next?
  · exact endsAtEnd_unexpected _
  · intro found
    split
    · apply CutShortAt.mono _ (Nat.le_succ _)
      exact .after (cutShort_pure _ rfl) rfl
    · exact .of (cutShort_unexpected _ _)

/-! ## Lists in parentheses -/

section

variable {item shortItem : Reader α} {inside outside : Place}

theorem endsAtEnd_items (finish : EndsAtEnd cut item) (expected : Expected) (budget : Nat) :
    EndsAtEnd cut (items item expected budget) := by
  cases budget with
  | zero => exact endsAtEnd_unexpected _
  | succ budget => exact finish.bind fun first => endsAtEnd_next? (endsAtEnd_unexpected _)

theorem cutShort_items (goes : CutShort cut room item shortItem inside ends)
    (finish : EndsAtEnd cut shortItem) (comma : ∀ place, ends place → place.after .comma = inside)
    (closes : ∀ place, ends place → place.after .rightParen = outside) (expected : Expected)
    (budget left : Nat) (within : left ≤ room) :
    CutShort cut left (items item expected budget) (items shortItem expected left) inside
      (· = outside) := by
  induction left generalizing budget with
  | zero => exact cutShort_of_nothing (endsAtEnd_unexpected _)
  | succ left induction =>
    cases budget with
    | zero => exact cutShort_unexpected _ _
    | succ budget =>
      apply (goes.mono within).bind
      · intro first place ending
        apply CutShort.next?
        · exact endsAtEnd_unexpected _
        · intro found
          split
          · apply CutShortAt.after _ (comma place ending)
            apply CutShort.next?
            · exact (endsAtEnd_items finish _ _).bind_pure _
            · intro found
              split
              · exact .of (cutShort_unexpected _ _)
              · exact .of ((induction budget (Nat.le_of_succ_le within)).bind_pure _)
          · exact .after (cutShort_pure _ rfl) (closes place ending)
          · exact .of (cutShort_unexpected _ _)
      · exact fun first => endsAtEnd_next? (endsAtEnd_unexpected _)

theorem cutShort_itemsOrNone (goes : CutShort cut room item shortItem inside ends)
    (finish : EndsAtEnd cut shortItem) (comma : ∀ place, ends place → place.after .comma = inside)
    (closes : ∀ place, ends place → place.after .rightParen = outside) (begins : ends inside)
    (expected : Expected) :
    CutShort cut room (itemsOrNone item expected) (itemsOrNone shortItem expected) inside
      (· = outside) := by
  apply CutShort.next?
  · exact endsAtEnd_remaining (endsAtEnd_unexpected _)
  · intro found
    split
    · apply CutShortAt.mono _ (Nat.le_succ _)
      exact .after (cutShort_pure _ rfl) (closes inside begins)
    · apply CutShortAt.of
      exact .remaining fun left within =>
        cutShort_items goes finish comma closes expected _ left within

end

/-! ## Types and expressions -/

theorem cutShort_path (first : String) (depth budget left : Nat)
    (enough : left + cut.behind.length ≤ budget) :
    CutShort cut left (path first budget) (path first left) (.type depth)
      (· = .type depth) := by
  induction left generalizing first budget with
  | zero => exact cutShort_of_nothing (endsAtEnd_pure _)
  | succ left induction =>
    cases budget with
    | zero => omega
    | succ budget =>
      intro start short follows within value stop run
      simp only [path, peek?_bind, tokens_second, ← List.head?_eq_getElem?] at run ⊢
      split at run
      · rename_i segment dot name
        rcases follows.next with nothing | same
        · rw [nothing]
          exact .inr nothing
        · have here : short.tokens.head? = some .dot := same.trans dot
          have overDot := follows.advance here
          rw [Place.after_type depth (by simp)] at overDot
          rcases overDot.next with nothing | same
          · exact absurd nothing (follows.dot_not_last here)
          · have second : short.advance.tokens.head? = some (.identifier segment) :=
              same.trans name
            have overName := overDot.advance second
            rw [Place.after_type depth (by simp)] at overName
            have length := length_advance here
            have lengthSecond := length_advance second
            rw [here, second]
            have goes := induction (first ++ "." ++ segment) budget (by omega) _ _ overName
              (by omega) _ _ run
            exact goes.mono (fun _ => id) (by omega)
      · rename_i other
        cases run
        split
        · rename_i segment dot name
          exact absurd ((follows.advance dot).head? name) (other segment (follows.head? dot))
        · exact .inl ⟨_, _, rfl, rfl, follows, Nat.le_refl _⟩

theorem cutShort_optionals (type : TypeExpr) (depth budget left : Nat)
    (enough : left + cut.behind.length ≤ budget) :
    CutShort cut left (optionals type budget) (optionals type left) (.type depth)
      (· = .type depth) := by
  induction left generalizing type budget with
  | zero => exact cutShort_of_nothing (endsAtEnd_pure _)
  | succ left induction =>
    cases budget with
    | zero => omega
    | succ budget =>
      apply CutShort.next?
      · exact endsAtEnd_pure _
      · intro found
        split
        · exact .after (induction _ _ (by omega)) (Place.after_type depth (by simp))
        · exact .of (cutShort_pure _ rfl)

theorem cutShort_remaining_optionals (type : TypeExpr) (depth : Nat) :
    CutShort cut room (do optionals type (← remaining)) (do optionals type (← remaining))
      (.type depth) (· = .type depth) :=
  .remaining fun left _ => cutShort_optionals type depth _ left (Nat.le_refl _)

theorem endsAtEnd_remaining_optionals (type : TypeExpr) :
    EndsAtEnd cut (do optionals type (← remaining)) :=
  endsAtEnd_remaining (endsAtEnd_pure _)

theorem endsAtEnd_typeWithin (depth : Nat) : EndsAtEnd cut (typeWithin depth) := by
  cases depth with
  | zero => exact endsAtEnd_unexpected _
  | succ depth => exact endsAtEnd_next? (endsAtEnd_unexpected _)

theorem cutShort_typeWithin (room budget depth : Nat) :
    CutShort cut room (typeWithin budget) (typeWithin room) (.type depth) (· = .type depth) := by
  induction room generalizing budget depth with
  | zero => exact cutShort_of_nothing (endsAtEnd_unexpected _)
  | succ room induction =>
    cases budget with
    | zero => exact cutShort_unexpected _ _
    | succ budget =>
      apply CutShort.next?
      · exact endsAtEnd_unexpected _
      · intro found
        split
        · have opens : (Place.type depth).after .leftParen = .type (depth + 1) := by
            cases depth <;> rfl
          apply CutShortAt.after _ opens
          have list : CutShort cut room (itemsOrNone (typeWithin budget) .type)
              (itemsOrNone (typeWithin room) .type) (.type (depth + 1)) (· = .type depth) :=
            cutShort_itemsOrNone (induction budget (depth + 1)) (endsAtEnd_typeWithin _)
              (by rintro _ rfl; rfl) (by rintro _ rfl; rfl) rfl .type
          apply list.bind
          · rintro types _ rfl
            exact cutShort_remaining_optionals _ depth
          · exact fun types => endsAtEnd_remaining_optionals _
        · rename_i first
          apply CutShortAt.after _ (Place.after_type depth (by simp))
          apply CutShort.remaining
          intro left within
          apply (cutShort_path first depth _ left (Nat.le_refl _)).bind
          · rintro whole _ rfl
            exact cutShort_remaining_optionals _ depth
          · exact fun whole => endsAtEnd_remaining_optionals _
        · exact .of (cutShort_unexpected _ _)

theorem cutShort_type (depth : Nat) :
    CutShort cut room type type (.type depth) (· = .type depth) :=
  .remaining fun left _ => cutShort_typeWithin left _ depth

theorem cutShort_unary (room budget : Nat) :
    CutShort cut room (unary budget) (unary room) .pattern (· = .pattern) := by
  induction room generalizing budget with
  | zero => exact cutShort_of_nothing (endsAtEnd_unexpected _)
  | succ room induction =>
    cases budget with
    | zero => exact cutShort_unexpected _ _
    | succ budget =>
      apply CutShort.next?
      · exact endsAtEnd_unexpected _
      · intro found
        split
        · apply CutShortAt.after _ rfl
          exact (induction budget).bind_pure _
        · rename_i token _
          split
          · rename_i literal
            have behind : Place.pattern.after token = .pattern := by
              cases token <;> first | rfl | cases literal
            exact .after (cutShort_pure _ rfl) behind
          · exact .of (cutShort_unexpected _ _)
        · exact .of (cutShort_unexpected _ _)

theorem cutShort_expression : CutShort cut room expression expression .pattern (· = .pattern) := by
  apply CutShort.remaining
  intro left _
  apply (cutShort_unary left _).bind
  · rintro lower _ rfl
    have upper (closed : Bool) : CutShort cut left
        (do return .range lower (← unary (← remaining)) closed : Reader Expression)
        (do return .range lower (← unary (← remaining)) closed : Reader Expression) .pattern
        (· = .pattern) :=
      .remaining fun left _ => (cutShort_unary left _).bind_pure _
    apply CutShort.next?
    · exact endsAtEnd_pure _
    · intro found
      split
      · exact CutShortAt.mono (.after (upper true) rfl) (Nat.le_succ _)
      · exact CutShortAt.mono (.after (upper false) rfl) (Nat.le_succ _)
      · exact .of (cutShort_pure _ rfl)
  · exact fun lower => endsAtEnd_next? (endsAtEnd_pure _)

/-! ## Patterns -/

theorem endsAtEnd_segments (budget : Nat) : EndsAtEnd cut (segments budget) := by
  cases budget with
  | zero => exact endsAtEnd_pure _
  | succ budget => exact endsAtEnd_next? (endsAtEnd_pure _)

theorem cutShort_segments (budget left : Nat) (enough : left + cut.behind.length ≤ budget) :
    CutShort cut left (segments budget) (segments left) .pattern (· = .pattern) := by
  induction left generalizing budget with
  | zero => exact cutShort_of_nothing (endsAtEnd_pure _)
  | succ left induction =>
    cases budget with
    | zero => omega
    | succ budget =>
      apply CutShort.next?
      · exact endsAtEnd_pure _
      · intro found
        split
        · apply CutShortAt.after _ rfl
          apply (cutShort_name _).bind
          · rintro segment _ rfl
            exact (induction budget (by omega)).bind_pure _
          · exact fun segment => (endsAtEnd_segments _).bind_pure _
        · exact .of (cutShort_pure _ rfl)

section

variable {mode : Mode} {nested shortNested : Mode → Reader Pattern}

def NestedCutShort (cut : Cut) (room : Nat) (nested shortNested : Mode → Reader Pattern) : Prop :=
  ∀ mode : Mode, mode.context = .full → EndsAtEnd cut (shortNested mode) ∧
    CutShort cut room (nested mode) (shortNested mode) .pattern Place.IsEnd

theorem NestedCutShort.mono {most : Nat} (goes : NestedCutShort cut most nested shortNested)
    (within : room ≤ most) : NestedCutShort cut room nested shortNested :=
  fun mode full => ⟨(goes mode full).1, (goes mode full).2.mono within⟩

theorem cutShort_list (goes : NestedCutShort cut room nested shortNested)
    (full : mode.context = .full) :
    CutShort cut room (itemsOrNone (nested mode) .pattern) (itemsOrNone (shortNested mode) .pattern)
      .pattern (· = .pattern) :=
  cutShort_itemsOrNone (goes mode full).2 (goes mode full).1 (fun _ => Place.IsEnd.after_comma)
    (fun _ => Place.IsEnd.after_rightParen) (.inl rfl) .pattern

theorem endsAtEnd_enumCase (qualifier : Option String) (name : String) :
    EndsAtEnd cut (enumCase nested mode qualifier name) :=
  endsAtEnd_next? (endsAtEnd_pure _)

theorem cutShort_enumCase (goes : NestedCutShort cut room nested shortNested)
    (full : mode.context = .full) (qualifier : Option String) (name : String) :
    CutShort cut room (enumCase nested mode qualifier name)
      (enumCase shortNested mode qualifier name) .pattern (· = .pattern) := by
  apply CutShort.next?
  · exact endsAtEnd_pure _
  · intro found
    split
    · apply CutShortAt.mono _ (Nat.le_succ _)
      apply CutShortAt.after _ rfl
      exact (cutShort_list goes full).bind_pure _
    · exact .of (cutShort_pure _ rfl)

theorem cutShort_bindName (mode : Mode) {name : String} {span : Span} (place : Place)
    (leaf : (name, span) ∈ leaves (cut.front ++ cut.behind)) :
    CutShort cut room (bindName mode name span) (bindName mode name span) place (· = place) := by
  intro start short follows enough value stop run
  have free := free_of_bindName run
  rw [bindName_of_free span free] at run
  cases run
  rw [follows.boundNames] at free
  refine .inl ⟨place, _, bindName_of_free span free, rfl, ?_, Nat.le_refl _⟩
  exact ⟨follows.unread, congrArg (List.cons _) follows.bound,
    List.forall_mem_cons.mpr ⟨leaf, follows.leaves⟩, follows.passed⟩

theorem runsOut_bindName {mode : Mode} {name : String} {span : Span} {short : TokenStream}
    (nothing : short.tokens = [])
    (bound : ∀ entry ∈ short.bound, entry ∈ leaves (cut.front ++ cut.behind))
    (stands : (mode.uniqueNames = true → name ∉ short.boundNames) ∨
      BreaksOffCase (cut.front.map (·.token)) (cut.behind.head?.map (·.token)) name) :
    RunsOut cut ((bindName mode name span).run short) := by
  by_cases free : mode.uniqueNames = true → name ∉ short.boundNames
  · rw [bindName_of_free span free]
    exact nothing
  · rw [bindName, get_bind]
    split
    · rename_i earlier _ found
      refine ⟨nothing, stands.resolve_left free, ?_⟩
      rintro _ _ ⟨⟩
      exact bound _ (mem_of_lookup found)
    · rw [modify_bind]
      cases mode.mutability <;> exact nothing

theorem runsOut_named (full : mode.context = .full) {name : String} {span : Span}
    {start short : TokenStream} (follows : Follows cut .pattern start short)
    (last : short.unread = [⟨.identifier name, span⟩]) {value : Pattern} {stop : TokenStream}
    (run : (named nested mode name span).run start = .ok value stop) :
    RunsOut cut ((named shortNested mode name span).run short) := by
  have here := head?_of_unread last
  have beyond := follows.advance here
  have nothing : short.advance.tokens = [] := by
    rw [tokens, unread_advance last, List.map_nil]
  have broken (next : start.advance.tokens.head? = some .dot ∨
      start.advance.tokens.head? = some .leftParen) :
      BreaksOffCase (cut.front.map (·.token)) (cut.behind.head?.map (·.token)) name := by
    rcases follows.passed with ⟨passed, split, stands⟩
    rw [beyond.head?_behind nothing] at next
    refine ⟨passed.map (·.token), ?_, stands, next⟩
    rw [split, last, List.map_append, List.map_singleton]
  simp only [named, peek?_bind, tokens_second] at run ⊢
  rw [nothing]
  apply runsOut_bindName nothing beyond.leaves
  rw [boundNames_advance, ← follows.boundNames]
  split at run
  · rename_i dot
    exact .inr (broken (.inl dot))
  · rename_i parenthesis
    exact .inr (broken (.inr parenthesis))
  · rw [allow_bind full, advance_bind, advance_bind, bind_eq_ok_iff] at run
    rcases run with ⟨leaf, middle, bound, -⟩
    have free := free_of_bindName bound
    rw [boundNames_advance, boundNames_advance] at free
    exact .inl free
  · rw [advance_bind] at run
    have free := free_of_bindName run
    rw [boundNames_advance] at free
    exact .inl free

theorem cutShort_qualified (goes : NestedCutShort cut room nested shortNested)
    (full : mode.context = .full) (name : String) : CutShort cut room
      (do
        let path := name :: (← segments (← remaining))
        enumCase nested mode (some (".".intercalate path.dropLast)) (path.getLastD name))
      (do
        let path := name :: (← segments (← remaining))
        enumCase shortNested mode (some (".".intercalate path.dropLast)) (path.getLastD name))
      .pattern (· = .pattern) := by
  apply CutShort.remaining
  intro left within
  apply (cutShort_segments _ left (Nat.le_refl _)).bind
  · rintro names _ rfl
    exact cutShort_enumCase (goes.mono within) full _ _
  · exact fun names => endsAtEnd_enumCase _ _

theorem goesAlong_named (goes : NestedCutShort cut room nested shortNested)
    (full : mode.context = .full) {name : String} {span : Span} {start short : TokenStream}
    {rest : List Lexeme} (follows : Follows cut .pattern start short)
    (unread : short.unread = ⟨.identifier name, span⟩ :: rest)
    (enough : short.tokens.length ≤ room + 1) {value : Pattern} {stop : TokenStream}
    (run : (named nested mode name span).run start = .ok value stop) :
    GoesAlong cut (· = .pattern) short.tokens.length value stop
      ((named shortNested mode name span).run short) := by
  have here := head?_of_unread unread
  have beyond := follows.advance here
  rcases beyond.next with nothing | same
  · have last : short.unread = [⟨.identifier name, span⟩] := by
      rw [tokens, unread_advance unread, List.map_eq_nil_iff] at nothing
      rw [unread, nothing]
    exact .inr (runsOut_named full follows last run)
  · have leaf := follows.mem_leaves unread
    simp only [named, peek?_bind, tokens_second, ← same] at run leaf ⊢
    generalize second : short.advance.tokens.head? = found at run leaf ⊢
    split at run
    · simp only [allow_bind full] at run ⊢
      apply CutShortAt.after _ rfl start short follows enough here value stop run
      exact cutShort_qualified goes full name
    · simp only [allow_bind full] at run ⊢
      apply CutShortAt.after _ rfl start short follows enough here value stop run
      exact cutShort_enumCase goes full none name
    · simp only [allow_bind full] at run ⊢
      have overMark : CutShortAt cut (room + 1) (some .questionMark)
          (do advance; return .optional (← bindName mode name span) : Reader Pattern)
          (do advance; return .optional (← bindName mode name span) : Reader Pattern) .pattern
          (· = .pattern) := by
        apply CutShortAt.after _ rfl
        exact (cutShort_bindName mode .pattern (leaf (by simp) (by simp))).bind_pure _
      have length := length_advance here
      have goes := overMark start.advance short.advance beyond (by omega) second value stop run
      exact goes.mono (fun _ => id) (by omega)
    · rename_i noDot noParenthesis _
      apply CutShortAt.after _ rfl start short follows enough here value stop run
      exact cutShort_bindName mode .pattern (leaf noDot noParenthesis)

theorem endsAtEnd_primary : EndsAtEnd cut (primary nested mode) := by
  intro start nothing
  have unread : start.unread = [] := List.map_eq_nil_iff.mp nothing
  rw [primary, get_bind, unread]
  exact endsAtEnd_unexpected _ start nothing

theorem cutShort_primary (goes : NestedCutShort cut room nested shortNested)
    (full : mode.context = .full) :
    CutShort cut (room + 1) (primary nested mode) (primary shortNested mode) .pattern
      Place.IsEnd := by
  intro start short follows enough value stop run
  cases unread : short.unread with
  | nil =>
    apply Or.inr
    apply endsAtEnd_primary
    rw [tokens, unread, List.map_nil]
  | cons lexeme rest =>
    have here := head?_of_unread unread
    have whole := follows.unread
    rw [unread, List.cons_append] at whole
    rw [primary, get_bind, whole] at run
    rw [primary, get_bind, unread]
    rcases lexeme with ⟨token, span⟩
    cases token with
    | letKeyword =>
      apply CutShortAt.after _ rfl start short follows enough here value stop run
      exact (goes { mode with mutability := some false } full).2
    | varKeyword =>
      apply CutShortAt.after _ rfl start short follows enough here value stop run
      exact (goes { mode with mutability := some true } full).2
    | underscore =>
      apply CutShortAt.after _ rfl start short follows enough here value stop run
      exact cutShort_pure _ (.inl rfl)
    | leftParen =>
      apply CutShortAt.after _ rfl start short follows enough here value stop run
      exact ((cutShort_list goes full).bind_pure _).ending fun _ => .inl
    | dot =>
      simp only [allow_bind full] at run ⊢
      apply CutShortAt.after _ rfl start short follows enough here value stop run
      apply (cutShort_name _).bind
      · rintro name _ rfl
        exact (cutShort_enumCase goes full none name).ending fun _ => .inl
      · exact fun name => endsAtEnd_enumCase _ _
    | identifier name =>
      have goes := goesAlong_named goes full follows unread enough run
      exact goes.mono (fun _ => .inl) (Nat.le_refl _)
    | isKeyword =>
      simp only [allow_bind full] at run ⊢
      apply CutShortAt.after _ rfl start short follows enough here value stop run
      exact ((cutShort_type 0).bind_pure _).ending fun _ => .inr
    | integer | float | string | boolean | nilKeyword | minus =>
      simp only [allow_bind full] at run ⊢
      have value : CutShort cut (room + 1) (do return .expression (← expression) : Reader Pattern)
          (do return .expression (← expression) : Reader Pattern) .pattern Place.IsEnd :=
        (cutShort_expression.bind_pure _).ending fun _ => .inl
      exact value start short follows enough _ stop run
    | _ => exact absurd run (unexpected_ne_ok _ _ _ _)

theorem endsAtEnd_ascription (pattern : Pattern) : EndsAtEnd cut
    (do
      match isAnnotatable pattern, ← next? with
      | true, some .colon => advance; return .annotated pattern (← type)
      | _, _ => return pattern : Reader Pattern) := by
  apply endsAtEnd_next?
  cases isAnnotatable pattern <;> exact endsAtEnd_pure _

theorem cutShort_annotated (goes : NestedCutShort cut room nested shortNested)
    (full : mode.context = .full) :
    CutShort cut (room + 1) (annotated nested mode) (annotated shortNested mode) .pattern
      Place.IsEnd := by
  apply (cutShort_primary goes full).bind
  · intro pattern place isEnd
    apply CutShort.next?
    · cases isAnnotatable pattern <;> exact endsAtEnd_pure _
    · intro found
      split
      · apply CutShortAt.after _ isEnd.after_colon
        exact ((cutShort_type 0).bind_pure _).ending fun _ => .inr
      · exact .of (cutShort_pure _ isEnd)
  · exact endsAtEnd_ascription

theorem endsAtEnd_casts (pattern : Pattern) (budget : Nat) :
    EndsAtEnd cut (casts mode pattern budget) := by
  cases budget with
  | zero => exact endsAtEnd_pure _
  | succ budget => exact endsAtEnd_next? (endsAtEnd_pure _)

theorem cutShort_casts (full : mode.context = .full) {place : Place} (isEnd : place.IsEnd)
    (pattern : Pattern) (budget left : Nat) (enough : left + cut.behind.length ≤ budget) :
    CutShort cut left (casts mode pattern budget) (casts mode pattern left) place Place.IsEnd := by
  induction left generalizing pattern budget place with
  | zero => exact cutShort_of_nothing (endsAtEnd_pure _)
  | succ left induction =>
    cases budget with
    | zero => omega
    | succ budget =>
      apply CutShort.next?
      · exact endsAtEnd_pure _
      · intro found
        split
        · apply CutShortAt.allow full
          apply CutShortAt.after _ isEnd.after_asKeyword
          apply (cutShort_type 0).bind
          · rintro type _ rfl
            exact induction (.inr rfl) _ _ (by omega)
          · exact fun type => endsAtEnd_casts _ _
        · exact .of (cutShort_pure _ isEnd)

end

theorem endsAtEnd_patternWithin (mode : Mode) (depth : Nat) :
    EndsAtEnd cut (patternWithin depth mode) := by
  cases depth with
  | zero => exact endsAtEnd_unexpected _
  | succ depth =>
    exact (endsAtEnd_primary.bind endsAtEnd_ascription).bind
      fun pattern => endsAtEnd_remaining (endsAtEnd_pure _)

/-- The induction is on the tokens that are left of the part: every nested pattern takes one. -/
theorem cutShort_patternWithin (room budget : Nat) :
    NestedCutShort cut room (patternWithin budget) (patternWithin room) := by
  induction room generalizing budget with
  | zero =>
    exact fun mode _ => ⟨endsAtEnd_unexpected _, cutShort_of_nothing (endsAtEnd_unexpected _)⟩
  | succ room induction =>
    refine fun mode full => ⟨endsAtEnd_patternWithin mode _, ?_⟩
    cases budget with
    | zero => exact cutShort_unexpected _ _
    | succ budget =>
      apply (cutShort_annotated (induction budget) full).bind
      · intro pattern place isEnd
        apply CutShort.remaining
        intro left within
        exact cutShort_casts full isEnd _ _ left (Nat.le_refl _)
      · exact fun pattern => endsAtEnd_remaining (endsAtEnd_pure _)

theorem endsAtEnd_atEnd (pattern : Pattern) : EndsAtEnd cut (atEnd pattern) :=
  endsAtEnd_next? (endsAtEnd_pure _)

theorem tokens_of_atEnd {pattern value : Pattern} {start stop : TokenStream}
    (run : (atEnd pattern).run start = .ok value stop) : start.tokens = [] := by
  simp only [atEnd, next?_bind] at run
  split at run
  · rename_i nothing
    exact List.head?_eq_none_iff.mp nothing
  · exact absurd run (unexpected_ne_ok _ _ _ _)

theorem follows_ofLexemes (cut : Cut) :
    Follows cut .pattern (.ofLexemes (cut.front ++ cut.behind)) (.ofLexemes cut.front) :=
  ⟨rfl, rfl, List.forall_mem_nil _, [], rfl, rfl⟩

end

theorem runsOut_wholeIn (cut : Cut) {mode : Mode} (full : mode.context = .full) {pattern : Pattern}
    (accepted : (wholeIn mode).answer (.ofLexemes (cut.front ++ cut.behind)) = .ok pattern) :
    RunsOut cut ((wholeIn mode).run (.ofLexemes cut.front)) := by
  rcases answer_eq_ok_iff.mp accepted with ⟨stop, run⟩
  rw [wholeIn_run mode rfl, bind_eq_ok_iff] at run
  rcases run with ⟨value, last, run, atLast⟩
  rw [wholeIn_run mode rfl]
  have goes := (cutShort_patternWithin _ _ mode full).2 _ _ (follows_ofLexemes cut) (Nat.le_refl _)
    value last run
  rcases goes with ⟨place, shortLast, done, -, follows, -⟩ | runsOut
  · rw [bind_of_ok _ done]
    apply endsAtEnd_atEnd
    have length := follows.length
    rw [tokens_of_atEnd atLast, List.length_nil] at length
    exact List.eq_nil_of_length_eq_zero (by omega)
  · exact runsOut.bind endsAtEnd_atEnd

theorem last_of_breaksOffCase {before after : List Lexeme} {name other : String} {span : Span}
    {next : Option Token} (nameless : ∀ lexeme ∈ after, lexeme.token.isName = false)
    (broken : BreaksOffCase ((before ++ ⟨.identifier other, span⟩ :: after).map (·.token)) next
      name) :
    after = [] ∧ Place.pattern.afterAll (before.map (·.token)) = .pattern ∧
      (next = some .dot ∨ next = some .leftParen) := by
  rcases broken with ⟨front, split, stands, follows⟩
  rcases List.eq_nil_or_concat' after with rfl | ⟨more, last, rfl⟩
  · rw [List.map_append, List.map_singleton] at split
    rcases List.append_inj' split rfl with ⟨rfl, -⟩
    exact ⟨rfl, stands, follows⟩
  · have isLast : last.token = .identifier name := by
      rw [← List.cons_append, ← List.append_assoc, List.map_append] at split
      exact List.singleton_inj.mp (List.append_inj' split rfl).2
    have noName := nameless last (by simp)
    rw [isLast] at noName
    cases noName

/-- A front part of an accepted list is accepted or reported to end too early, unless it breaks off
a dotted type name.  Only if it ends in the name of an enum or of a case may that name be refused
as one that is bound again. -/
theorem whole_of_front (front behind : List Lexeme) (pattern : Pattern)
    (accepted : (whole .full).answer (.ofLexemes (front ++ behind)) = .ok pattern)
    (complete : ¬ BreaksOffType (front.map (·.token))) :
    (∃ part, (whole .full).answer (.ofLexemes front) = .ok part) ∨
    (∃ expected, (whole .full).answer (.ofLexemes front) =
      .error (.unexpectedEnd expected (sourceEnd front))) ∨
    ∃ before name first second, front = before ++ [⟨.identifier name, second⟩] ∧
      Place.pattern.afterAll (before.map (·.token)) = .pattern ∧
      (behind.head?.map (·.token) = some .dot ∨ behind.head?.map (·.token) = some .leftParen) ∧
      ⟨.identifier name, first⟩ ∈ before ∧ (name, first) ∈ leaves (front ++ behind) ∧
      (whole .full).answer (.ofLexemes front) =
        .error (.duplicateBinding ⟨name, some (first, second)⟩) := by
  have runsOut := runsOut_wholeIn ⟨front, behind, complete⟩ rfl accepted
  have settled := settled_wholeIn (modeOf .full) (at_ofLexemes front)
  cases run : (whole .full).run (.ofLexemes front) with
  | ok part stop => exact .inl ⟨part, answer_eq_ok_iff.mpr ⟨stop, run⟩⟩
  | error error stop =>
    have failed := answer_of_error run
    rw [failed]
    rw [whole] at run
    rw [run] at runsOut settled
    rcases settled with ⟨traced, points⟩
    cases points with
    | finish => exact .inr (.inl ⟨_, rfl⟩)
    | token | form => cases runsOut
    | name split nameless earlier =>
      rcases runsOut with ⟨nothing, broken, bound⟩
      have cursor := traced.toAt.cursor_of_nothing (List.map_eq_nil_iff.mp nothing)
      rw [cursor, List.take_length] at split
      subst split
      rcases last_of_breaksOffCase nameless broken with ⟨rfl, stands, follows⟩
      exact .inr (.inr ⟨_, _, _, _, rfl, stands, follows, earlier, bound _ _ rfl, rfl⟩)

theorem whole_of_front_of_dotted :
    let front : List Lexeme := [⟨.leftParen, ⟨0, 1⟩⟩, ⟨.identifier "x", ⟨1, 2⟩⟩, ⟨.colon, ⟨2, 3⟩⟩,
      ⟨.identifier "A", ⟨4, 5⟩⟩, ⟨.dot, ⟨5, 6⟩⟩, ⟨.identifier "B", ⟨6, 7⟩⟩, ⟨.comma, ⟨7, 8⟩⟩,
      ⟨.identifier "y", ⟨9, 10⟩⟩]
    let behind : List Lexeme := [⟨.dot, ⟨10, 11⟩⟩, ⟨.identifier "z", ⟨11, 12⟩⟩,
      ⟨.rightParen, ⟨12, 13⟩⟩]
    (whole .full).answer (.ofLexemes (front ++ behind)) =
        .ok (.tuple [.annotated (.identifier "x") (.named "A.B"), .enumCase (some "y") "z" none]) ∧
      ¬ BreaksOffType (front.map (·.token)) ∧
      ∃ expected, (whole .full).answer (.ofLexemes front) =
        .error (.unexpectedEnd expected (sourceEnd front)) := by
  intro front behind
  have accepted : (whole .full).answer (.ofLexemes (front ++ behind)) =
      .ok (.tuple [.annotated (.identifier "x") (.named "A.B"),
        .enumCase (some "y") "z" none]) := by rfl
  have complete : ¬ BreaksOffType (front.map (·.token)) := by
    rintro ⟨before, depth, split, -⟩
    have last := congrArg List.getLast? split
    rw [List.getLast?_concat] at last
    cases last
  have failed : (whole .full).answer (.ofLexemes front) = .error (.unexpectedEnd .itemEnd 10) := by
    rfl
  refine ⟨accepted, complete, ?_⟩
  rcases whole_of_front front behind _ accepted complete with
    ⟨part, run⟩ | ended | ⟨before, name, first, second, -, -, -, -, -, run⟩
  · rw [failed] at run
    cases run
  · exact ended
  · rw [failed] at run
    cases run

theorem duplicate_of_front :
    let front : List Lexeme := [⟨.leftParen, ⟨0, 1⟩⟩, ⟨.identifier "x", ⟨1, 2⟩⟩, ⟨.comma, ⟨2, 3⟩⟩,
      ⟨.identifier "x", ⟨4, 5⟩⟩]
    let behind : List Lexeme := [⟨.leftParen, ⟨5, 6⟩⟩, ⟨.identifier "y", ⟨6, 7⟩⟩,
      ⟨.rightParen, ⟨7, 8⟩⟩, ⟨.rightParen, ⟨8, 9⟩⟩]
    (whole .full).answer (.ofLexemes (front ++ behind)) =
        .ok (.tuple [.identifier "x", .enumCase none "x" (some (.identifier "y"))]) ∧
      (whole .full).answer (.ofLexemes front) =
        .error (.duplicateBinding ⟨"x", some (⟨1, 2⟩, ⟨4, 5⟩)⟩) :=
  ⟨rfl, rfl⟩

end Reader

end PatternClauses
