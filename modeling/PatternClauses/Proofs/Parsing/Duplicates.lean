import PatternClauses.Proofs.Parsing.Leaves

/-!
# Names bound twice

The reader refuses a name at its second place while it reads.  The same reader without that test
notes every name instead, so a run with the test goes in step with a run without it, up to the
first name that was noted before.  A whole source is therefore refused exactly when the pattern
that is read without the test binds a name twice.
-/

namespace PatternClauses

/-! ## The first clash -/

/-- The first of the names, noted one after another, that has been bound already. -/
def clash? (bound : List (String × Span)) : List (String × Span) → Option DuplicateBinding
  | [] => none
  | (name, span) :: rest =>
    match bound.lookup name with
    | some first => some ⟨name, some (first, span)⟩
    | none => clash? ((name, span) :: bound) rest

theorem clash?_append (bound noted more : List (String × Span)) :
    clash? bound (noted ++ more) =
      (clash? bound noted).or (clash? (noted.reverse ++ bound) more) := by
  induction noted generalizing bound with
  | nil => rfl
  | cons entry rest induction =>
    rcases entry with ⟨name, span⟩
    rw [List.cons_append, clash?, clash?]
    cases bound.lookup name with
    | some first => rfl
    | none =>
      simp only
      rw [induction, List.reverse_cons, List.append_assoc, List.singleton_append]

theorem lookup_names_eq_none_iff (bound : List (String × Span)) (name : String) :
    bound.lookup name = none ↔ name ∉ bound.map (·.1) := by
  rw [List.lookup_eq_none_iff, List.mem_map]
  constructor
  · rintro absent ⟨pair, member, rfl⟩
    simpa using absent pair member
  · intro absent pair member
    rw [bne_iff_ne]
    exact fun same => absent ⟨pair, member, same.symm⟩

/-- The name that clashes is the one that the check of the finished pattern finds. -/
theorem clash?_name (bound noted : List (String × Span)) :
    (clash? bound noted).map (·.name) =
      Pattern.firstRepeated? (bound.map (·.1)) (noted.map (·.1)) := by
  induction noted generalizing bound with
  | nil => rfl
  | cons entry rest induction =>
    rcases entry with ⟨name, span⟩
    rw [clash?, List.map_cons, Pattern.firstRepeated?]
    have absent := lookup_names_eq_none_iff bound name
    cases found : bound.lookup name with
    | some first =>
      have member : name ∈ bound.map (·.1) := by
        rw [found] at absent
        exact Decidable.not_not.mp fun missing => by cases absent.mpr missing
      rw [if_pos member]
      rfl
    | none =>
      rw [if_neg (absent.mp found)]
      exact induction _

theorem filter_of_lookup {bound : List (String × Span)} {name : String} {first : Span}
    (distinct : (bound.map (·.1)).Nodup) (found : bound.lookup name = some first) :
    bound.filter (·.1 = name) = [(name, first)] := by
  induction bound with
  | nil => cases found
  | cons entry rest induction =>
    rcases entry with ⟨other, span⟩
    rcases List.nodup_cons.mp distinct with ⟨absent, distinct⟩
    rw [List.lookup_cons] at found
    by_cases same : name = other
    · subst same
      rw [beq_self_eq_true] at found
      cases found
      have clear : rest.filter (·.1 = name) = [] := by
        rw [List.filter_eq_nil_iff]
        intro later member
        rw [decide_eq_true_iff]
        rintro rfl
        exact absent (List.mem_map.mpr ⟨later, member, rfl⟩)
      rw [List.filter_cons_of_pos (by simp), clear]
    · rw [beq_false_of_ne same] at found
      rw [List.filter_cons_of_neg (by simpa using fun equal => same equal.symm)]
      exact induction distinct found

theorem places_of_clash? {bound noted : List (String × Span)} {duplicate : DuplicateBinding}
    (distinct : (bound.map (·.1)).Nodup) (clash : clash? bound noted = some duplicate) :
    ∃ first second later, duplicate.places = some (first, second) ∧
      (bound.reverse ++ noted).filter (·.1 = duplicate.name) =
        (duplicate.name, first) :: (duplicate.name, second) :: later := by
  induction noted generalizing bound with
  | nil => cases clash
  | cons entry rest induction =>
    rcases entry with ⟨name, span⟩
    rw [clash?] at clash
    cases found : bound.lookup name with
    | some first =>
      rw [found] at clash
      cases clash
      refine ⟨first, span, rest.filter (·.1 = name), rfl, ?_⟩
      rw [List.filter_append, List.filter_reverse, filter_of_lookup distinct found,
        List.filter_cons_of_pos (by simp), List.reverse_singleton, List.singleton_append]
    | none =>
      rw [found] at clash
      have absent := (lookup_names_eq_none_iff bound name).mp found
      have distinct : (((name, span) :: bound).map (·.1)).Nodup :=
        List.nodup_cons.mpr ⟨absent, distinct⟩
      rcases induction distinct clash with ⟨first, second, later, spans, places⟩
      refine ⟨first, second, later, spans, ?_⟩
      rwa [List.reverse_cons, List.append_assoc, List.singleton_append] at places

namespace Reader

open TokenStream

/-! ## Two runs in step -/

/-- The stream that a reader leaves, also when it fails. -/
def behind (reader : Reader α) (start : TokenStream) : TokenStream :=
  match reader.run start with
  | .ok _ stop => stop
  | .error _ stop => stop

/-- The reader without the test notes names, and the one with it does the same unless one of these
names has been bound already.  Then it reports the first such name. -/
def Guards (checked unchecked : Reader α) : Prop :=
  ∀ start, ∃ noted, (behind unchecked start).bound = noted.reverse ++ start.bound ∧
    match clash? start.bound noted with
    | none => checked.run start = unchecked.run start
    | some duplicate => ∃ stop, checked.run start = .error (.duplicateBinding duplicate) stop

theorem Guards.bind {checked unchecked : Reader α} {checkedNext uncheckedNext : α → Reader β}
    (first : Guards checked unchecked)
    (next : ∀ value, Guards (checkedNext value) (uncheckedNext value)) :
    Guards (checked >>= checkedNext) (unchecked >>= uncheckedNext) := by
  intro start
  rcases first start with ⟨noted, bound, step⟩
  cases run : unchecked.run start with
  | error error middle =>
    have last : (behind (unchecked >>= uncheckedNext) start).bound = noted.reverse ++ start.bound := by
      rw [behind, bind_of_error _ run]
      rwa [behind, run] at bound
    refine ⟨noted, last, ?_⟩
    split at step
    · rw [bind_of_error _ run, bind_of_error _ (step.trans run)]
    · rename_i duplicate clash
      rcases step with ⟨stop, refused⟩
      exact ⟨stop, bind_of_error _ refused⟩
  | ok value middle =>
    rw [behind, run] at bound
    rcases next value middle with ⟨more, boundMore, stepMore⟩
    have last : (behind (unchecked >>= uncheckedNext) start).bound =
        (noted ++ more).reverse ++ start.bound := by
      rw [behind, bind_of_ok _ run]
      rw [behind, bound] at boundMore
      rw [boundMore, List.reverse_append, List.append_assoc]
    refine ⟨noted ++ more, last, ?_⟩
    rw [clash?_append]
    split at step
    · rename_i clear
      rw [clear, Option.none_or, ← bound, bind_of_ok _ run, bind_of_ok _ (step.trans run)]
      exact stepMore
    · rename_i duplicate clash
      rcases step with ⟨stop, refused⟩
      rw [clash]
      exact ⟨stop, bind_of_error _ refused⟩

/-! ## Steps without names -/

def Keeps (reader : Reader α) : Prop := ∀ start, (behind reader start).bound = start.bound

theorem Keeps.guards {reader : Reader α} (keeps : Keeps reader) : Guards reader reader :=
  fun start => ⟨[], keeps start, rfl⟩

theorem Keeps.after {reader : Reader α} {checked unchecked : α → Reader β} (keeps : Keeps reader)
    (next : ∀ value, Guards (checked value) (unchecked value)) :
    Guards (reader >>= checked) (reader >>= unchecked) :=
  keeps.guards.bind next

theorem keeps_pure (value : α) : Keeps (pure value : Reader α) := fun _ => rfl

theorem keeps_get : Keeps (get : Reader TokenStream) := fun _ => rfl

theorem keeps_next? : Keeps next? := fun _ => rfl

theorem keeps_peek? (distance : Nat) : Keeps (peek? distance) := fun _ => rfl

theorem keeps_remaining : Keeps remaining := fun _ => rfl

theorem keeps_advance : Keeps advance := by
  intro start
  change start.advance.bound = start.bound
  unfold TokenStream.advance
  cases start.unread <;> rfl

theorem keeps_unexpected (expected : Expected) : Keeps (unexpected expected : Reader α) := by
  intro start
  rw [behind, unexpected, get_bind]
  cases start.unread <;> rfl

theorem keeps_allow (mode : Mode) (form : RefutableForm) : Keeps (allow mode form) := by
  intro start
  rw [behind, allow, get_bind]
  cases mode.context <;> cases start.unread <;> rfl

theorem guards_pure (value : α) : Guards (pure value : Reader α) (pure value) :=
  (keeps_pure value).guards

theorem guards_unexpected (expected : Expected) :
    Guards (unexpected expected : Reader α) (unexpected expected) :=
  (keeps_unexpected expected).guards

theorem guards_name (expected : Expected) : Guards (name expected) (name expected) := by
  apply keeps_next?.after
  intro token
  split
  · exact keeps_advance.after fun _ => guards_pure _
  · exact guards_unexpected _

/-! ## Lists in parentheses -/

section

variable {checked unchecked : Reader α}

theorem guards_items (item : Guards checked unchecked) (expected : Expected) (budget : Nat) :
    Guards (items checked expected budget) (items unchecked expected budget) := by
  induction budget with
  | zero => exact guards_unexpected _
  | succ budget induction =>
    apply item.bind
    intro first
    apply keeps_next?.after
    intro token
    split
    · apply keeps_advance.after
      intro _
      apply keeps_next?.after
      intro token
      split
      · exact guards_unexpected _
      · exact induction.bind fun rest => guards_pure _
    · exact keeps_advance.after fun _ => guards_pure _
    · exact guards_unexpected _

theorem guards_itemsOrNone (item : Guards checked unchecked) (expected : Expected) :
    Guards (itemsOrNone checked expected) (itemsOrNone unchecked expected) := by
  apply keeps_next?.after
  intro token
  split
  · exact keeps_advance.after fun _ => guards_pure _
  · exact keeps_remaining.after fun budget => guards_items item expected budget

end

/-! ## Types and expressions -/

theorem guards_path (first : String) (budget : Nat) :
    Guards (path first budget) (path first budget) := by
  induction budget generalizing first with
  | zero => exact guards_pure _
  | succ budget induction =>
    apply (keeps_peek? 0).after
    intro token
    apply (keeps_peek? 1).after
    intro second
    split
    · exact keeps_advance.after fun _ => keeps_advance.after fun _ => induction _
    · exact guards_pure _

theorem guards_optionals (type : TypeExpr) (budget : Nat) :
    Guards (optionals type budget) (optionals type budget) := by
  induction budget generalizing type with
  | zero => exact guards_pure _
  | succ budget induction =>
    apply keeps_next?.after
    intro token
    split
    · exact keeps_advance.after fun _ => induction _
    · exact guards_pure _

theorem guards_typeWithin (depth : Nat) : Guards (typeWithin depth) (typeWithin depth) := by
  induction depth with
  | zero => exact guards_unexpected _
  | succ depth induction =>
    apply keeps_next?.after
    intro token
    split
    · apply keeps_advance.after
      intro _
      apply (guards_itemsOrNone induction .type).bind
      intro types
      exact keeps_remaining.after fun budget => guards_optionals _ budget
    · apply keeps_advance.after
      intro _
      apply keeps_remaining.after
      intro budget
      apply (guards_path _ budget).bind
      intro whole
      exact keeps_remaining.after fun budget => guards_optionals _ budget
    · exact guards_unexpected _

theorem guards_type : Guards type type :=
  keeps_remaining.after guards_typeWithin

theorem guards_unary (budget : Nat) : Guards (unary budget) (unary budget) := by
  induction budget with
  | zero => exact guards_unexpected _
  | succ budget induction =>
    apply keeps_next?.after
    intro token
    split
    · exact keeps_advance.after fun _ => induction.bind fun operand => guards_pure _
    · split
      · exact keeps_advance.after fun _ => guards_pure _
      · exact guards_unexpected _
    · exact guards_unexpected _

theorem guards_expression : Guards expression expression := by
  apply keeps_remaining.after
  intro budget
  apply (guards_unary budget).bind
  intro lower
  apply keeps_next?.after
  intro token
  have upper (closed : Bool) : Guards
      (do return .range lower (← unary (← remaining)) closed : Reader Expression)
      (do return .range lower (← unary (← remaining)) closed : Reader Expression) :=
    keeps_remaining.after fun budget => (guards_unary budget).bind fun upper => guards_pure _
  split
  · exact keeps_advance.after fun _ => upper true
  · exact keeps_advance.after fun _ => upper false
  · exact guards_pure _

/-! ## Patterns -/

def Mode.checked (mode : Mode) : Mode := { mode with uniqueNames := true }

def Mode.unchecked (mode : Mode) : Mode := { mode with uniqueNames := false }

theorem guards_allow (mode : Mode) (form : RefutableForm) {checked unchecked : Unit → Reader α}
    (next : Guards (checked ()) (unchecked ())) :
    Guards (allow mode.checked form >>= checked) (allow mode.unchecked form >>= unchecked) :=
  (keeps_allow mode form).after fun _ => next

/-- The one place where the two modes differ. -/
theorem guards_bindName (mode : Mode) (name : String) (span : Span) :
    Guards (bindName mode.checked name span) (bindName mode.unchecked name span) := by
  intro start
  have unchecked : (bindName mode.unchecked name span).run start =
      .ok (Grammar.leaf mode.mutability name) (recorded start name span) :=
    bindName_of_free span fun impossible => by cases impossible
  refine ⟨[(name, span)], ?_, ?_⟩
  · rw [behind, unchecked]
    rfl
  · rw [clash?]
    cases found : start.bound.lookup name with
    | none =>
      have free : name ∉ start.boundNames := (lookup_bound_eq_none_iff start name).mp found
      rw [unchecked]
      exact bindName_of_free span fun _ => free
    | some first =>
      refine ⟨start, ?_⟩
      rw [bindName, get_bind, found]
      rfl

theorem guards_segments (budget : Nat) : Guards (segments budget) (segments budget) := by
  induction budget with
  | zero => exact guards_pure _
  | succ budget induction =>
    apply keeps_next?.after
    intro token
    split
    · apply keeps_advance.after
      intro _
      apply (guards_name _).bind
      intro segment
      exact induction.bind fun rest => guards_pure _
    · exact guards_pure _

section

variable {nested : Mode → Reader Pattern}

def NestedGuards (nested : Mode → Reader Pattern) : Prop :=
  ∀ mode : Mode, Guards (nested mode.checked) (nested mode.unchecked)

theorem guards_enumCase (guards : NestedGuards nested) (mode : Mode) (qualifier : Option String)
    (name : String) : Guards (enumCase nested mode.checked qualifier name)
      (enumCase nested mode.unchecked qualifier name) := by
  apply keeps_next?.after
  intro token
  split
  · apply keeps_advance.after
    intro _
    exact (guards_itemsOrNone (guards mode) .pattern).bind fun items => guards_pure _
  · exact guards_pure _

theorem guards_named (guards : NestedGuards nested) (mode : Mode) (name : String) (span : Span) :
    Guards (named nested mode.checked name span) (named nested mode.unchecked name span) := by
  apply (keeps_peek? 1).after
  intro token
  split
  · apply guards_allow mode .enumCase
    apply keeps_advance.after
    intro _
    apply keeps_remaining.after
    intro budget
    apply (guards_segments budget).bind
    intro names
    exact guards_enumCase guards mode _ _
  · apply guards_allow mode .enumCase
    exact keeps_advance.after fun _ => guards_enumCase guards mode _ _
  · apply guards_allow mode .optional
    apply keeps_advance.after
    intro _
    apply keeps_advance.after
    intro _
    exact (guards_bindName mode name span).bind fun inner => guards_pure _
  · exact keeps_advance.after fun _ => guards_bindName mode name span

theorem guards_primary (guards : NestedGuards nested) (mode : Mode) :
    Guards (primary nested mode.checked) (primary nested mode.unchecked) := by
  apply keeps_get.after
  intro stream
  cases stream.unread with
  | nil => exact guards_unexpected _
  | cons lexeme rest =>
    dsimp only
    cases lexeme.token with
    | letKeyword =>
      exact keeps_advance.after fun _ => guards { mode with mutability := some false }
    | varKeyword =>
      exact keeps_advance.after fun _ => guards { mode with mutability := some true }
    | underscore => exact keeps_advance.after fun _ => guards_pure _
    | leftParen =>
      apply keeps_advance.after
      intro _
      exact (guards_itemsOrNone (guards mode) .pattern).bind fun items => guards_pure _
    | dot =>
      apply guards_allow mode .enumCase
      apply keeps_advance.after
      intro _
      exact (guards_name _).bind fun name => guards_enumCase guards mode _ _
    | identifier name => exact guards_named guards mode name lexeme.span
    | isKeyword =>
      apply guards_allow mode .typeCasting
      exact keeps_advance.after fun _ => guards_type.bind fun type => guards_pure _
    | integer | float | string | boolean | nilKeyword | minus =>
      apply guards_allow mode .expression
      exact guards_expression.bind fun value => guards_pure _
    | _ => exact guards_unexpected _

theorem guards_annotated (guards : NestedGuards nested) (mode : Mode) :
    Guards (annotated nested mode.checked) (annotated nested mode.unchecked) := by
  apply (guards_primary guards mode).bind
  intro pattern
  apply keeps_next?.after
  intro token
  split
  · exact keeps_advance.after fun _ => guards_type.bind fun type => guards_pure _
  · exact guards_pure _

theorem guards_casts (mode : Mode) (pattern : Pattern) (budget : Nat) :
    Guards (casts mode.checked pattern budget) (casts mode.unchecked pattern budget) := by
  induction budget generalizing pattern with
  | zero => exact guards_pure _
  | succ budget induction =>
    apply keeps_next?.after
    intro token
    split
    · apply guards_allow mode .typeCasting
      apply keeps_advance.after
      intro _
      exact guards_type.bind fun type => induction _
    · exact guards_pure _

end

theorem guards_patternWithin (depth : Nat) : NestedGuards (patternWithin depth) := by
  induction depth with
  | zero => exact fun mode => guards_unexpected _
  | succ depth induction =>
    intro mode
    apply (guards_annotated induction mode).bind
    intro pattern
    exact keeps_remaining.after fun budget => guards_casts mode pattern budget

def atEnd (pattern : Pattern) : Reader Pattern := do
  match ← next? with
  | none => return pattern
  | some _ => unexpected .endOfPattern

theorem wholeIn_run (mode : Mode) {start : TokenStream} (nothing : start.bound = []) :
    (wholeIn mode).run start =
      (patternWithin start.tokens.length mode >>= atEnd).run start := by
  have opened : { start with bound := [] } = start := by rw [← nothing]
  have first := patternIn_run mode start
  rw [opened] at first
  have whole : wholeIn mode = patternIn mode >>= atEnd := rfl
  rw [whole]
  cases run : (patternIn mode).run start with
  | ok pattern middle => rw [bind_of_ok _ run, bind_of_ok _ (first.symm.trans run)]
  | error error middle => rw [bind_of_error _ run, bind_of_error _ (first.symm.trans run)]

theorem guards_wholeIn (mode : Mode) {start : TokenStream} (nothing : start.bound = []) :
    ∃ noted, (behind (wholeIn mode.unchecked) start).bound = noted.reverse ∧
      match clash? [] noted with
      | none => (wholeIn mode.checked).run start = (wholeIn mode.unchecked).run start
      | some duplicate =>
        ∃ stop, (wholeIn mode.checked).run start = .error (.duplicateBinding duplicate) stop := by
  have step : Guards (patternWithin start.tokens.length mode.checked >>= atEnd)
      (patternWithin start.tokens.length mode.unchecked >>= atEnd) := by
    apply (guards_patternWithin _ mode).bind
    intro pattern
    apply keeps_next?.after
    intro token
    split
    · exact guards_pure _
    · exact guards_unexpected _
  have both := step start
  unfold behind at both ⊢
  simpa only [nothing, List.append_nil, wholeIn_run _ nothing] using both

section

variable {mode : Mode} {lexemes : List Lexeme}

theorem answer_of_accepted {pattern : Pattern}
    (accepted : (wholeIn mode.unchecked).answer (.ofLexemes lexemes) = .ok pattern) :
    (leaves lexemes).map (·.1) = pattern.bindings ∧
      (wholeIn mode.checked).answer (.ofLexemes lexemes) =
        match clash? [] (leaves lexemes) with
        | none => .ok pattern
        | some duplicate => .error (.duplicateBinding duplicate) := by
  rcases answer_eq_ok_iff.mp accepted with ⟨stop, run⟩
  rcases bound_of_whole run with ⟨recorded, names⟩
  have nothing : (TokenStream.ofLexemes lexemes).bound = [] := rfl
  rcases guards_wholeIn mode nothing with ⟨noted, bound, step⟩
  have all : noted = leaves lexemes := by
    rw [behind, run] at bound
    rw [← recorded, bound, List.reverse_reverse]
  refine ⟨names, ?_⟩
  rw [← all]
  split at step
  · exact (answer_congr step).trans accepted
  · rcases step with ⟨last, refused⟩
    exact answer_of_error refused

theorem answer_of_refused {error : ParseError}
    (refused : (wholeIn mode.unchecked).answer (.ofLexemes lexemes) = .error error) :
    (wholeIn mode.checked).answer (.ofLexemes lexemes) = .error error ∨
      ∃ duplicate,
        (wholeIn mode.checked).answer (.ofLexemes lexemes) = .error (.duplicateBinding duplicate) := by
  have nothing : (TokenStream.ofLexemes lexemes).bound = [] := rfl
  rcases guards_wholeIn mode nothing with ⟨noted, bound, step⟩
  split at step
  · exact .inl ((answer_congr step).trans refused)
  · rename_i duplicate clash
    rcases step with ⟨last, refused⟩
    exact .inr ⟨duplicate, answer_of_error refused⟩

end

end Reader

namespace Pattern

open Reader

theorem places_of_checkBindings {pattern : Pattern} {names : List (String × Span)}
    {duplicate : DuplicateBinding} (same : names.map (·.1) = pattern.bindings)
    (refused : pattern.checkBindings = .error duplicate) :
    ∃ first second later, clash? [] names = some ⟨duplicate.name, some (first, second)⟩ ∧
      names.filter (·.1 = duplicate.name) =
        (duplicate.name, first) :: (duplicate.name, second) :: later := by
  have repeated := clash?_name [] names
  rw [same] at repeated
  unfold checkBindings at refused
  split at refused
  · rename_i name found
    cases refused
    rw [List.map_nil, found, Option.map_eq_some_iff] at repeated
    rcases repeated with ⟨⟨_, places⟩, clash, rfl⟩
    have distinct : (([] : List (String × Span)).map (·.1)).Nodup := List.nodup_nil
    rcases places_of_clash? distinct clash with ⟨first, second, later, rfl, stand⟩
    exact ⟨first, second, later, clash, stand⟩
  · cases refused

theorem clash?_of_checkBindings {pattern : Pattern} {names : List (String × Span)}
    (same : names.map (·.1) = pattern.bindings) (accepted : pattern.checkBindings = .ok ()) :
    clash? [] names = none := by
  have repeated := clash?_name [] names
  rw [same] at repeated
  unfold checkBindings at accepted
  split at accepted
  · cases accepted
  · rename_i clear
    rwa [List.map_nil, clear, Option.map_eq_none_iff] at repeated

/-- The test for repeated names decides as the check of the pattern that is read without the test.
If that pattern binds no name twice, it is the answer.  If it does, the source is refused for the
name that the check finds, with the first two places where the source binds it.  And a source that
is refused without the test is refused with it, for the same reason or for a repeated name. -/
theorem parse_checks_bindings (context : PatternContext) (source : String) :
    let untested := parseIn (modeOf context).unchecked source
    (∀ pattern, untested = .ok pattern →
      ∃ lexemes, lex source = .ok lexemes ∧ (leaves lexemes).map (·.1) = pattern.bindings ∧
        (pattern.checkBindings = .ok () → parse context source = .ok pattern) ∧
        ∀ duplicate, pattern.checkBindings = .error duplicate →
          ∃ first second later,
            parse context source =
              .error (.duplicateBinding ⟨duplicate.name, some (first, second)⟩) ∧
            (leaves lexemes).filter (·.1 = duplicate.name) =
              (duplicate.name, first) :: (duplicate.name, second) :: later) ∧
    ∀ error, untested = .error error → parse context source = .error error ∨
      ∃ duplicate, parse context source = .error (.duplicateBinding duplicate) := by
  intro untested
  have parsed : parse context source = parseIn (modeOf context).checked source := rfl
  cases lexed : lex source with
  | error error =>
    have failed (mode : Mode) : parseIn mode source = .error (.lexical error) := by
      rw [parseIn, lexed]
    refine ⟨fun pattern read => ?_, fun error read => .inl ?_⟩
    · cases (failed _).symm.trans read
    · rw [parsed, failed, ← read, ← failed]
  | ok lexemes =>
    have read (mode : Mode) : parseIn mode source = (wholeIn mode).answer (.ofLexemes lexemes) := by
      rw [parseIn, lexed]
    rw [parsed, read]
    refine ⟨fun pattern accepted => ⟨lexemes, rfl, ?_⟩, fun error refused => ?_⟩
    · rcases answer_of_accepted ((read _).symm.trans accepted) with ⟨names, decided⟩
      rw [decided]
      refine ⟨names, fun distinct => ?_, fun duplicate repeated => ?_⟩
      · rw [clash?_of_checkBindings names distinct]
      · rcases places_of_checkBindings names repeated with ⟨first, second, later, clash, places⟩
        exact ⟨first, second, later, by rw [clash], places⟩
    · exact answer_of_refused ((read _).symm.trans refused)

theorem parse_repeated_name :
    parseIn (modeOf .full).unchecked "(x: x, x.x(x))" =
        .ok (.tuple [.annotated (.identifier "x") (.named "x"),
          .enumCase (some "x") "x" (some (.identifier "x"))]) ∧
      parse .full "(x: x, x.x(x))" =
        .error (.duplicateBinding ⟨"x", some (⟨1, 2⟩, ⟨11, 12⟩)⟩) := by
  have untested : parseIn (modeOf .full).unchecked "(x: x, x.x(x))" =
      .ok (.tuple [.annotated (.identifier "x") (.named "x"),
        .enumCase (some "x") "x" (some (.identifier "x"))]) :=
    ok_of_toOption (by decide +kernel)
  have names : (lex "(x: x, x.x(x))").toOption.map leaves =
      some [("x", ⟨1, 2⟩), ("x", ⟨11, 12⟩)] := by
    decide +kernel
  rcases (parse_checks_bindings .full "(x: x, x.x(x))").1 _ untested with
    ⟨lexemes, lexed, -, -, refused⟩
  rw [lexed] at names
  rcases refused ⟨"x", none⟩ rfl with ⟨first, second, later, failed, places⟩
  rw [Option.some.inj names] at places
  cases places
  exact ⟨untested, failed⟩

end Pattern

end PatternClauses
