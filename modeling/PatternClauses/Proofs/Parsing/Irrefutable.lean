import PatternClauses.Proofs.Parsing.Stream

/-!
# Reading where only bindings may stand

The two contexts differ in nothing but the forms that are refused.  A run where only bindings may
stand goes in step with the run where everything may match, up to the first refusal: then the
pattern that the other run answers, if any, can fail to match.
-/

namespace PatternClauses

namespace Reader

open TokenStream

def Always (reader : Reader α) (stream : TokenStream) (property : α → Prop) : Prop :=
  ∀ value stop, reader.run stream = .ok value stop → property value

def Refuses (reader : Reader α) (stream : TokenStream) : Prop :=
  ∃ form span stop, reader.run stream = .error (.illegalForm form span) stop

/-- Either both readers do the same and their answer is not refutable, or the strict one refuses
and an answer of the other one is. -/
def Narrows (refutable : α → Bool) (strict lenient : Reader α) : Prop :=
  ∀ stream,
    (strict.run stream = lenient.run stream ∧
      Always lenient stream fun value => refutable value = false) ∨
    (Refuses strict stream ∧ Always lenient stream fun value => refutable value = true)

theorem Always.bind {reader : Reader α} {next : α → Reader β} {stream : TokenStream}
    {property : β → Prop} (each : ∀ value middle, Always (next value) middle property) :
    Always (reader >>= next) stream property := by
  intro result stop run
  rw [bind_eq_ok_iff] at run
  rcases run with ⟨value, middle, -, run⟩
  exact each value middle result stop run

theorem always_pure {value : α} {property : α → Prop} (holds : property value)
    (stream : TokenStream) : Always (pure value) stream property := by
  rintro _ _ ⟨⟩
  exact holds

theorem always_unexpected (expected : Expected) (stream : TokenStream) (property : α → Prop) :
    Always (unexpected expected) stream property :=
  fun value stop run => absurd run (unexpected_ne_ok expected stream stop value)

theorem Narrows.bind {refutable : α → Bool} {result : β → Bool} {strict lenient : Reader α}
    {strictNext lenientNext : α → Reader β} (first : Narrows refutable strict lenient)
    (next : ∀ value, refutable value = false →
      Narrows result (strictNext value) (lenientNext value))
    (stays : ∀ value, refutable value = true → ∀ stream,
      Always (lenientNext value) stream fun answer => result answer = true) :
    Narrows result (strict >>= strictNext) (lenient >>= lenientNext) := by
  intro stream
  rcases first stream with ⟨same, harmless⟩ | ⟨refuses, harmful⟩
  · cases run : lenient.run stream with
    | ok value middle =>
      have both := same.trans run
      unfold Always Refuses
      rw [bind_of_ok _ run, bind_of_ok _ both]
      exact next value (harmless value middle run) middle
    | error error middle =>
      have both := same.trans run
      unfold Always Refuses
      rw [bind_of_error _ run, bind_of_error _ both]
      exact .inl ⟨rfl, nofun⟩
  · rcases refuses with ⟨form, span, stop, refused⟩
    refine .inr ⟨⟨form, span, stop, bind_of_error _ refused⟩, fun answer last run => ?_⟩
    rw [bind_eq_ok_iff] at run
    rcases run with ⟨value, middle, before, after⟩
    exact stays value (harmful value middle before) middle answer last after

theorem Narrows.after (reader : Reader α) {refutable : β → Bool}
    {strict lenient : α → Reader β}
    (next : ∀ value, Narrows refutable (strict value) (lenient value)) :
    Narrows refutable (reader >>= strict) (reader >>= lenient) := by
  have first : Narrows (fun _ => false) reader reader := fun _ => .inl ⟨rfl, fun _ _ _ => rfl⟩
  apply first.bind
  · intro value _
    exact next value
  · intro value impossible
    cases impossible

theorem Narrows.run_eq_ok_iff {refutable : α → Bool} {strict lenient : Reader α}
    (narrows : Narrows refutable strict lenient) {start stop : TokenStream} {value : α} :
    strict.run start = .ok value stop ↔
      lenient.run start = .ok value stop ∧ refutable value = false := by
  rcases narrows start with ⟨same, harmless⟩ | ⟨⟨form, span, last, refused⟩, harmful⟩
  · rw [same]
    exact ⟨fun run => ⟨run, harmless value stop run⟩, And.left⟩
  · rw [refused]
    refine ⟨nofun, fun read => ?_⟩
    have refutes : refutable value = true := harmful value stop read.1
    rw [read.2] at refutes
    cases refutes

theorem narrows_same {refutable : α → Bool} {reader : Reader α}
    (harmless : ∀ stream, Always reader stream fun value => refutable value = false) :
    Narrows refutable reader reader :=
  fun stream => .inl ⟨rfl, harmless stream⟩

theorem narrows_unexpected (expected : Expected) (refutable : α → Bool) :
    Narrows refutable (unexpected expected) (unexpected expected) :=
  narrows_same fun stream => always_unexpected expected stream _

/-! ## Modes -/

def Mode.strict (mode : Mode) : Mode := { mode with context := .bindingOnly }

def Mode.lenient (mode : Mode) : Mode := { mode with context := .full }

theorem narrows_allow (mode : Mode) (form : RefutableForm) {refutable : α → Bool}
    {strict lenient : Unit → Reader α}
    (harmful : ∀ stream, Always (lenient ()) stream fun value => refutable value = true) :
    Narrows refutable (allow mode.strict form >>= strict)
      (allow mode.lenient form >>= lenient) := by
  intro stream
  refine .inr ⟨?_, Always.bind fun _ => harmful⟩
  cases unread : stream.unread with
  | nil =>
    refine ⟨form, ⟨stream.finish, stream.finish⟩, stream, bind_of_error _ ?_⟩
    simp only [allow, get_bind, unread, Mode.strict]
    rfl
  | cons lexeme rest =>
    refine ⟨form, lexeme.span, stream, bind_of_error _ ?_⟩
    simp only [allow, get_bind, unread, Mode.strict]
    rfl

/-! ## Lists in parentheses -/

section

variable {refutable : α → Bool} {strict lenient : Reader α}

theorem narrows_items (item : Narrows refutable strict lenient) (expected : Expected)
    (budget : Nat) :
    Narrows (·.any refutable) (items strict expected budget) (items lenient expected budget) := by
  induction budget with
  | zero => exact narrows_unexpected _ _
  | succ budget induction =>
    apply item.bind
    · intro first harmless
      apply Narrows.after
      intro token
      split
      · apply Narrows.after
        intro _
        apply Narrows.after
        intro token
        split
        · exact narrows_unexpected _ _
        · apply induction.bind
          · intro rest others
            apply narrows_same
            apply always_pure
            rw [List.any_cons, harmless, others]
            rfl
          · intro rest others
            apply always_pure
            rw [List.any_cons, others, Bool.or_true]
      · apply narrows_same
        intro stream
        apply Always.bind
        intro _
        apply always_pure
        rw [List.any_cons, harmless]
        rfl
      · exact narrows_unexpected _ _
    -- Whatever stands behind a refutable item, the list is refutable.
    · intro first harmful stream
      have harmful {rest : List α} : (first :: rest).any refutable = true := by
        rw [List.any_cons, harmful, Bool.true_or]
      apply Always.bind
      intro token middle
      split
      · apply Always.bind
        intro _ middle
        apply Always.bind
        intro token middle
        split
        · exact always_unexpected _ _ _
        · apply Always.bind
          intro rest
          exact always_pure harmful
      · apply Always.bind
        intro _
        exact always_pure harmful
      · exact always_unexpected _ _ _

theorem narrows_itemsOrNone (item : Narrows refutable strict lenient) (expected : Expected) :
    Narrows (·.any refutable) (itemsOrNone strict expected) (itemsOrNone lenient expected) := by
  apply Narrows.after
  intro token
  split
  · apply narrows_same
    intro stream
    apply Always.bind
    intro _
    exact always_pure rfl
  · apply Narrows.after
    exact narrows_items item expected

end

/-! ## Patterns -/

theorem isRefutable_ofItems (items : List Pattern) :
    (Pattern.ofItems items).isRefutable = items.any Pattern.isRefutable := by
  match items with
  | [] => rfl
  | [item] => simp [Pattern.ofItems]
  | first :: second :: rest => simp [Pattern.ofItems, Pattern.isRefutable]

theorem always_bindName (mode : Mode) (name : String) (span : Span) (stream : TokenStream) :
    Always (bindName mode name span) stream fun pattern => pattern.isRefutable = false := by
  intro pattern stop run
  rw [bindName_of_free span (free_of_bindName run)] at run
  cases run
  cases mode.mutability <;> rfl

theorem narrows_bindName (mode : Mode) (name : String) (span : Span) :
    Narrows Pattern.isRefutable (bindName mode.strict name span)
      (bindName mode.lenient name span) :=
  narrows_same (always_bindName mode.lenient name span)

theorem always_enumCase (nested : Mode → Reader Pattern) (mode : Mode) (qualifier : Option String)
    (name : String) (stream : TokenStream) :
    Always (enumCase nested mode qualifier name) stream fun pattern =>
      pattern.isRefutable = true := by
  apply Always.bind
  intro token middle
  split
  · apply Always.bind
    intro _ middle
    apply Always.bind
    intro items
    exact always_pure rfl
  · apply always_pure
    rfl

section

variable {nested : Mode → Reader Pattern}

def NestedNarrows (nested : Mode → Reader Pattern) : Prop :=
  ∀ mode : Mode, Narrows Pattern.isRefutable (nested mode.strict) (nested mode.lenient)

theorem narrows_named (mode : Mode) (name : String) (span : Span) :
    Narrows Pattern.isRefutable (named nested mode.strict name span)
      (named nested mode.lenient name span) := by
  apply Narrows.after
  intro token
  split
  · apply narrows_allow mode .enumCase
    intro stream
    apply Always.bind
    intro _ middle
    apply Always.bind
    intro _ middle
    apply Always.bind
    intro names
    exact always_enumCase _ _ _ _
  · apply narrows_allow mode .enumCase
    intro stream
    apply Always.bind
    intro _
    exact always_enumCase _ _ _ _
  · apply narrows_allow mode .optional
    intro stream
    apply Always.bind
    intro _ middle
    apply Always.bind
    intro _ middle
    apply Always.bind
    intro pattern
    exact always_pure rfl
  · apply Narrows.after
    intro _
    exact narrows_bindName mode name span

theorem narrows_primary (narrows : NestedNarrows nested) (mode : Mode) :
    Narrows Pattern.isRefutable (primary nested mode.strict) (primary nested mode.lenient) := by
  apply Narrows.after
  intro stream
  cases stream.unread with
  | nil => exact narrows_unexpected _ _
  | cons lexeme rest =>
    dsimp only
    cases lexeme.token with
    | letKeyword =>
      apply Narrows.after
      intro _
      exact narrows { mode with mutability := some false }
    | varKeyword =>
      apply Narrows.after
      intro _
      exact narrows { mode with mutability := some true }
    | underscore =>
      apply narrows_same
      intro stream
      apply Always.bind
      intro _
      exact always_pure rfl
    | leftParen =>
      apply Narrows.after
      intro _
      apply (narrows_itemsOrNone (narrows mode) .pattern).bind
      · intro items harmless
        apply narrows_same
        apply always_pure
        rw [isRefutable_ofItems, harmless]
      · intro items harmful
        apply always_pure
        rw [isRefutable_ofItems, harmful]
    | dot =>
      apply narrows_allow mode .enumCase
      intro stream
      apply Always.bind
      intro _ middle
      apply Always.bind
      intro name
      exact always_enumCase _ _ _ _
    | identifier name => exact narrows_named mode name lexeme.span
    | isKeyword =>
      apply narrows_allow mode .typeCasting
      intro stream
      apply Always.bind
      intro _ middle
      apply Always.bind
      intro type
      exact always_pure rfl
    | integer | float | string | boolean | nilKeyword | minus =>
      apply narrows_allow mode .expression
      intro stream
      apply Always.bind
      intro value
      exact always_pure rfl
    | _ => exact narrows_unexpected _ _

theorem narrows_annotated (narrows : NestedNarrows nested) (mode : Mode) :
    Narrows Pattern.isRefutable (annotated nested mode.strict) (annotated nested mode.lenient) := by
  apply (narrows_primary narrows mode).bind
  · intro pattern harmless
    apply narrows_same
    intro stream
    apply Always.bind
    intro token middle
    split
    · apply Always.bind
      intro _ middle
      apply Always.bind
      intro type
      exact always_pure harmless
    · apply always_pure
      exact harmless
  · intro pattern harmful stream
    apply Always.bind
    intro token middle
    split
    · apply Always.bind
      intro _ middle
      apply Always.bind
      intro type
      exact always_pure harmful
    · apply always_pure
      exact harmful

theorem always_casts (mode : Mode) {pattern : Pattern} (harmful : pattern.isRefutable = true)
    (budget : Nat) (stream : TokenStream) :
    Always (casts mode pattern budget) stream fun answer => answer.isRefutable = true := by
  induction budget generalizing pattern stream with
  | zero =>
    apply always_pure
    exact harmful
  | succ budget induction =>
    apply Always.bind
    intro token middle
    split
    · apply Always.bind
      intro _ middle
      apply Always.bind
      intro _ middle
      apply Always.bind
      intro type middle
      exact induction rfl middle
    · apply always_pure
      exact harmful

theorem narrows_casts (mode : Mode) {pattern : Pattern} (harmless : pattern.isRefutable = false)
    (budget : Nat) :
    Narrows Pattern.isRefutable (casts mode.strict pattern budget)
      (casts mode.lenient pattern budget) := by
  cases budget with
  | zero =>
    apply narrows_same
    exact always_pure harmless
  | succ budget =>
    apply Narrows.after
    intro token
    split
    · apply narrows_allow mode .typeCasting
      intro stream
      apply Always.bind
      intro _ middle
      apply Always.bind
      intro type
      exact always_casts _ rfl _
    · apply narrows_same
      exact always_pure harmless

end

theorem narrows_patternWithin (depth : Nat) : NestedNarrows (patternWithin depth) := by
  induction depth with
  | zero =>
    intro mode
    exact narrows_unexpected _ _
  | succ depth induction =>
    intro mode
    apply (narrows_annotated induction mode).bind
    · intro pattern harmless
      apply Narrows.after
      intro budget
      exact narrows_casts mode harmless budget
    · intro pattern harmful stream
      apply Always.bind
      intro budget
      exact always_casts _ harmful budget

theorem narrows_patternIn (mode : Mode) :
    Narrows Pattern.isRefutable (patternIn mode.strict) (patternIn mode.lenient) := by
  apply Narrows.after
  intro _
  apply Narrows.after
  intro depth
  exact narrows_patternWithin depth mode

theorem narrows_wholeIn (mode : Mode) :
    Narrows Pattern.isRefutable (wholeIn mode.strict) (wholeIn mode.lenient) := by
  apply (narrows_patternIn mode).bind
  · intro pattern harmless
    apply Narrows.after
    intro token
    split
    · apply narrows_same
      exact always_pure harmless
    · exact narrows_unexpected _ _
  · intro pattern harmful stream
    apply Always.bind
    intro token middle
    split
    · apply always_pure
      exact harmful
    · exact always_unexpected _ _ _

end Reader

namespace Pattern

theorem parse_narrows (source : String) :
    (parse .bindingOnly source = parse .full source ∧
      ∀ pattern, parse .full source = .ok pattern → pattern.isRefutable = false) ∨
    ((∃ form span, parse .bindingOnly source = .error (.illegalForm form span)) ∧
      ∀ pattern, parse .full source = .ok pattern → pattern.isRefutable = true) := by
  unfold parse parseIn
  cases lex source with
  | error error => exact .inl ⟨rfl, nofun⟩
  | ok lexemes =>
    rcases Reader.narrows_wholeIn (Reader.modeOf .full) (.ofLexemes lexemes) with
      ⟨same, harmless⟩ | ⟨⟨form, span, stop, refused⟩, harmful⟩
    · refine .inl ⟨Reader.answer_congr same, fun pattern read => ?_⟩
      rcases Reader.answer_eq_ok_iff.mp read with ⟨stop, run⟩
      exact harmless pattern stop run
    · refine .inr ⟨⟨form, span, Reader.answer_of_error refused⟩, fun pattern read => ?_⟩
      rcases Reader.answer_eq_ok_iff.mp read with ⟨stop, run⟩
      exact harmful pattern stop run

theorem parse_bindingOnly_eq_ok_iff (source : String) (pattern : Pattern) :
    parse .bindingOnly source = .ok pattern ↔
      parse .full source = .ok pattern ∧ pattern.isRefutable = false := by
  rcases parse_narrows source with ⟨same, harmless⟩ | ⟨⟨form, span, refused⟩, harmful⟩
  · rw [same]
    exact ⟨fun read => ⟨read, harmless pattern read⟩, And.left⟩
  · rw [refused]
    refine ⟨nofun, fun read => ?_⟩
    have refutable := harmful pattern read.1
    rw [read.2] at refutable
    cases refutable

/-- Where only bindings may stand, exactly the irrefutable patterns are accepted, refutable ones
are refused for a form that is not allowed, and what is no pattern at all stays none. -/
theorem parse_bindingOnly_irrefutable (source : String) :
    (∀ pattern, parse .bindingOnly source = .ok pattern ↔
      parse .full source = .ok pattern ∧ pattern.isRefutable = false) ∧
    (∀ pattern, parse .full source = .ok pattern → pattern.isRefutable = true →
      ∃ form span, parse .bindingOnly source = .error (.illegalForm form span)) ∧
    (∀ error, parse .full source = .error error →
      ∃ other, parse .bindingOnly source = .error other) := by
  refine ⟨parse_bindingOnly_eq_ok_iff source, ?_⟩
  rcases parse_narrows source with ⟨same, harmless⟩ | ⟨⟨form, span, refused⟩, -⟩
  · rw [same]
    constructor
    · intro pattern read refutable
      rw [harmless pattern read] at refutable
      cases refutable
    · intro error failed
      exact ⟨error, failed⟩
  · exact ⟨fun _ _ _ => ⟨form, span, refused⟩, fun _ _ => ⟨_, refused⟩⟩

theorem parse_bindingOnly_optional :
    (∃ form span, parse .bindingOnly "x?" = .error (.illegalForm form span)) ∧
      ∃ other, parse .bindingOnly "(" = .error other := by
  have optional : parse .full "x?" = .ok (.optional (.identifier "x")) := by rfl
  have unfinished : parse .full "(" = .error (.unexpectedEnd .pattern 1) := by rfl
  exact ⟨(parse_bindingOnly_irrefutable "x?").2.1 _ optional rfl,
    (parse_bindingOnly_irrefutable "(").2.2 _ unfinished⟩

end Pattern

end PatternClauses
