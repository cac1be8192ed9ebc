import PatternClauses.Proofs.Parsing.Failures

/-!
# The front part of a list

Two runs, one over a whole list of lexemes and one over its front part.  As long as they stand in
the same place they go in step, and at the end of the part the shorter run runs out.  `CutShort`
says this of two readers, and the ways to put readers together keep it.
-/

namespace PatternClauses

def Place.afterAll (place : Place) (tokens : List Token) : Place := tokens.foldl Place.after place

theorem Place.afterAll_concat (place : Place) (tokens : List Token) (token : Token) :
    place.afterAll (tokens ++ [token]) = (place.afterAll tokens).after token :=
  List.foldl_concat _ _ _ _

/-- The tokens end in a dot inside a type. -/
def BreaksOffType (front : List Token) : Prop :=
  ∃ before depth, front = before ++ [.dot] ∧ Place.pattern.afterAll before = .type depth

/-- The tokens end in a name outside of types, and what it was in front of makes it the name of an
enum or of a case. -/
def BreaksOffCase (front : List Token) (next : Option Token) (name : String) : Prop :=
  ∃ before, front = before ++ [.identifier name] ∧ Place.pattern.afterAll before = .pattern ∧
    (next = some .dot ∨ next = some .leftParen)

theorem mem_leavesFrom {place : Place} {passed rest : List Lexeme} {name : String} {span : Span}
    (stands : place.afterAll (passed.map (·.token)) = .pattern)
    (dot : rest.head?.map (·.token) ≠ some .dot)
    (parenthesis : rest.head?.map (·.token) ≠ some .leftParen) :
    (name, span) ∈ leavesFrom place (passed ++ ⟨.identifier name, span⟩ :: rest) := by
  induction passed generalizing place with
  | nil =>
    cases stands
    simp [leavesFrom, Place.boundName?, dot, parenthesis]
  | cons lexeme passed induction =>
    have later := induction stands
    rw [List.cons_append, leavesFrom]
    split
    · exact List.mem_cons_of_mem _ later
    · exact later

/-- A list of lexemes in two parts, of which the first does not break off a dotted type name. -/
structure Cut where
  front : List Lexeme
  behind : List Lexeme
  complete : ¬ BreaksOffType (front.map (·.token))

namespace TokenStream

/-- Two streams that stand in the same place, one in the whole list and one in its front part. -/
structure Follows (cut : Cut) (place : Place) (start short : TokenStream) : Prop where
  unread : start.unread = short.unread ++ cut.behind
  bound : start.bound = short.bound
  leaves : ∀ entry ∈ short.bound, entry ∈ leaves (cut.front ++ cut.behind)
  passed : ∃ passed, cut.front = passed ++ short.unread ∧
    Place.pattern.afterAll (passed.map (·.token)) = place

variable {cut : Cut} {place : Place} {start short : TokenStream}

theorem Follows.length (follows : Follows cut place start short) :
    start.tokens.length = short.tokens.length + cut.behind.length := by
  rw [tokens, tokens, follows.unread, List.length_map, List.length_map, List.length_append]

theorem Follows.next (follows : Follows cut place start short) :
    short.tokens = [] ∨ short.tokens.head? = start.tokens.head? := by
  cases unread : short.unread with
  | nil => exact .inl (by rw [tokens, unread, List.map_nil])
  | cons lexeme rest =>
    have whole := follows.unread
    rw [unread, List.cons_append] at whole
    exact .inr ((head?_of_unread unread).trans (head?_of_unread whole).symm)

theorem Follows.head? (follows : Follows cut place start short) {token : Token}
    (here : short.tokens.head? = some token) : start.tokens.head? = some token := by
  rcases follows.next with nothing | same
  · rw [nothing] at here
    cases here
  · rwa [← same]

theorem Follows.advance (follows : Follows cut place start short) {token : Token}
    (here : short.tokens.head? = some token) :
    Follows cut (place.after token) start.advance short.advance := by
  rcases List.head?_eq_some_iff.mp here with ⟨rest, tokens⟩
  rcases unread_of_tokens tokens with ⟨lexeme, more, unread, rfl, rfl⟩
  have whole := follows.unread
  rw [unread, List.cons_append] at whole
  rcases follows.passed with ⟨passed, split, stands⟩
  constructor
  · simp [TokenStream.advance, unread, whole]
  · simp [TokenStream.advance, unread, whole, follows.bound]
  · simpa [TokenStream.advance, unread] using follows.leaves
  · refine ⟨passed ++ [lexeme], ?_, ?_⟩
    · simp [TokenStream.advance, split, unread]
    · rw [List.map_append, List.map_singleton, Place.afterAll_concat, stands]

theorem Follows.head?_behind (follows : Follows cut place start short)
    (nothing : short.tokens = []) :
    start.tokens.head? = cut.behind.head?.map (·.token) := by
  have unread : short.unread = [] := List.map_eq_nil_iff.mp nothing
  rw [tokens, follows.unread, unread, List.nil_append, List.head?_map]

theorem Follows.boundNames (follows : Follows cut place start short) :
    start.boundNames = short.boundNames := by
  rw [TokenStream.boundNames, TokenStream.boundNames, follows.bound]

theorem Follows.dot_not_last {depth : Nat} (follows : Follows cut (.type depth) start short)
    (here : short.tokens.head? = some .dot) : short.advance.tokens ≠ [] := by
  intro nothing
  rcases follows.passed with ⟨passed, split, stands⟩
  have last : short.unread.map (·.token) = [.dot] := tokens_of_last here nothing
  refine cut.complete ⟨passed.map (·.token), depth, ?_, stands⟩
  rw [split, List.map_append, last]

theorem Follows.mem_leaves (follows : Follows cut .pattern start short) {name : String}
    {span : Span} {rest : List Lexeme} (unread : short.unread = ⟨.identifier name, span⟩ :: rest)
    (dot : start.advance.tokens.head? ≠ some .dot)
    (parenthesis : start.advance.tokens.head? ≠ some .leftParen) :
    (name, span) ∈ PatternClauses.leaves (cut.front ++ cut.behind) := by
  have whole := follows.unread
  rw [unread, List.cons_append] at whole
  have behind : start.advance.tokens.head? = (rest ++ cut.behind).head?.map (·.token) := by
    rw [tokens, unread_advance whole, List.head?_map]
  rw [behind] at dot parenthesis
  rcases follows.passed with ⟨passed, split, stands⟩
  rw [split, unread, List.append_assoc]
  exact mem_leavesFrom stands dot parenthesis

end TokenStream

namespace Reader

open TokenStream

/-- The run comes to the end of the part, or reports it.  A name is refused only where the part
ends, if there it is not the name that it is in the whole list. -/
def RunsOut (cut : Cut) : EStateM.Result ParseError TokenStream α → Prop
  | .ok _ stop => stop.tokens = []
  | .error (.unexpectedEnd _ _) _ => True
  | .error (.duplicateBinding duplicate) stop => stop.tokens = [] ∧
      BreaksOffCase (cut.front.map (·.token)) (cut.behind.head?.map (·.token)) duplicate.name ∧
      ∀ first second, duplicate.places = some (first, second) →
        (duplicate.name, first) ∈ leaves (cut.front ++ cut.behind)
  | .error _ _ => False

def EndsAtEnd (cut : Cut) (reader : Reader α) : Prop :=
  ∀ start, start.tokens = [] → RunsOut cut (reader.run start)

/-- The run in the part gives the same value in the same place, or it runs out. -/
def GoesAlong (cut : Cut) (ends : Place → Prop) (room : Nat) (value : α) (stop : TokenStream)
    (result : EStateM.Result ParseError TokenStream α) : Prop :=
  (∃ place short, result = .ok value short ∧ ends place ∧ Follows cut place stop short ∧
    short.tokens.length ≤ room) ∨ RunsOut cut result

theorem GoesAlong.mono {cut : Cut} {ends more : Place → Prop} {room most : Nat} {value : α}
    {stop : TokenStream} {result : EStateM.Result ParseError TokenStream α}
    (goes : GoesAlong cut ends room value stop result) (weaker : ∀ place, ends place → more place)
    (within : room ≤ most) : GoesAlong cut more most value stop result := by
  rcases goes with ⟨place, short, done, ending, follows, less⟩ | runsOut
  · exact .inl ⟨place, short, done, weaker place ending, follows, less.trans within⟩
  · exact .inr runsOut

/-- A reader of the part, with at most `room` tokens left, goes along with one of the whole list. -/
def CutShort (cut : Cut) (room : Nat) (reader shortReader : Reader α) (before : Place)
    (ends : Place → Prop) : Prop :=
  ∀ start short, Follows cut before start short → short.tokens.length ≤ room →
    ∀ value stop, reader.run start = .ok value stop →
      GoesAlong cut ends short.tokens.length value stop (shortReader.run short)

section

variable {cut : Cut} {room : Nat} {before : Place} {ends : Place → Prop}

/-! ## At the end of the part -/

theorem endsAtEnd_pure (value : α) : EndsAtEnd cut (pure value : Reader α) :=
  fun _ nothing => nothing

theorem endsAtEnd_unexpected (expected : Expected) :
    EndsAtEnd cut (unexpected expected : Reader α) := by
  intro start nothing
  have unread : start.unread = [] := List.map_eq_nil_iff.mp nothing
  rw [unexpected, get_bind, unread]
  trivial

theorem RunsOut.of_error {error : ParseError} {stop : TokenStream}
    (runsOut : RunsOut cut (.error error stop : EStateM.Result ParseError TokenStream α)) :
    RunsOut cut (.error error stop : EStateM.Result ParseError TokenStream β) := by
  cases error <;> exact runsOut

theorem RunsOut.bind {reader : Reader α} {next : α → Reader β} {start : TokenStream}
    (first : RunsOut cut (reader.run start)) (finish : ∀ value, EndsAtEnd cut (next value)) :
    RunsOut cut ((reader >>= next).run start) := by
  cases run : reader.run start with
  | ok value middle =>
    rw [bind_of_ok _ run]
    rw [run] at first
    exact finish value middle first
  | error error stop =>
    rw [bind_of_error _ run]
    rw [run] at first
    exact first.of_error

theorem EndsAtEnd.bind {reader : Reader α} {next : α → Reader β} (first : EndsAtEnd cut reader)
    (finish : ∀ value, EndsAtEnd cut (next value)) : EndsAtEnd cut (reader >>= next) :=
  fun start nothing => (first start nothing).bind finish

theorem endsAtEnd_next? {next : Option Token → Reader α} (finish : EndsAtEnd cut (next none)) :
    EndsAtEnd cut (next? >>= next) := by
  intro start nothing
  rw [next?_bind, nothing]
  exact finish start nothing

theorem endsAtEnd_remaining {next : Nat → Reader α} (finish : EndsAtEnd cut (next 0)) :
    EndsAtEnd cut (remaining >>= next) := by
  intro start nothing
  rw [remaining_bind, nothing]
  exact finish start nothing

/-! ## In step -/

theorem cutShort_pure (value : α) (stands : ends before) :
    CutShort cut room (pure value : Reader α) (pure value) before ends := by
  intro start short follows _ _ _ run
  cases run
  exact .inl ⟨before, short, rfl, stands, follows, Nat.le_refl _⟩

theorem cutShort_unexpected (expected : Expected) (short : Reader α) :
    CutShort cut room (unexpected expected) short before ends :=
  fun _ _ _ _ _ _ run => absurd run (unexpected_ne_ok _ _ _ _)

theorem CutShort.bind {middle : Place → Prop} {reader shortReader : Reader α}
    {next shortNext : α → Reader β} (first : CutShort cut room reader shortReader before middle)
    (rest : ∀ value place, middle place →
      CutShort cut room (next value) (shortNext value) place ends)
    (finish : ∀ value, EndsAtEnd cut (shortNext value)) :
    CutShort cut room (reader >>= next) (shortReader >>= shortNext) before ends := by
  intro start short follows enough result stop run
  rw [bind_eq_ok_iff] at run
  rcases run with ⟨value, last, one, run⟩
  rcases first start short follows enough value last one with
    ⟨place, shortLast, shortRun, stands, follows, less⟩ | runsOut
  · rw [bind_of_ok _ shortRun]
    have goes := rest value place stands last shortLast follows (less.trans enough) _ _ run
    exact goes.mono (fun _ => id) less
  · exact .inr (runsOut.bind finish)

theorem CutShort.remaining {next shortNext : Nat → Reader α}
    (rest : ∀ left, left ≤ room →
      CutShort cut left (next (left + cut.behind.length)) (shortNext left) before ends) :
    CutShort cut room (remaining >>= next) (remaining >>= shortNext) before ends := by
  intro start short follows enough value stop run
  rw [remaining_bind, follows.length] at run
  rw [remaining_bind]
  exact rest _ enough start short follows (Nat.le_refl _) value stop run

theorem CutShort.mono {most : Nat} {reader shortReader : Reader α}
    (goes : CutShort cut most reader shortReader before ends) (within : room ≤ most) :
    CutShort cut room reader shortReader before ends :=
  fun start short follows enough => goes start short follows (enough.trans within)

theorem CutShort.ending {more : Place → Prop} {reader shortReader : Reader α}
    (goes : CutShort cut room reader shortReader before ends)
    (weaker : ∀ place, ends place → more place) :
    CutShort cut room reader shortReader before more := by
  intro start short follows enough value stop run
  exact (goes start short follows enough value stop run).mono weaker (Nat.le_refl _)

theorem CutShort.bind_pure {reader shortReader : Reader α}
    (goes : CutShort cut room reader shortReader before ends) (make : α → β) :
    CutShort cut room (reader >>= fun value => pure (make value))
      (shortReader >>= fun value => pure (make value)) before ends :=
  goes.bind (fun _ _ stands => cutShort_pure _ stands) fun _ => endsAtEnd_pure _

theorem EndsAtEnd.bind_pure {reader : Reader α} (finish : EndsAtEnd cut reader) (make : α → β) :
    EndsAtEnd cut (reader >>= fun value => pure (make value)) :=
  finish.bind fun _ => endsAtEnd_pure _

theorem cutShort_of_nothing {reader shortReader : Reader α} (finish : EndsAtEnd cut shortReader) :
    CutShort cut 0 reader shortReader before ends := by
  intro start short follows enough value stop run
  exact .inr (finish short (List.eq_nil_of_length_eq_zero (Nat.le_zero.mp enough)))

def CutShortAt (cut : Cut) (room : Nat) (found : Option Token) (reader shortReader : Reader α)
    (before : Place) (ends : Place → Prop) : Prop :=
  ∀ start short, Follows cut before start short → short.tokens.length ≤ room →
    short.tokens.head? = found → ∀ value stop, reader.run start = .ok value stop →
      GoesAlong cut ends short.tokens.length value stop (shortReader.run short)

theorem CutShortAt.of {found : Option Token} {reader shortReader : Reader α}
    (goes : CutShort cut room reader shortReader before ends) :
    CutShortAt cut room found reader shortReader before ends :=
  fun start short follows enough _ => goes start short follows enough

theorem CutShort.next? {next shortNext : Option Token → Reader α}
    (finish : EndsAtEnd cut (shortNext none))
    (rest : ∀ found, CutShortAt cut room found (next found) (shortNext found) before ends) :
    CutShort cut room (next? >>= next) (next? >>= shortNext) before ends := by
  intro start short follows enough value stop run
  rcases follows.next with nothing | same
  · exact .inr (endsAtEnd_next? finish short nothing)
  · rw [next?_bind] at run
    rw [next?_bind, same]
    exact rest _ start short follows enough same value stop run

theorem CutShortAt.after {token : Token} {after : Place} {next shortNext : Unit → Reader α}
    (rest : CutShort cut room (next ()) (shortNext ()) after ends)
    (stands : before.after token = after) :
    CutShortAt cut (room + 1) (some token) (advance >>= next) (advance >>= shortNext) before
      ends := by
  intro start short follows enough here value stop run
  have length := length_advance here
  subst stands
  have goes := rest _ _ (follows.advance here) (by omega) _ _ run
  exact goes.mono (fun _ => id) (by omega)

theorem CutShortAt.mono {most : Nat} {found : Option Token} {reader shortReader : Reader α}
    (goes : CutShortAt cut most found reader shortReader before ends) (within : room ≤ most) :
    CutShortAt cut room found reader shortReader before ends :=
  fun start short follows enough => goes start short follows (enough.trans within)

theorem CutShortAt.allow {mode : Mode} (full : mode.context = .full) {form : RefutableForm}
    {found : Option Token} {next shortNext : Unit → Reader α}
    (rest : CutShortAt cut room found (next ()) (shortNext ()) before ends) :
    CutShortAt cut room found (allow mode form >>= next) (allow mode form >>= shortNext) before
      ends := by
  intro start short follows enough here value stop run
  rw [allow_bind full] at run ⊢
  exact rest start short follows enough here value stop run

end

end Reader

end PatternClauses
