import PatternClauses.Pattern.Parser
import PatternClauses.Proofs.Parsing.Grammar

/-!
# Runs of readers

What the single steps of a reader do to a stream, and `Takes`, which says that a run took certain
tokens from the front and bound certain names.  A run is followed by the tokens that are unread:
where they came from matters only for messages.
-/

namespace PatternClauses

namespace TokenStream

def tokens (stream : TokenStream) : List Token := stream.unread.map (·.token)

/-- The names bound since the current pattern began, the last one first. -/
def boundNames (stream : TokenStream) : List String := stream.bound.map (·.1)

@[simp] theorem tokens_advance (stream : TokenStream) :
    stream.advance.tokens = stream.tokens.tail := by
  unfold advance tokens
  cases unread : stream.unread <;> simp [unread]

theorem tokens_second (stream : TokenStream) :
    stream.tokens[1]? = stream.advance.tokens.head? := by
  rw [tokens_advance, List.head?_tail]

@[simp] theorem boundNames_advance (stream : TokenStream) :
    stream.advance.boundNames = stream.boundNames := by
  unfold advance boundNames
  cases stream.unread <;> rfl

theorem unread_of_tokens {stream : TokenStream} {token : Token} {rest : List Token}
    (here : stream.tokens = token :: rest) :
    ∃ lexeme behind, stream.unread = lexeme :: behind ∧ lexeme.token = token ∧
      behind.map (·.token) = rest :=
  List.map_eq_cons_iff.mp here

theorem head?_of_unread {stream : TokenStream} {lexeme : Lexeme} {behind : List Lexeme}
    (unread : stream.unread = lexeme :: behind) : stream.tokens.head? = some lexeme.token := by
  rw [tokens, unread, List.map_cons, List.head?_cons]

theorem unread_advance {stream : TokenStream} {lexeme : Lexeme} {rest : List Lexeme}
    (unread : stream.unread = lexeme :: rest) : stream.advance.unread = rest := by
  rw [TokenStream.advance, unread]

theorem length_advance {stream : TokenStream} {token : Token}
    (here : stream.tokens.head? = some token) :
    stream.advance.tokens.length + 1 = stream.tokens.length := by
  rcases List.head?_eq_some_iff.mp here with ⟨rest, tokens⟩
  rw [tokens_advance, tokens, List.tail_cons, List.length_cons]

theorem tokens_of_last {stream : TokenStream} {token : Token}
    (here : stream.tokens.head? = some token) (nothing : stream.advance.tokens = []) :
    stream.tokens = [token] := by
  rcases List.head?_eq_some_iff.mp here with ⟨rest, tokens⟩
  rw [tokens_advance, tokens, List.tail_cons] at nothing
  rw [tokens, nothing]

/-- The step from one stream to another takes tokens from the front and binds names. -/
structure Takes (start : TokenStream) (taken : List Token) (names : List String)
    (stop : TokenStream) : Prop where
  tokens : start.tokens = taken ++ stop.tokens
  unread : stop.unread = start.unread.drop taken.length
  cursor : stop.cursor = start.cursor + taken.length
  finish : stop.finish = start.finish
  names : stop.boundNames = names.reverse ++ start.boundNames

theorem Takes.refl (stream : TokenStream) : Takes stream [] [] stream where
  tokens := rfl
  unread := rfl
  cursor := rfl
  finish := rfl
  names := rfl

theorem Takes.trans {start middle stop : TokenStream} {first second : List Token}
    {firstNames secondNames : List String} (one : Takes start first firstNames middle)
    (two : Takes middle second secondNames stop) :
    Takes start (first ++ second) (firstNames ++ secondNames) stop where
  tokens := by rw [one.tokens, two.tokens, List.append_assoc]
  unread := by rw [two.unread, one.unread, List.drop_drop, List.length_append]
  cursor := by rw [two.cursor, one.cursor, List.length_append, Nat.add_assoc]
  finish := two.finish.trans one.finish
  names := by rw [two.names, one.names, List.reverse_append, List.append_assoc]

theorem Takes.advance {stream : TokenStream} {token : Token}
    (next : stream.tokens.head? = some token) : Takes stream [token] [] stream.advance := by
  rcases List.head?_eq_some_iff.mp next with ⟨rest, here⟩
  rcases unread_of_tokens here with ⟨lexeme, behind, unread, rfl, rfl⟩
  constructor <;> simp [TokenStream.advance, TokenStream.tokens, boundNames, unread]

theorem Takes.tokens_eq {start stop : TokenStream} {taken rest : List Token}
    {names : List String} (takes : Takes start taken names stop)
    (here : start.tokens = taken ++ rest) : stop.tokens = rest :=
  List.append_cancel_left (takes.tokens.symm.trans here)

end TokenStream

namespace Reader

open TokenStream

/-! ## Sequencing -/

theorem bind_eq_ok_iff {reader : Reader α} {next : α → Reader β} {start stop : TokenStream}
    {result : β} : (reader >>= next).run start = .ok result stop ↔
      ∃ value middle, reader.run start = .ok value middle ∧
        (next value).run middle = .ok result stop := by
  simp only [Bind.bind, EStateM.run, EStateM.bind]
  cases reader start with
  | ok value middle =>
    constructor
    · exact fun run => ⟨value, middle, rfl, run⟩
    · rintro ⟨_, _, same, run⟩
      cases same
      exact run
  | error error middle => simp

theorem bind_of_ok {reader : Reader α} {start middle : TokenStream} {value : α}
    (next : α → Reader β) (run : reader.run start = .ok value middle) :
    (reader >>= next).run start = (next value).run middle := by
  unfold EStateM.run at run
  simp only [Bind.bind, EStateM.run, EStateM.bind, run]

theorem bind_of_error {reader : Reader α} {start stop : TokenStream} {error : ParseError}
    (next : α → Reader β) (run : reader.run start = .error error stop) :
    (reader >>= next).run start = .error error stop := by
  unfold EStateM.run at run
  simp only [Bind.bind, EStateM.run, EStateM.bind, run]

@[simp] theorem pure_run (value : α) (stream : TokenStream) :
    (pure value : Reader α).run stream = .ok value stream := rfl

@[simp] theorem next?_bind (next : Option Token → Reader α) (stream : TokenStream) :
    (next? >>= next).run stream = (next stream.tokens.head?).run stream := by
  rw [tokens, List.head?_map]
  rfl

@[simp] theorem peek?_bind (distance : Nat) (next : Option Token → Reader α)
    (stream : TokenStream) :
    (peek? distance >>= next).run stream = (next stream.tokens[distance]?).run stream := by
  rw [tokens, List.getElem?_map]
  rfl

@[simp] theorem advance_bind (next : Unit → Reader α) (stream : TokenStream) :
    (advance >>= next).run stream = (next ()).run stream.advance := rfl

@[simp] theorem remaining_bind (next : Nat → Reader α) (stream : TokenStream) :
    (remaining >>= next).run stream = (next stream.tokens.length).run stream := by
  rw [tokens, List.length_map]
  rfl

@[simp] theorem get_bind (next : TokenStream → Reader α) (stream : TokenStream) :
    (get >>= next).run stream = (next stream).run stream := rfl

@[simp] theorem modify_bind (change : TokenStream → TokenStream) (next : Unit → Reader α)
    (stream : TokenStream) :
    (modify change >>= next).run stream = (next ()).run (change stream) := rfl

theorem unexpected_ne_ok (expected : Expected) (start stop : TokenStream) (value : α) :
    (unexpected expected).run start ≠ .ok value stop := by
  unfold unexpected
  rw [get_bind]
  cases start.unread <;> exact fun run => by cases run

theorem name_eq_ok_iff {expected : Expected} {start stop : TokenStream} {value : String} :
    (name expected).run start = .ok value stop ↔
      start.tokens.head? = some (.identifier value) ∧ stop = start.advance := by
  simp only [name, next?_bind]
  constructor
  · intro run
    split at run
    · rename_i found next
      cases run
      exact ⟨next, rfl⟩
    · exact absurd run (unexpected_ne_ok _ _ _ _)
  · rintro ⟨next, rfl⟩
    simp only [next]
    rfl

/-! ## Answers -/

theorem answer_eq_ok_iff {reader : Reader α} {stream : TokenStream} {value : α} :
    reader.answer stream = .ok value ↔ ∃ stop, reader.run stream = .ok value stop := by
  unfold answer
  cases reader.run stream <;> simp

theorem answer_eq_error_iff {reader : Reader α} {stream : TokenStream} {error : ParseError} :
    reader.answer stream = .error error ↔ ∃ stop, reader.run stream = .error error stop := by
  unfold answer
  cases reader.run stream <;> simp

theorem answer_of_error {reader : Reader α} {start stop : TokenStream} {error : ParseError}
    (run : reader.run start = .error error stop) : reader.answer start = .error error := by
  rw [answer, run]

theorem answer_congr {first second : Reader α} {stream : TokenStream}
    (same : first.run stream = second.run stream) : first.answer stream = second.answer stream := by
  rw [answer, answer, same]

/-! ## Names -/

def recorded (stream : TokenStream) (name : String) (span : Span) : TokenStream :=
  { stream with bound := (name, span) :: stream.bound }

theorem Takes.recorded (stream : TokenStream) (name : String) (span : Span) :
    Takes stream [] [name] (recorded stream name span) where
  tokens := rfl
  unread := rfl
  cursor := rfl
  finish := rfl
  names := rfl

theorem lookup_bound_eq_none_iff (stream : TokenStream) (name : String) :
    stream.bound.lookup name = none ↔ name ∉ stream.boundNames := by
  rw [List.lookup_eq_none_iff, boundNames, List.mem_map]
  constructor
  · rintro absent ⟨pair, member, rfl⟩
    simpa using absent pair member
  · intro absent pair member
    rw [bne_iff_ne]
    exact fun same => absent ⟨pair, member, same.symm⟩

theorem bindName_of_free {mode : Mode} {name : String} {stream : TokenStream} (span : Span)
    (free : mode.uniqueNames = true → name ∉ stream.boundNames) :
    (bindName mode name span).run stream =
      .ok (Grammar.leaf mode.mutability name) (recorded stream name span) := by
  rw [bindName, get_bind]
  split
  · rename_i unique found
    have absent := (lookup_bound_eq_none_iff stream name).mpr (free unique)
    rw [absent] at found
    cases found
  · rw [modify_bind]
    cases mode.mutability <;> rfl

theorem free_of_bindName {mode : Mode} {name : String} {span : Span} {start stop : TokenStream}
    {pattern : Pattern} (run : (bindName mode name span).run start = .ok pattern stop) :
    mode.uniqueNames = true → name ∉ start.boundNames := by
  intro unique
  rw [← lookup_bound_eq_none_iff, Option.eq_none_iff_forall_ne_some]
  intro first found
  rw [bindName, get_bind, unique, found] at run
  cases run

/-! ## Annotations -/

theorem annotatable_iff (pattern : Pattern) :
    isAnnotatable pattern = true ↔ Grammar.Annotatable pattern := by
  constructor
  · intro annotatable
    cases pattern <;> first | constructor | cases annotatable
  · intro annotatable
    cases annotatable <;> rfl

end Reader

end PatternClauses
