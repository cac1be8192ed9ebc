import PatternClauses.Proofs.Parsing.Failures
import PatternClauses.Proofs.Parsing.Irrefutable

/-!
# Reading patterns one after another

Where a pattern is read in a longer list of lexemes, whatever was asked of the same stream before,
it takes a part of the list that spells the same pattern on its own.  And a list that spells a
pattern on its own is read as that pattern in any surroundings, if what follows is nothing or ends
an item of a list.
-/

namespace PatternClauses

namespace TokenStream

def fromPlace (lexemes : List Lexeme) (place : Nat) : TokenStream where
  unread := lexemes.drop place
  cursor := place
  finish := sourceEnd lexemes
  bound := []

theorem traced_fromPlace {lexemes : List Lexeme} {place : Nat} (within : place ≤ lexemes.length) :
    Traced lexemes (fromPlace lexemes place) where
  toAt := ⟨within, rfl, rfl⟩
  bound _ member := absurd member List.not_mem_nil

theorem Takes.part {lexemes : List Lexeme} {start stop : TokenStream} {taken : List Token}
    {names : List String} (takes : Takes start taken names stop)
    (unread : start.unread = lexemes.drop start.cursor) :
    ((lexemes.take stop.cursor).drop start.cursor).map (·.token) = taken := by
  have amount : stop.cursor - start.cursor = taken.length := by
    rw [takes.cursor, Nat.add_sub_cancel_left]
  have front : start.tokens.take taken.length = taken := by
    rw [takes.tokens, List.take_left]
  rw [List.drop_take, amount, ← unread, List.map_take]
  exact front

end TokenStream

namespace Reader

open TokenStream Grammar

inductive Request where
  | pattern (context : PatternContext)
  | type
  | token (kind : Token) (expected : Expected)

/-- The stream that is left, also when the request fails. -/
def Request.perform (stream : TokenStream) : Request → TokenStream
  | .pattern context => behind (Reader.pattern context) stream
  | .type => behind Reader.type stream
  | .token kind expected => behind (Reader.token kind expected) stream

theorem settles_token {lexemes : List Lexeme} (kind : Token) (expected : Expected) :
    Settles lexemes (token kind expected) := by
  intro start traced
  simp only [token, next?_bind]
  split
  · split
    · exact traced.advance
    · exact settles_unexpected _ _ traced
  · exact settles_unexpected _ _ traced

theorem Request.traced {lexemes : List Lexeme} {stream : TokenStream}
    (traced : Traced lexemes stream) (request : Request) :
    Traced lexemes (request.perform stream) := by
  cases request with
  | pattern context => exact traced_behind (settled_patternIn (modeOf context) traced.toAt)
  | type => exact traced_behind (settles_type _ traced)
  | token kind expected => exact traced_behind (settles_token kind expected _ traced)

def performAll (requests : List Request) (stream : TokenStream) : TokenStream :=
  requests.foldl Request.perform stream

theorem traced_performAll {lexemes : List Lexeme} {stream : TokenStream}
    (traced : Traced lexemes stream) (requests : List Request) :
    Traced lexemes (performAll requests stream) := by
  induction requests generalizing stream with
  | nil => exact traced
  | cons request requests induction => exact induction (request.traced traced)

/-! ## Both contexts -/

/-- What a context asks of a pattern. -/
def Admits (context : PatternContext) (pattern : Pattern) : Prop :=
  context = .bindingOnly → pattern.isRefutable = false

theorem admits_bindingOnly_iff (pattern : Pattern) :
    Admits .bindingOnly pattern ↔ pattern.isRefutable = false :=
  ⟨fun admits => admits rfl, fun harmless _ => harmless⟩

theorem pattern_run_eq_ok_iff {context : PatternContext} {start stop : TokenStream}
    {value : Pattern} : (pattern context).run start = .ok value stop ↔
      (pattern .full).run start = .ok value stop ∧ Admits context value := by
  cases context with
  | full => exact ⟨fun run => ⟨run, nofun⟩, And.left⟩
  | bindingOnly =>
    rw [admits_bindingOnly_iff]
    exact (narrows_patternIn (modeOf .full)).run_eq_ok_iff

theorem whole_answer_eq_ok_iff {context : PatternContext} {lexemes : List Lexeme}
    {value : Pattern} : (whole context).answer (.ofLexemes lexemes) = .ok value ↔
      (Derives .cast none (lexemes.map (·.token)) value ∧ value.bindings.Nodup) ∧
        Admits context value := by
  have language : (whole .full).answer (.ofLexemes lexemes) = .ok value ↔
      Derives .cast none (lexemes.map (·.token)) value ∧ value.bindings.Nodup := by
    constructor
    · intro accepted
      rcases derives_of_wholeIn accepted with ⟨derives, distinct⟩
      exact ⟨derives, distinct rfl⟩
    · intro derived
      exact wholeIn_of_derives rfl derived.1 fun _ => derived.2
  rw [← language]
  cases context with
  | full => exact ⟨fun run => ⟨run, nofun⟩, And.left⟩
  | bindingOnly =>
    have narrows := narrows_wholeIn (modeOf .full)
    rw [admits_bindingOnly_iff, answer_eq_ok_iff, answer_eq_ok_iff, ← exists_and_right]
    exact exists_congr fun stop => narrows.run_eq_ok_iff

/-! ## A pattern and its surroundings -/

theorem whole_of_pattern {context : PatternContext} {lexemes : List Lexeme}
    {start stop : TokenStream} {value : Pattern} (stands : At lexemes start)
    (run : (pattern context).run start = .ok value stop) :
    start.cursor < stop.cursor ∧
      (whole context).answer (.ofLexemes ((lexemes.take stop.cursor).drop start.cursor)) =
        .ok value := by
  rcases pattern_run_eq_ok_iff.mp run with ⟨run, admits⟩
  rw [pattern, patternIn_run] at run
  rcases reads_patternWithin _ _ _ _ _ run with ⟨taken, takes, derives, keeps⟩
  have names : stop.boundNames = value.bindings.reverse := by
    rw [takes.names]
    exact List.append_nil _
  have distinct := keeps (fun _ => List.nodup_nil) rfl
  rw [names, List.nodup_reverse] at distinct
  have moved : stop.cursor = start.cursor + taken.length := takes.cursor
  have part : ((lexemes.take stop.cursor).drop start.cursor).map (·.token) = taken :=
    takes.part stands.unread
  constructor
  · rcases derives.starts with ⟨first, rest, rfl, -⟩
    rw [moved, List.length_cons]
    omega
  · rw [whole_answer_eq_ok_iff, part]
    exact ⟨⟨derives, distinct⟩, admits⟩

theorem pattern_of_whole {context : PatternContext} {part behind : List Lexeme}
    {start : TokenStream} {value : Pattern} (unread : start.unread = part ++ behind)
    (accepted : (whole context).answer (.ofLexemes part) = .ok value)
    (ends : Ends itemEnds (behind.map (·.token))) :
    ∃ stop, (pattern context).run start = .ok value stop ∧
      stop.cursor = start.cursor + part.length := by
  rcases whole_answer_eq_ok_iff.mp accepted with ⟨⟨derives, distinct⟩, admits⟩
  have tokens : start.tokens = part.map (·.token) ++ behind.map (·.token) := by
    rw [TokenStream.tokens, unread, List.map_append]
  have room : (part.map (·.token)).length ≤ start.tokens.length := by
    rw [tokens, List.length_append]
    omega
  have fits : Fits true value.bindings { start with bound := [] } := by
    intro _
    have names := List.nodup_reverse.mpr distinct
    rwa [← List.append_nil value.bindings.reverse] at names
  rcases nestedAccepts_patternWithin start.tokens.length (modeOf .full) rfl _ value derives room
    { start with bound := [] } _ tokens ends fits with ⟨stop, run, takes⟩
  refine ⟨stop, pattern_run_eq_ok_iff.mpr ⟨?_, admits⟩, ?_⟩
  · rw [pattern, patternIn_run]
    exact run
  · have moved := takes.cursor
    rwa [List.length_map] at moved

/-- Reading a pattern is local.  From wherever earlier requests have left the cursor, it moves over
lexemes that spell the answer on their own; and lexemes that spell a pattern on their own are read
as it, and no further, wherever they stand in front of nothing, a comma or a closing
parenthesis. -/
theorem pattern_local (context : PatternContext) (value : Pattern) (requests : List Request)
    (origin : Nat) :
    (∀ lexemes, origin ≤ lexemes.length →
      let start := performAll requests (fromPlace lexemes origin)
      ∀ stop, (pattern context).run start = .ok value stop →
        start.cursor < stop.cursor ∧ stop.cursor ≤ lexemes.length ∧
        (whole context).answer (.ofLexemes ((lexemes.take stop.cursor).drop start.cursor)) =
          .ok value) ∧
    ∀ before part after : List Lexeme,
      (whole context).answer (.ofLexemes part) = .ok value →
      (∀ next, after.head? = some next → next.token = .comma ∨ next.token = .rightParen) →
      origin ≤ (before ++ part ++ after).length →
      let start := performAll requests (fromPlace (before ++ part ++ after) origin)
      start.cursor = before.length →
      ∃ stop, (pattern context).run start = .ok value stop ∧
        stop.cursor = before.length + part.length := by
  constructor
  · intro lexemes within start stop run
    have traced : Traced lexemes start := traced_performAll (traced_fromPlace within) requests
    rcases whole_of_pattern traced.toAt run with ⟨moved, spelled⟩
    have settled : Settled lexemes ((pattern context).run start) :=
      settled_patternIn (modeOf context) traced.toAt
    rw [run] at settled
    exact ⟨moved, settled.within, spelled⟩
  · intro before part after accepted follows within start here
    have traced : Traced (before ++ part ++ after) start :=
      traced_performAll (traced_fromPlace within) requests
    have unread : start.unread = part ++ after := by
      rw [traced.unread, here, List.append_assoc, List.drop_left]
    have ends : Ends itemEnds (after.map (·.token)) := by
      intro token next
      rw [List.head?_map, Option.map_eq_some_iff] at next
      rcases next with ⟨lexeme, first, rfl⟩
      simpa [itemEnds] using follows lexeme first
    rw [← here]
    exact pattern_of_whole unread accepted ends

/-- In `(x, x) y?, z` a pattern is refused at the second `x`; behind its parenthesis `y?` is read as
it is on its own. -/
theorem pattern_local_behind_failure :
    let before : List Lexeme := [⟨.leftParen, ⟨0, 1⟩⟩, ⟨.identifier "x", ⟨1, 2⟩⟩, ⟨.comma, ⟨2, 3⟩⟩,
      ⟨.identifier "x", ⟨4, 5⟩⟩, ⟨.rightParen, ⟨5, 6⟩⟩]
    let part : List Lexeme := [⟨.identifier "y", ⟨7, 8⟩⟩, ⟨.questionMark, ⟨8, 9⟩⟩]
    let after : List Lexeme := [⟨.comma, ⟨9, 10⟩⟩, ⟨.identifier "z", ⟨11, 12⟩⟩]
    let requests : List Request := [.pattern .full, .token .rightParen (.other "')'")]
    let start := performAll requests (fromPlace (before ++ part ++ after) 0)
    ∃ stop, (pattern .full).run start = .ok (.optional (.identifier "y")) stop ∧
      start.cursor = 5 ∧ stop.cursor = 7 ∧
      (whole .full).answer (.ofLexemes (((before ++ part ++ after).take 7).drop 5)) =
        .ok (.optional (.identifier "y")) := by
  intro before part after requests start
  have alone : (whole .full).answer (.ofLexemes part) = .ok (.optional (.identifier "y")) := by rfl
  have follows : ∀ next, after.head? = some next → next.token = .comma ∨ next.token = .rightParen := by
    intro next first
    cases first
    exact .inl rfl
  have here : start.cursor = before.length := by rfl
  rcases (pattern_local .full _ requests 0).2 before part after alone follows (Nat.zero_le _) here
    with ⟨stop, run, stopped⟩
  have spelled := (pattern_local .full _ requests 0).1 _ (Nat.zero_le _) stop run
  refine ⟨stop, run, here, stopped, ?_⟩
  have moved : stop.cursor = 7 := stopped
  have began : start.cursor = 5 := here
  rw [← moved, ← began]
  exact spelled.2.2

end Reader

end PatternClauses
