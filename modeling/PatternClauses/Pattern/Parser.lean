import PatternClauses.Pattern.ParseError

/-!
# Reading patterns

A recursive descent over lexemes.  Each reader takes what it needs from the front of the stream
and leaves the stream right behind it, also when it fails, so several patterns can be read one
after another.

    pattern   ::= annotated ("as" type)*
    annotated ::= primary (":" type)?
    primary   ::= "_" | name | name "?" | ("let" | "var") pattern | tuple
                | "." name tuple? | name ("." name)+ tuple? | name tuple
                | "is" type | unary (("..." | "..<") unary)?
    tuple     ::= "(" (pattern ("," pattern)*)? ")"
    unary     ::= "-"* literal
    type      ::= (name ("." name)* | "(" (type ("," type)*)? ")") "?"*

A reader that repeats or nests takes a budget.  Every repetition and every nesting takes a lexeme
first, so the number of unread lexemes is always enough; a budget of zero means that there are
none.
-/

namespace PatternClauses

/-- Where a pattern stands: in a case clause anything goes, in a declaration only forms that
cannot fail to match. -/
inductive PatternContext where
  | full
  | bindingOnly
  deriving DecidableEq

/-- The lexemes that are still unread, how many have been read, where the source's last token
ends, and the names bound since the current pattern began. -/
structure TokenStream where
  unread : List Lexeme
  cursor : Nat
  finish : Nat
  bound : List (String × Span)
  deriving DecidableEq

namespace TokenStream

def ofLexemes (lexemes : List Lexeme) : TokenStream where
  unread := lexemes
  cursor := 0
  finish := (lexemes.getLast?.map (·.span.stop)).getD 0
  bound := []

/-- Step over the next lexeme.  Nothing moves at the end. -/
def advance (stream : TokenStream) : TokenStream :=
  match stream.unread with
  | [] => stream
  | _ :: rest => { stream with unread := rest, cursor := stream.cursor + 1 }

end TokenStream

/-- A reader of the stream.  Its failures keep the stream where it stopped. -/
abbrev Reader := EStateM ParseError TokenStream

namespace Reader

/-! ## Single lexemes -/

def next? : Reader (Option Token) :=
  return (← get).unread.head?.map (·.token)

def peek? (distance : Nat) : Reader (Option Token) :=
  return (← get).unread[distance]?.map (·.token)

def advance : Reader Unit := modify TokenStream.advance

/-- The budget for repeating or nesting from here on. -/
def remaining : Reader Nat := return (← get).unread.length

def unexpected (expected : Expected) : Reader α := do
  let stream ← get
  match stream.unread with
  | lexeme :: _ => throw (.unexpectedToken expected lexeme)
  | [] => throw (.unexpectedEnd expected stream.finish)

def token (kind : Token) (expected : Expected) : Reader Unit := do
  match ← next? with
  | some found => if found.sameKind kind then advance else unexpected expected
  | none => unexpected expected

def name (expected : Expected) : Reader String := do
  match ← next? with
  | some (.identifier name) => advance; return name
  | _ => unexpected expected

/-! ## Lists in parentheses -/

def items (item : Reader α) (expected : Expected) : (budget : Nat) → Reader (List α)
  | 0 => unexpected expected
  | budget + 1 => do
    let first ← item
    match ← next? with
    | some .comma =>
      advance
      match ← next? with
      | some .rightParen => unexpected expected
      | _ => return first :: (← items item expected budget)
    | some .rightParen => advance; return [first]
    | _ => unexpected .itemEnd

/-- The rest of a list whose opening parenthesis has been taken. -/
def itemsOrNone (item : Reader α) (expected : Expected) : Reader (List α) := do
  match ← next? with
  | some .rightParen => advance; return []
  | _ => items item expected (← remaining)

/-! ## Types -/

/-- The rest of a dotted path.  A dot belongs to it only if a name follows. -/
def path (start : String) : (budget : Nat) → Reader String
  | 0 => return start
  | budget + 1 => do
    match ← peek? 0, ← peek? 1 with
    | some .dot, some (.identifier segment) =>
      advance
      advance
      path (start ++ "." ++ segment) budget
    | _, _ => return start

def optionals (type : TypeExpr) : (budget : Nat) → Reader TypeExpr
  | 0 => return type
  | budget + 1 => do
    match ← next? with
    | some .questionMark => advance; optionals (.optional type) budget
    | _ => return type

def typeWithin : (depth : Nat) → Reader TypeExpr
  | 0 => unexpected .type
  | depth + 1 => do
    match ← next? with
    | some .leftParen =>
      advance
      let items ← itemsOrNone (typeWithin depth) .type
      optionals (.ofItems items) (← remaining)
    | some (.identifier start) =>
      advance
      let name ← path start (← remaining)
      optionals (.named name) (← remaining)
    | _ => unexpected .type

def type : Reader TypeExpr := do typeWithin (← remaining)

/-! ## Expressions -/

def literal? : Token → Option Expression
  | .integer value => some (.integer value)
  | .float value => some (.float value)
  | .string value => some (.string value)
  | .boolean value => some (.boolean value)
  | .nilKeyword => some .nil
  | _ => none

def unary : (budget : Nat) → Reader Expression
  | 0 => unexpected .literal
  | budget + 1 => do
    match ← next? with
    | some .minus => advance; return .negate (← unary budget)
    | some token =>
      match literal? token with
      | some value => advance; return value
      | none => unexpected .literal
    | none => unexpected .literal

def expression : Reader Expression := do
  let lower ← unary (← remaining)
  match ← next? with
  | some .closedRange => advance; return .range lower (← unary (← remaining)) true
  | some .halfOpenRange => advance; return .range lower (← unary (← remaining)) false
  | _ => return lower

/-! ## Patterns -/

/-- What the surroundings of a pattern decide: its context, the innermost `let` or `var` around
it, and whether a name may be bound only once. -/
structure Mode where
  context : PatternContext
  mutability : Option Bool
  uniqueNames : Bool
  deriving DecidableEq

/-- Refuse a form that can fail to match, at the next lexeme, where only bindings may stand. -/
def allow (mode : Mode) (form : RefutableForm) : Reader Unit := do
  let stream ← get
  match mode.context, stream.unread with
  | .full, _ => return ()
  | .bindingOnly, lexeme :: _ => throw (.illegalForm form lexeme.span)
  | .bindingOnly, [] => throw (.illegalForm form ⟨stream.finish, stream.finish⟩)

/-- The pattern for a name that was read at `span`, which the innermost `let` or `var` makes a
binding. -/
def bindName (mode : Mode) (name : String) (span : Span) : Reader Pattern := do
  match mode.uniqueNames, (← get).bound.lookup name with
  | true, some first => throw (.duplicateBinding ⟨name, some (first, span)⟩)
  | _, _ =>
    modify fun stream => { stream with bound := (name, span) :: stream.bound }
    match mode.mutability with
    | some mutable => return .binding (.identifier name) mutable
    | none => return .identifier name

def enumCase (nested : Mode → Reader Pattern) (mode : Mode) (qualifier : Option String)
    (name : String) : Reader Pattern := do
  match ← next? with
  | some .leftParen =>
    advance
    let items ← itemsOrNone (nested mode) .pattern
    return .enumCase qualifier name (some (.ofItems items))
  | _ => return .enumCase qualifier name none

def segments : (budget : Nat) → Reader (List String)
  | 0 => return []
  | budget + 1 => do
    match ← next? with
    | some .dot =>
      advance
      let segment ← name .caseName
      return segment :: (← segments budget)
    | _ => return []

/-- A pattern that begins with a name: what follows it decides between a qualified case, a case
with a payload, an optional and a plain name. -/
def named (nested : Mode → Reader Pattern) (mode : Mode) (name : String) (span : Span) :
    Reader Pattern := do
  match ← peek? 1 with
  | some .dot =>
    allow mode .enumCase
    advance
    let path := name :: (← segments (← remaining))
    enumCase nested mode (some (".".intercalate path.dropLast)) (path.getLastD name)
  | some .leftParen =>
    allow mode .enumCase
    advance
    enumCase nested mode none name
  | some .questionMark =>
    allow mode .optional
    advance
    advance
    return .optional (← bindName mode name span)
  | _ =>
    advance
    bindName mode name span

/-- A pattern without annotation and cast.  `nested` reads the patterns inside it. -/
def primary (nested : Mode → Reader Pattern) (mode : Mode) : Reader Pattern := do
  match (← get).unread with
  | [] => unexpected .pattern
  | lexeme :: _ =>
    match lexeme.token with
    | .letKeyword => advance; nested { mode with mutability := some false }
    | .varKeyword => advance; nested { mode with mutability := some true }
    | .underscore => advance; return .wildcard
    | .leftParen =>
      advance
      return .ofItems (← itemsOrNone (nested mode) .pattern)
    | .dot =>
      allow mode .enumCase
      advance
      enumCase nested mode none (← name .caseName)
    | .identifier name => named nested mode name lexeme.span
    | .isKeyword =>
      allow mode .typeCasting
      advance
      return .isType (← type)
    | .integer _ | .float _ | .string _ | .boolean _ | .nilKeyword | .minus =>
      allow mode .expression
      return .expression (← expression)
    | _ => unexpected .pattern

def isAnnotatable : Pattern → Bool
  | .wildcard | .identifier _ | .binding _ _ | .tuple _ => true
  | _ => false

def annotated (nested : Mode → Reader Pattern) (mode : Mode) : Reader Pattern := do
  let pattern ← primary nested mode
  match isAnnotatable pattern, ← next? with
  | true, some .colon => advance; return .annotated pattern (← type)
  | _, _ => return pattern

def casts (mode : Mode) (pattern : Pattern) : (budget : Nat) → Reader Pattern
  | 0 => return pattern
  | budget + 1 => do
    match ← next? with
    | some .asKeyword =>
      allow mode .typeCasting
      advance
      casts mode (.cast pattern (← type)) budget
    | _ => return pattern

/-- A pattern with at most `depth` patterns nested into each other. -/
def patternWithin : (depth : Nat) → Mode → Reader Pattern
  | 0, _ => unexpected .pattern
  | depth + 1, mode => do
    let pattern ← annotated (patternWithin depth) mode
    casts mode pattern (← remaining)

def patternIn (mode : Mode) : Reader Pattern := do
  modify fun stream => { stream with bound := [] }
  patternWithin (← remaining) mode

def wholeIn (mode : Mode) : Reader Pattern := do
  let pattern ← patternIn mode
  match ← next? with
  | none => return pattern
  | some _ => unexpected .endOfPattern

def modeOf (context : PatternContext) : Mode where
  context := context
  mutability := none
  uniqueNames := true

def pattern (context : PatternContext) : Reader Pattern := patternIn (modeOf context)

def whole (context : PatternContext) : Reader Pattern := wholeIn (modeOf context)

def answer (reader : Reader α) (stream : TokenStream) : Except ParseError α :=
  match reader.run stream with
  | .ok value _ => .ok value
  | .error error _ => .error error

end Reader

def Pattern.parseIn (mode : Reader.Mode) (source : String) : Except ParseError Pattern :=
  match lex source with
  | .ok lexemes => (Reader.wholeIn mode).answer (.ofLexemes lexemes)
  | .error error => .error (.lexical error)

def Pattern.parse (context : PatternContext) (source : String) : Except ParseError Pattern :=
  Pattern.parseIn (Reader.modeOf context) source

example : (Pattern.parse .full "let (x, _): T").toOption =
    some (.annotated (.tuple [.binding (.identifier "x") false, .wildcard]) (.named "T")) := by
  decide +kernel

example : Pattern.parse .bindingOnly "x?" = .error (.illegalForm .optional ⟨0, 1⟩) := by rfl

end PatternClauses
