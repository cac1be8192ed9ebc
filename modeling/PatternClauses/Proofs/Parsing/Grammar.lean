import PatternClauses.Pattern
import PatternClauses.Token

/-!
# The grammar of patterns

Which tokens spell which pattern, without regard to how they are read:

    cast      ::= annotated | cast "as" type
    annotated ::= primary | primary ":" type
    primary   ::= "_" | name | name "?" | ("let" | "var") cast | tuple
                | case | case tuple | name tuple | "is" type | unary (("..." | "..<") unary)?
    case      ::= "." name | name ("." name)+
    tuple     ::= "(" (cast ("," cast)*)? ")"
    unary     ::= "-"* literal
    type      ::= name ("." name)* | "(" (type ("," type)*)? ")" | type "?"

The grammar is ambiguous: in `let x as T` the cast may stand inside or around the binding.
-/

namespace PatternClauses.Grammar

def dotted (names : List String) : List Token := names.flatMap fun name => [.dot, .identifier name]

def path (first : String) (rest : List String) : List Token := .identifier first :: dotted rest

def enclosed (items : List (List Token)) : List Token :=
  .leftParen :: ([Token.comma].intercalate items ++ [.rightParen])

theorem infix_intercalate {item : List Token} {items : List (List Token)} (member : item ∈ items) :
    item <:+: [Token.comma].intercalate items := by
  induction items with
  | nil => cases member
  | cons first items induction =>
    cases items with
    | nil =>
      cases List.mem_singleton.mp member
      simp
    | cons second items =>
      rw [List.intercalate_cons_cons, List.append_assoc]
      rcases List.mem_cons.mp member with rfl | later
      · exact (List.prefix_append _ _).isInfix
      · apply (induction later).trans
        exact ((List.suffix_append _ _).trans (List.suffix_append _ _)).isInfix

theorem mem_enclosed {items : List (List Token × α)} {item : List Token × α} (member : item ∈ items)
    {token : Token} (inside : token ∈ item.1) : token ∈ enclosed (items.map (·.1)) := by
  have mapped : item.1 ∈ items.map (·.1) := List.mem_map.mpr ⟨item, member, rfl⟩
  have within := (infix_intercalate mapped).subset inside
  exact List.mem_cons_of_mem _ (List.mem_append_left _ within)

theorem exists_map_eq {property : α → Prop} {make : α → β} {items : List β}
    (each : ∀ item ∈ items, ∃ part, property part ∧ make part = item) :
    ∃ parts : List α, (∀ part ∈ parts, property part) ∧ parts.map make = items := by
  induction items with
  | nil => exact ⟨[], nofun, rfl⟩
  | cons item items induction =>
    rcases each item (.head _) with ⟨part, holds, rfl⟩
    rcases induction fun other member => each other (.tail _ member) with ⟨parts, all, rfl⟩
    exact ⟨part :: parts, List.forall_mem_cons.mpr ⟨holds, all⟩, rfl⟩

/-! ## Types -/

inductive DerivesType : List Token → TypeExpr → Prop
  | named (first : String) (rest : List String) :
      DerivesType (path first rest) (.named (".".intercalate (first :: rest)))
  | tuple (items : List (List Token × TypeExpr)) :
      (∀ item ∈ items, DerivesType item.1 item.2) →
      DerivesType (enclosed (items.map (·.1))) (.ofItems (items.map (·.2)))
  | optional : DerivesType tokens type → DerivesType (tokens ++ [.questionMark]) (.optional type)

/-! ## Expressions -/

inductive DerivesUnary : List Token → Expression → Prop
  | integer (value : Int64) : DerivesUnary [.integer value] (.integer value)
  | float (value : Binary64) : DerivesUnary [.float value] (.float value)
  | string (value : String) : DerivesUnary [.string value] (.string value)
  | boolean (value : Bool) : DerivesUnary [.boolean value] (.boolean value)
  | nil : DerivesUnary [.nilKeyword] .nil
  | negate : DerivesUnary tokens operand → DerivesUnary (.minus :: tokens) (.negate operand)

def rangeToken (closed : Bool) : Token := if closed then .closedRange else .halfOpenRange

inductive DerivesExpression : List Token → Expression → Prop
  | unary : DerivesUnary tokens value → DerivesExpression tokens value
  | range (closed : Bool) : DerivesUnary lower first → DerivesUnary upper last →
      DerivesExpression (lower ++ rangeToken closed :: upper) (.range first last closed)

/-! ## Patterns -/

/-- The levels of a pattern, from the loosest to the tightest. -/
inductive Phrase where
  | cast
  | annotated
  | primary
  | tuple

def keyword (mutable : Bool) : Token := if mutable then .varKeyword else .letKeyword

/-- A name under the innermost binding form around it. -/
def leaf (mutability : Option Bool) (name : String) : Pattern :=
  match mutability with
  | some mutable => .binding (.identifier name) mutable
  | none => .identifier name

inductive Annotatable : Pattern → Prop
  | wildcard : Annotatable .wildcard
  | identifier (name : String) : Annotatable (.identifier name)
  | binding (inner : Pattern) (mutable : Bool) : Annotatable (.binding inner mutable)
  | tuple (items : List Pattern) : Annotatable (.tuple items)

inductive DerivesCase : List Token → Option String → String → Prop
  | unqualified (name : String) : DerivesCase [.dot, .identifier name] none name
  | qualified (first : String) (rest : List String) (name : String) :
      DerivesCase (path first (rest ++ [name])) (some (".".intercalate (first :: rest))) name

/-- The tokens spell the pattern at a level, inside the binding form that `mutability` tells. -/
inductive Derives : Phrase → (mutability : Option Bool) → List Token → Pattern → Prop
  | annotated : Derives .annotated mutability tokens pattern →
      Derives .cast mutability tokens pattern
  | cast {inner : Pattern} : Derives .cast mutability tokens inner →
      DerivesType typeTokens type →
      Derives .cast mutability (tokens ++ .asKeyword :: typeTokens) (.cast inner type)
  | primary : Derives .primary mutability tokens pattern →
      Derives .annotated mutability tokens pattern
  | ascription {inner : Pattern} : Derives .primary mutability tokens inner →
      Annotatable inner → DerivesType typeTokens type →
      Derives .annotated mutability (tokens ++ .colon :: typeTokens) (.annotated inner type)
  | wildcard : Derives .primary mutability [.underscore] .wildcard
  | name (name : String) : Derives .primary mutability [.identifier name] (leaf mutability name)
  | optional (name : String) :
      Derives .primary mutability [.identifier name, .questionMark]
        (.optional (leaf mutability name))
  | binding (mutable : Bool) : Derives .cast (some mutable) tokens pattern →
      Derives .primary mutability (keyword mutable :: tokens) pattern
  | tuple : Derives .tuple mutability tokens pattern → Derives .primary mutability tokens pattern
  | items (items : List (List Token × Pattern)) :
      (∀ item ∈ items, Derives .cast mutability item.1 item.2) →
      Derives .tuple mutability (enclosed (items.map (·.1))) (.ofItems (items.map (·.2)))
  | bareCase : DerivesCase tokens qualifier name →
      Derives .primary mutability tokens (.enumCase qualifier name none)
  | payloadCase : DerivesCase tokens qualifier name → Derives .tuple mutability more payload →
      Derives .primary mutability (tokens ++ more) (.enumCase qualifier name (some payload))
  | namedCase (name : String) : Derives .tuple mutability more payload →
      Derives .primary mutability (.identifier name :: more) (.enumCase none name (some payload))
  | isType : DerivesType typeTokens type →
      Derives .primary mutability (.isKeyword :: typeTokens) (.isType type)
  | expression : DerivesExpression tokens value →
      Derives .primary mutability tokens (.expression value)

/-! ## First tokens -/

def Starts (tokens : List Token) : Prop :=
  ∃ first rest, tokens = first :: rest ∧ first ≠ .rightParen

theorem Starts.append {front : List Token} (starts : Starts front) (behind : List Token) :
    Starts (front ++ behind) := by
  rcases starts with ⟨first, rest, rfl, differs⟩
  exact ⟨first, rest ++ behind, rfl, differs⟩

theorem Starts.head?_ne {front : List Token} (starts : Starts front) (behind : List Token) :
    (front ++ behind).head? ≠ some .rightParen := by
  rcases starts with ⟨first, rest, rfl, differs⟩
  simpa using differs

theorem starts_path (first : String) (rest : List String) : Starts (path first rest) :=
  ⟨_, _, rfl, nofun⟩

theorem starts_enclosed (items : List (List Token)) : Starts (enclosed items) :=
  ⟨_, _, rfl, nofun⟩

theorem DerivesType.starts (derives : DerivesType tokens type) : Starts tokens := by
  induction derives with
  | named first rest => exact starts_path first rest
  | tuple items => exact starts_enclosed _
  | optional _ induction => exact induction.append _

theorem DerivesUnary.starts (derives : DerivesUnary tokens value) : Starts tokens := by
  cases derives <;> exact ⟨_, _, rfl, nofun⟩

theorem DerivesExpression.starts (derives : DerivesExpression tokens value) : Starts tokens := by
  cases derives with
  | unary unary => exact unary.starts
  | range closed lower upper => exact lower.starts.append _

theorem DerivesCase.starts (derives : DerivesCase tokens qualifier name) : Starts tokens := by
  cases derives <;> exact ⟨_, _, rfl, nofun⟩

theorem Derives.starts (derives : Derives phrase mutability tokens pattern) : Starts tokens := by
  induction derives with
  | annotated _ induction | primary _ induction | tuple _ induction => exact induction
  | cast _ _ induction | ascription _ _ _ induction => exact induction.append _
  | binding mutable => exact ⟨_, _, rfl, by cases mutable <;> nofun⟩
  | wildcard | name | optional | namedCase | isType => exact ⟨_, _, rfl, nofun⟩
  | items => exact starts_enclosed _
  | bareCase head => exact head.starts
  | payloadCase head => exact head.starts.append _
  | expression value => exact value.starts

/-! ## Shapes

The rules that recur on the left, unrolled: what a type or a pattern begins with, and what stands
behind that. -/

/-- A type that does not end in a question mark. -/
inductive SimpleType : List Token → TypeExpr → Prop
  | named (first : String) (rest : List String) :
      SimpleType (path first rest) (.named (".".intercalate (first :: rest)))
  | tuple (items : List (List Token × TypeExpr)) :
      (∀ item ∈ items, DerivesType item.1 item.2) →
      SimpleType (enclosed (items.map (·.1))) (.ofItems (items.map (·.2)))

inductive Marks (inner : TypeExpr) : List Token → TypeExpr → Prop
  | none : Marks inner [] inner
  | mark : Marks inner tokens type → Marks inner (tokens ++ [.questionMark]) (.optional type)

theorem DerivesType.shape (derives : DerivesType tokens type) :
    ∃ front inner marks, tokens = front ++ marks ∧ SimpleType front inner ∧
      Marks inner marks type := by
  induction derives with
  | named first rest => exact ⟨_, _, [], (List.append_nil _).symm, .named first rest, .none⟩
  | tuple items each => exact ⟨_, _, [], (List.append_nil _).symm, .tuple items each, .none⟩
  | optional _ induction =>
    rcases induction with ⟨front, inner, marks, rfl, simple, marked⟩
    exact ⟨front, inner, _, List.append_assoc _ _ _, simple, marked.mark⟩

inductive Ascription (inner : Pattern) : List Token → Pattern → Prop
  | none : Ascription inner [] inner
  | some : Annotatable inner → DerivesType tokens type →
      Ascription inner (.colon :: tokens) (.annotated inner type)

inductive Casts (inner : Pattern) : List Token → Pattern → Prop
  | none : Casts inner [] inner
  | cast : Casts inner tokens pattern → DerivesType typeTokens type →
      Casts inner (tokens ++ .asKeyword :: typeTokens) (.cast pattern type)

/-- The pattern begins with a binding form, which then takes in everything behind it. -/
def Bound (tokens : List Token) (pattern : Pattern) : Prop :=
  ∃ mutable rest, tokens = keyword mutable :: rest ∧ Derives .cast (some mutable) rest pattern

def Unbound (mutability : Option Bool) (tokens : List Token) (pattern : Pattern) : Prop :=
  ∃ head ascription casts inner annotated, tokens = head ++ ascription ++ casts ∧
    Derives .primary mutability head inner ∧ (∀ mutable, head.head? ≠ some (keyword mutable)) ∧
    Ascription inner ascription annotated ∧ Casts annotated casts pattern

theorem Derives.primary_of_annotatable (derives : Derives .cast mutability tokens pattern)
    (annotatable : Annotatable pattern) : Derives .primary mutability tokens pattern := by
  cases derives with
  | annotated inner =>
    cases inner with
    | primary inner => exact inner
    | ascription => cases annotatable
  | cast => cases annotatable

theorem Derives.primary_shape (derives : Derives .primary mutability tokens pattern) :
    Bound tokens pattern ∨ Unbound mutability tokens pattern := by
  have unbound : (∀ mutable, tokens.head? ≠ some (keyword mutable)) →
      Unbound mutability tokens pattern := fun differs =>
    ⟨tokens, [], [], pattern, pattern, by simp, derives, differs, .none, .none⟩
  cases derives with
  | binding mutable inner => exact .inl ⟨mutable, _, rfl, inner⟩
  | tuple inner =>
    cases inner
    exact .inr (unbound fun mutable => by cases mutable <;> simp [enclosed, keyword])
  | bareCase head | payloadCase head =>
    cases head <;>
      exact .inr (unbound fun mutable => by cases mutable <;> simp [path, keyword])
  | expression value =>
    apply Or.inr
    apply unbound
    intro mutable
    cases value with
    | unary value => cases value <;> cases mutable <;> simp [keyword]
    | range closed lower => cases lower <;> cases mutable <;> simp [keyword]
  | wildcard | name | optional | namedCase | isType =>
    exact .inr (unbound fun mutable => by cases mutable <;> simp [keyword])

theorem Ascription.eq_of_annotatable {inner annotated pattern : Pattern}
    (ascription : Ascription inner front annotated) (casts : Casts annotated behind pattern)
    (annotatable : Annotatable pattern) : front = [] ∧ behind = [] ∧ inner = pattern := by
  cases casts with
  | cast => cases annotatable
  | none =>
    cases ascription with
    | some => cases annotatable
    | none => exact ⟨rfl, rfl, rfl⟩

theorem Derives.annotated_shape (derives : Derives .annotated mutability tokens pattern) :
    Bound tokens pattern ∨ Unbound mutability tokens pattern := by
  cases derives with
  | primary inner => exact inner.primary_shape
  | ascription inner annotatable type =>
    rcases inner.primary_shape with ⟨mutable, rest, rfl, within⟩ | unbound
    · have annotated := Derives.ascription (within.primary_of_annotatable annotatable)
        annotatable type
      exact .inl ⟨mutable, _, rfl, .annotated annotated⟩
    · rcases unbound with
        ⟨head, front, behind, base, middle, rfl, derives, differs, ascription, casts⟩
      rcases ascription.eq_of_annotatable casts annotatable with ⟨rfl, rfl, rfl⟩
      exact .inr ⟨head, _, [], base, _, by simp, derives, differs, .some annotatable type, .none⟩

theorem Derives.shape : Derives .cast mutability tokens pattern →
    Bound tokens pattern ∨ Unbound mutability tokens pattern
  | .annotated inner => inner.annotated_shape
  | .cast inner type => by
    rcases inner.shape with ⟨mutable, rest, rfl, within⟩ | unbound
    · exact .inl ⟨mutable, _, rfl, .cast within type⟩
    · rcases unbound with
        ⟨head, front, behind, base, middle, rfl, derives, differs, ascription, casts⟩
      exact .inr ⟨head, front, _, base, middle, by simp, derives, differs, ascription,
        casts.cast type⟩

/-! ## Names -/

theorem Ascription.bindings_eq {inner : Pattern} (ascription : Ascription inner tokens pattern) :
    pattern.bindings = inner.bindings := by
  cases ascription <;> simp [Pattern.bindings]

theorem Casts.bindings_eq {inner : Pattern} (casts : Casts inner tokens pattern) :
    pattern.bindings = inner.bindings := by
  induction casts with
  | none => rfl
  | cast _ _ induction => rw [Pattern.bindings, induction]

@[simp] theorem bindings_leaf (mutability : Option Bool) (name : String) :
    (leaf mutability name).bindings = [name] := by
  cases mutability <;> simp [leaf, Pattern.bindings]

end PatternClauses.Grammar
