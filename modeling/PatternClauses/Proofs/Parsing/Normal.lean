import PatternClauses.Proofs.Parsing.Language

/-!
# Normal forms

Matching and printing rely on the form of the patterns that are read: a single item in parentheses
is no tuple, each binding form stands at a name, and ascriptions, optionals and ranges stand only
where the grammar lets them.  Every derivation gives a pattern of this form.
-/

namespace PatternClauses

open Grammar

/-! ## Types -/

namespace TypeExpr

mutual

def parts : TypeExpr → List TypeExpr
  | .named name => [.named name]
  | .tuple items => .tuple items :: partsEach items
  | .optional wrapped => .optional wrapped :: wrapped.parts

def partsEach : List TypeExpr → List TypeExpr
  | [] => []
  | item :: rest => item.parts ++ partsEach rest

end

@[simp] theorem partsEach_eq_flatMap (items : List TypeExpr) :
    partsEach items = items.flatMap parts := by
  induction items with
  | nil => rfl
  | cons item rest induction => simp [partsEach, induction]

def Normalized (type : TypeExpr) : Prop := ∀ items, .tuple items ∈ type.parts → items.length ≠ 1

theorem mem_parts_ofItems {items : List TypeExpr} {part : TypeExpr}
    (member : part ∈ (ofItems items).parts) :
    (part = .tuple items ∧ items.length ≠ 1) ∨ ∃ item ∈ items, part ∈ item.parts := by
  by_cases single : items.length = 1
  · rcases List.length_eq_one_iff.mp single with ⟨item, rfl⟩
    exact .inr ⟨item, .head _, member⟩
  · rw [ofItems_of_length_ne_one single, parts, partsEach_eq_flatMap] at member
    rcases List.mem_cons.mp member with rfl | inside
    · exact .inl ⟨rfl, single⟩
    · exact .inr (List.mem_flatMap.mp inside)

theorem normalized_of_derives (derives : DerivesType tokens type) : type.Normalized := by
  induction derives with
  | named first rest =>
    intro items member
    cases List.mem_singleton.mp member
  | tuple items _ induction =>
    intro others member
    rcases mem_parts_ofItems member with ⟨same, several⟩ | ⟨type, inside, member⟩
    · cases same
      exact several
    · rcases List.mem_map.mp inside with ⟨item, listed, rfl⟩
      exact induction item listed others member
  | optional _ induction =>
    intro items member
    rcases List.mem_cons.mp member with impossible | inside
    · cases impossible
    · exact induction items inside

end TypeExpr

/-! ## Expressions -/

namespace Expression

/-- A literal without a sign behind any number of minus signs. -/
def IsOperand : Expression → Prop
  | .negate operand => operand.IsOperand
  | .range _ _ _ => False
  | .integer value => 0 ≤ value.toInt
  | .float _ | .string _ | .boolean _ | .nil => True

def Normalized (value : Expression) : Prop :=
  value.IsOperand ∨
    ∃ lower upper closed, value = .range lower upper closed ∧ lower.IsOperand ∧ upper.IsOperand

theorem isOperand_of_derives (derives : DerivesUnary tokens value)
    (lexical : ∀ token ∈ tokens, token.Lexical) : value.IsOperand := by
  induction derives with
  | integer value => exact lexical (.integer value) (.head _)
  | float | string | boolean | nil => trivial
  | negate _ induction => exact induction fun token member => lexical token (.tail _ member)

theorem normalized_of_derives (derives : DerivesExpression tokens value)
    (lexical : ∀ token ∈ tokens, token.Lexical) : value.Normalized := by
  cases derives with
  | unary derives => exact .inl (isOperand_of_derives derives lexical)
  | range closed lower upper =>
    rw [List.forall_mem_append, List.forall_mem_cons] at lexical
    exact .inr ⟨_, _, closed, rfl, isOperand_of_derives lower lexical.1,
      isOperand_of_derives upper lexical.2.2⟩

end Expression

/-! ## Patterns -/

namespace Pattern

mutual

def parts : Pattern → List Pattern
  | .wildcard => [.wildcard]
  | .identifier name => [.identifier name]
  | .binding inner mutable => .binding inner mutable :: inner.parts
  | .tuple items => .tuple items :: partsEach items
  | .enumCase qualifier name none => [.enumCase qualifier name none]
  | .enumCase qualifier name (some payload) =>
    .enumCase qualifier name (some payload) :: payload.parts
  | .optional inner => .optional inner :: inner.parts
  | .isType type => [.isType type]
  | .cast inner type => .cast inner type :: inner.parts
  | .expression value => [.expression value]
  | .annotated inner type => .annotated inner type :: inner.parts

def partsEach : List Pattern → List Pattern
  | [] => []
  | item :: rest => item.parts ++ partsEach rest

end

@[simp] theorem partsEach_eq_flatMap (items : List Pattern) :
    partsEach items = items.flatMap parts := by
  induction items with
  | nil => rfl
  | cons item rest induction => simp [partsEach, induction]

/-- The form that a part of a pattern has, apart from the parts inside it. -/
def Shaped : Pattern → Prop
  | .wildcard | .identifier _ | .enumCase _ _ _ => True
  | .binding inner _ => ∃ name, inner = .identifier name
  | .tuple items => items.length ≠ 1
  | .optional inner =>
    (∃ name, inner = .identifier name) ∨ ∃ name mutable, inner = .binding (.identifier name) mutable
  | .isType type | .cast _ type => type.Normalized
  | .expression value => value.Normalized
  | .annotated inner type => Annotatable inner ∧ type.Normalized

/-- All parts have their form, and no name is bound twice. -/
structure Normalized (pattern : Pattern) : Prop where
  shaped : ∀ part ∈ pattern.parts, part.Shaped
  distinct : pattern.checkBindings = .ok ()

theorem mem_parts_ofItems {items : List Pattern} {part : Pattern}
    (member : part ∈ (ofItems items).parts) :
    (part = .tuple items ∧ items.length ≠ 1) ∨ ∃ item ∈ items, part ∈ item.parts := by
  by_cases single : items.length = 1
  · rcases List.length_eq_one_iff.mp single with ⟨item, rfl⟩
    exact .inr ⟨item, .head _, member⟩
  · rw [ofItems_of_length_ne_one single, parts, partsEach_eq_flatMap] at member
    rcases List.mem_cons.mp member with rfl | inside
    · exact .inl ⟨rfl, single⟩
    · exact .inr (List.mem_flatMap.mp inside)

theorem shaped_leaf (mutability : Option Bool) (name : String) :
    ∀ part ∈ (leaf mutability name).parts, part.Shaped := by
  cases mutability with
  | none => simp [leaf, parts, Shaped]
  | some mutable => simp [leaf, parts, Shaped]

theorem shaped_of_derives (derives : Derives phrase mutability tokens pattern)
    (lexical : ∀ token ∈ tokens, token.Lexical) : ∀ part ∈ pattern.parts, part.Shaped := by
  induction derives with
  | annotated _ induction | primary _ induction | tuple _ induction => exact induction lexical
  | cast _ type induction =>
    rw [List.forall_mem_append] at lexical
    exact List.forall_mem_cons.mpr ⟨TypeExpr.normalized_of_derives type, induction lexical.1⟩
  | ascription _ annotatable type induction =>
    rw [List.forall_mem_append] at lexical
    have shaped := TypeExpr.normalized_of_derives type
    exact List.forall_mem_cons.mpr ⟨⟨annotatable, shaped⟩, induction lexical.1⟩
  | wildcard => exact List.forall_mem_singleton.mpr trivial
  | name name => exact shaped_leaf _ name
  | @optional mutability name =>
    refine List.forall_mem_cons.mpr ⟨?_, shaped_leaf mutability name⟩
    cases mutability with
    | none => exact .inl ⟨name, rfl⟩
    | some mutable => exact .inr ⟨name, mutable, rfl⟩
  | binding mutable _ induction =>
    -- The keyword has gone to the names and leaves no part of its own.
    exact induction fun token member => lexical token (.tail _ member)
  | items items _ induction =>
    intro part member
    rcases mem_parts_ofItems member with ⟨rfl, several⟩ | ⟨pattern, inside, member⟩
    · exact several
    · rcases List.mem_map.mp inside with ⟨item, listed, rfl⟩
      exact induction item listed (fun token within => lexical token (mem_enclosed listed within))
        part member
  | bareCase => exact List.forall_mem_singleton.mpr trivial
  | payloadCase _ _ induction =>
    rw [List.forall_mem_append] at lexical
    exact List.forall_mem_cons.mpr ⟨trivial, induction lexical.2⟩
  | namedCase name _ induction =>
    rw [List.forall_mem_cons] at lexical
    exact List.forall_mem_cons.mpr ⟨trivial, induction lexical.2⟩
  | isType type => exact List.forall_mem_singleton.mpr (TypeExpr.normalized_of_derives type)
  | expression value =>
    exact List.forall_mem_singleton.mpr (Expression.normalized_of_derives value lexical)

theorem shaped_of_parse {context : PatternContext} {source : String} {pattern : Pattern}
    (read : parse context source = .ok pattern) : ∀ part ∈ pattern.parts, part.Shaped := by
  rcases parseIn_eq_ok_iff.mp read with ⟨lexemes, lexed, accepted⟩
  have lexical := ((lex_iff_lexes source _).mp ⟨lexemes, lexed, rfl⟩).lexical
  exact shaped_of_derives (Reader.derives_of_wholeIn accepted).1 lexical

theorem checkBindings_of_parse {context : PatternContext} {source : String} {pattern : Pattern}
    (read : parse context source = .ok pattern) : pattern.checkBindings = .ok () := by
  rcases parseIn_eq_ok_iff.mp read with ⟨lexemes, lexed, accepted⟩
  exact (checkBindings_eq_ok_iff pattern).mpr ((Reader.derives_of_wholeIn accepted).2 rfl)

/-- What is read is in normal form, in each context. -/
theorem parse_normalized {context : PatternContext} {source : String} {pattern : Pattern}
    (read : parse context source = .ok pattern) : pattern.Normalized :=
  ⟨shaped_of_parse read, checkBindings_of_parse read⟩

theorem parse_normalized_of_grouped_binding :
    ∃ pattern, parse .full "let ((a), f((var b?, --1...2))): (T, (U))" = .ok pattern ∧
      pattern.parts.length = 10 ∧ pattern.Normalized := by
  have read : parse .full "let ((a), f((var b?, --1...2))): (T, (U))" = .ok (.annotated
      (.tuple [.binding (.identifier "a") false, .enumCase none "f" (some (.tuple
        [.optional (.binding (.identifier "b") true),
          .expression (.range (.negate (.negate (.integer 1))) (.integer 2) true)]))])
      (.tuple [.named "T", .named "U"])) :=
    ok_of_toOption (by decide +kernel)
  exact ⟨_, read, by decide, parse_normalized read⟩

end Pattern

end PatternClauses
