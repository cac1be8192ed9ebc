import PatternClauses.Diagnostic
import PatternClauses.Expression
import PatternClauses.TypeExpr

/-!
# Patterns

The patterns of a case clause, the names they bind, and their text.  A pattern is refutable when
some value does not match it because of its form.
-/

namespace PatternClauses

inductive Pattern where
  | wildcard
  | identifier (name : String)
  /-- Names bound inside are constant or, if `mutable`, variable. -/
  | binding (inner : Pattern) (mutable : Bool)
  | tuple (items : List Pattern)
  /-- A case of an enum; without a payload pattern it matches the case with no payload. -/
  | enumCase (qualifier : Option String) (name : String) (payload : Option Pattern)
  | optional (inner : Pattern)
  | isType (type : TypeExpr)
  | cast (inner : Pattern) (type : TypeExpr)
  | expression (value : Expression)
  | annotated (inner : Pattern) (type : TypeExpr)

namespace Pattern

/-- Patterns in parentheses.  A single one is only grouped, so `(x)` is `x`. -/
def ofItems : List Pattern → Pattern
  | [item] => item
  | items => .tuple items

theorem ofItems_of_length_ne_one {items : List Pattern} (several : items.length ≠ 1) :
    ofItems items = .tuple items := by
  match items with
  | [] => rfl
  | [item] => exact absurd rfl several
  | first :: second :: rest => rfl

/-- Induction with a hypothesis for every item of a tuple and for a payload. -/
@[elab_as_elim, induction_eliminator]
theorem induction {motive : Pattern → Prop} (wildcard : motive .wildcard)
    (identifier : ∀ name, motive (.identifier name))
    (binding : ∀ inner mutable, motive inner → motive (.binding inner mutable))
    (tuple : ∀ items, (∀ item ∈ items, motive item) → motive (.tuple items))
    (enumCase : ∀ qualifier name payload, (∀ pattern ∈ payload, motive pattern) →
      motive (.enumCase qualifier name payload))
    (optional : ∀ inner, motive inner → motive (.optional inner))
    (isType : ∀ type, motive (.isType type))
    (cast : ∀ inner type, motive inner → motive (.cast inner type))
    (expression : ∀ value, motive (.expression value))
    (annotated : ∀ inner type, motive inner → motive (.annotated inner type)) :
    ∀ pattern, motive pattern := go
where
  go : ∀ pattern, motive pattern
    | .wildcard => wildcard
    | .identifier name => identifier name
    | .binding inner mutable => binding inner mutable (go inner)
    | .tuple items => tuple items (each items)
    | .enumCase qualifier name none => enumCase qualifier name none (by simp)
    | .enumCase qualifier name (some payload) =>
      enumCase qualifier name (some payload) (by simpa using go payload)
    | .optional inner => optional inner (go inner)
    | .isType type => isType type
    | .cast inner type => cast inner type (go inner)
    | .expression value => expression value
    | .annotated inner type => annotated inner type (go inner)
  each : ∀ items : List Pattern, ∀ item ∈ items, motive item
    | head :: tail, item, member => by
      rcases List.mem_cons.mp member with equal | later
      · exact equal ▸ go head
      · exact each tail item later

/-! ## Refutability -/

mutual

def isRefutable : Pattern → Bool
  | .wildcard | .identifier _ => false
  | .binding inner _ | .annotated inner _ => inner.isRefutable
  | .tuple items => anyRefutable items
  | .enumCase _ _ _ | .optional _ | .isType _ | .cast _ _ | .expression _ => true

def anyRefutable : List Pattern → Bool
  | [] => false
  | item :: rest => item.isRefutable || anyRefutable rest

end

@[simp] theorem anyRefutable_eq_any (items : List Pattern) :
    anyRefutable items = items.any isRefutable := by
  induction items with
  | nil => rfl
  | cons item rest induction => simp [anyRefutable, induction]

/-! ## Bound names -/

mutual

def bindings : Pattern → List String
  | .identifier name => [name]
  | .binding inner _ | .optional inner | .cast inner _ | .annotated inner _ => inner.bindings
  | .tuple items => bindingsEach items
  | .enumCase _ _ (some payload) => payload.bindings
  | .enumCase _ _ none | .wildcard | .isType _ | .expression _ => []

def bindingsEach : List Pattern → List String
  | [] => []
  | item :: rest => item.bindings ++ bindingsEach rest

end

@[simp] theorem bindingsEach_eq_flatMap (items : List Pattern) :
    bindingsEach items = items.flatMap bindings := by
  induction items with
  | nil => rfl
  | cons item rest induction => simp [bindingsEach, induction]

theorem bindings_ofItems (items : List Pattern) :
    (ofItems items).bindings = items.flatMap bindings := by
  match items with
  | [] => rfl
  | [item] => simp [ofItems]
  | first :: second :: rest => simp [ofItems, bindings]

/-- The first name that stands in `seen` or earlier in the list. -/
def firstRepeated? (seen : List String) : List String → Option String
  | [] => none
  | name :: rest => if name ∈ seen then some name else firstRepeated? (name :: seen) rest

theorem firstRepeated?_eq_none_iff (seen names : List String) :
    firstRepeated? seen names = none ↔ names.Nodup ∧ ∀ name ∈ names, name ∉ seen := by
  induction names generalizing seen with
  | nil => simp [firstRepeated?]
  | cons name rest induction =>
    by_cases member : name ∈ seen
    · simp [firstRepeated?, member]
    · simp only [firstRepeated?, member, if_false, induction, List.mem_cons, List.nodup_cons]
      grind

def checkBindings (pattern : Pattern) : Except DuplicateBinding Unit :=
  match firstRepeated? [] pattern.bindings with
  | some name => .error ⟨name, none⟩
  | none => .ok ()

theorem checkBindings_eq_ok_iff (pattern : Pattern) :
    pattern.checkBindings = .ok () ↔ pattern.bindings.Nodup := by
  have unique := firstRepeated?_eq_none_iff [] pattern.bindings
  simp only [checkBindings]
  cases equal : firstRepeated? [] pattern.bindings <;> simp_all

/-! ## Expressions -/

mutual

def expressions : Pattern → List Expression
  | .expression value => [value]
  | .binding inner _ | .optional inner | .cast inner _ | .annotated inner _ => inner.expressions
  | .tuple items => expressionsEach items
  | .enumCase _ _ (some payload) => payload.expressions
  | .enumCase _ _ none | .wildcard | .identifier _ | .isType _ => []

def expressionsEach : List Pattern → List Expression
  | [] => []
  | item :: rest => item.expressions ++ expressionsEach rest

end

@[simp] theorem expressionsEach_eq_flatMap (items : List Pattern) :
    expressionsEach items = items.flatMap expressions := by
  induction items with
  | nil => rfl
  | cons item rest induction => simp [expressionsEach, induction]

/-! ## Text -/

mutual

def text : Pattern → String
  | .wildcard => "_"
  | .identifier name => name
  | .binding inner mutable => (if mutable then "var " else "let ") ++ inner.text
  | .tuple items => "(" ++ commaSeparated (textEach items) ++ ")"
  | .enumCase qualifier name none => qualifier.getD "" ++ "." ++ name
  | .enumCase qualifier name (some (.tuple items)) =>
    qualifier.getD "" ++ "." ++ name ++ "(" ++ commaSeparated (textEach items) ++ ")"
  | .enumCase qualifier name (some payload) =>
    qualifier.getD "" ++ "." ++ name ++ "(" ++ payload.text ++ ")"
  | .optional inner => inner.text ++ "?"
  | .isType type => "is " ++ type.text
  | .cast inner type => inner.text ++ " as " ++ type.text
  | .expression value => value.text
  | .annotated inner type => inner.text ++ ": " ++ type.text

def textEach : List Pattern → List String
  | [] => []
  | item :: rest => item.text :: textEach rest

end

@[simp] theorem textEach_eq_map (items : List Pattern) : textEach items = items.map text := by
  induction items with
  | nil => rfl
  | cons item rest induction => simp [textEach, induction]

example : (tuple [.binding (.identifier "x") false, .enumCase none "none" none,
    .enumCase (some "Shape") "circle" (some .wildcard)]).text =
    "(let x, .none, Shape.circle(_))" := by
  decide

mutual

def outline : Pattern → Outline
  | .wildcard => .atom "Wildcard"
  | .identifier name => .applied "Identifier" [.atom (quoted name)]
  | .binding inner mutable =>
    .applied "ValueBinding" [inner.outline, .atom (booleanText mutable)]
  | .tuple items => .applied "Tuple" [.list (outlineEach items)]
  | .enumCase qualifier name none => caseOutline qualifier name none
  | .enumCase qualifier name (some payload) => caseOutline qualifier name (some payload.outline)
  | .optional inner => .applied "Optional" [inner.outline]
  | .isType type => .applied "Is" [type.outline]
  | .cast inner type => .applied "As" [inner.outline, type.outline]
  | .expression value => .applied "Expression" [value.outline]
  | .annotated inner type => .applied "Typed" [inner.outline, type.outline]
where
  caseOutline (qualifier : Option String) (name : String) (payload : Option Outline) : Outline :=
    .applied "EnumCase"
      [.record "EnumCasePattern"
        [("qualifier", .optional (qualifier.map fun path => .atom (quoted path))),
          ("case", .atom (quoted name)),
          ("payload", .optional payload)]]

def outlineEach : List Pattern → List Outline
  | [] => []
  | item :: rest => item.outline :: outlineEach rest

end

/-! ## Decidable equality -/

mutual

def same : Pattern → Pattern → Bool
  | .wildcard, .wildcard => true
  | .identifier left, .identifier right => left == right
  | .binding left leftMutable, .binding right rightMutable =>
    same left right && leftMutable == rightMutable
  | .tuple left, .tuple right => sameEach left right
  | .enumCase leftQualifier leftName none, .enumCase rightQualifier rightName none =>
    leftQualifier == rightQualifier && leftName == rightName
  | .enumCase leftQualifier leftName (some left), .enumCase rightQualifier rightName (some right) =>
    leftQualifier == rightQualifier && leftName == rightName && same left right
  | .optional left, .optional right => same left right
  | .isType left, .isType right => left == right
  | .cast left leftType, .cast right rightType => same left right && leftType == rightType
  | .expression left, .expression right => left == right
  | .annotated left leftType, .annotated right rightType =>
    same left right && leftType == rightType
  | _, _ => false

def sameEach : List Pattern → List Pattern → Bool
  | [], [] => true
  | left :: leftRest, right :: rightRest => same left right && sameEach leftRest rightRest
  | _, _ => false

end

theorem sameEach_iff {left : List Pattern}
    (induction : ∀ item ∈ left, ∀ other, same item other = true ↔ item = other) :
    ∀ right, sameEach left right = true ↔ left = right := by
  induction left with
  | nil => intro right; cases right <;> simp [sameEach]
  | cons head tail tailInduction =>
    intro right
    cases right with
    | nil => simp [sameEach]
    | cons other rest =>
      simp [sameEach, induction head (.head _) other,
        tailInduction (fun item member => induction item (.tail _ member)) rest]

theorem same_iff (left right : Pattern) : same left right = true ↔ left = right := by
  induction left generalizing right with
  | wildcard | identifier | isType | expression => cases right <;> simp [same]
  | binding inner mutable induction => cases right <;> simp [same, induction]
  | optional inner induction => cases right <;> simp [same, induction]
  | cast inner type induction => cases right <;> simp [same, induction]
  | annotated inner type induction => cases right <;> simp [same, induction]
  | tuple items induction =>
    cases right with
    | tuple others => simpa [same] using sameEach_iff induction others
    | _ => simp [same]
  | enumCase qualifier name payload induction =>
    cases right with
    | enumCase otherQualifier otherName other =>
      cases payload <;> cases other <;> simp_all [same, and_assoc]
    | _ => cases payload <;> simp [same]

instance : DecidableEq Pattern := fun left right =>
  decidable_of_iff _ (same_iff left right)

end Pattern

end PatternClauses
