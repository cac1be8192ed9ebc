import PatternClauses.Text.Quoted
import PatternClauses.Text.Outline

/-!
# Type expressions

Types as they are written in a pattern: names, which may be qualified by a dotted path, tuples and
optionals.  What a name means is for a type oracle to say.
-/

namespace PatternClauses

inductive TypeExpr where
  | named (name : String)
  | tuple (items : List TypeExpr)
  | optional (wrapped : TypeExpr)

namespace TypeExpr

/-- Types in parentheses.  A single one is only grouped, so `(Int)` is `Int`. -/
def ofItems : List TypeExpr → TypeExpr
  | [item] => item
  | items => .tuple items

theorem ofItems_of_length_ne_one {items : List TypeExpr} (several : items.length ≠ 1) :
    ofItems items = .tuple items := by
  match items with
  | [] => rfl
  | [item] => exact absurd rfl several
  | first :: second :: rest => rfl

@[elab_as_elim, induction_eliminator]
theorem induction {motive : TypeExpr → Prop} (named : ∀ name, motive (.named name))
    (tuple : ∀ items, (∀ item ∈ items, motive item) → motive (.tuple items))
    (optional : ∀ wrapped, motive wrapped → motive (.optional wrapped)) :
    ∀ type, motive type
  | .named name => named name
  | .tuple items => tuple items (each items)
  | .optional wrapped => optional wrapped (induction named tuple optional wrapped)
where
  each : ∀ items : List TypeExpr, ∀ item ∈ items, motive item
    | head :: tail, item, member => by
      rcases List.mem_cons.mp member with equal | later
      · exact equal ▸ induction named tuple optional head
      · exact each tail item later

/-! ## Text -/

mutual

def text : TypeExpr → String
  | .named name => name
  | .tuple items => "(" ++ commaSeparated (textEach items) ++ ")"
  | .optional wrapped => wrapped.text ++ "?"

def textEach : List TypeExpr → List String
  | [] => []
  | item :: rest => item.text :: textEach rest

end

@[simp] theorem textEach_eq_map (items : List TypeExpr) : textEach items = items.map text := by
  induction items with
  | nil => rfl
  | cons item rest induction => simp [textEach, induction]

example : (optional (tuple [named "Int", named "Shape.Kind"])).text = "(Int, Shape.Kind)?" := by
  decide

mutual

def outline : TypeExpr → Outline
  | .named name => .applied "Named" [.atom (quoted name)]
  | .tuple items => .applied "Tuple" [.list (outlineEach items)]
  | .optional wrapped => .applied "Optional" [wrapped.outline]

def outlineEach : List TypeExpr → List Outline
  | [] => []
  | item :: rest => item.outline :: outlineEach rest

end

/-! ## Decidable equality -/

mutual

def same : TypeExpr → TypeExpr → Bool
  | .named left, .named right => left == right
  | .tuple left, .tuple right => sameEach left right
  | .optional left, .optional right => same left right
  | _, _ => false

def sameEach : List TypeExpr → List TypeExpr → Bool
  | [], [] => true
  | left :: leftRest, right :: rightRest => same left right && sameEach leftRest rightRest
  | _, _ => false

end

theorem sameEach_iff {left : List TypeExpr}
    (induction : ∀ item ∈ left, ∀ other, same item other = true ↔ item = other) :
    ∀ right, sameEach left right = true ↔ left = right := by
  induction left with
  | nil => intro right; cases right <;> simp [sameEach]
  | cons head tail tailInduction =>
    intro right
    cases right with
    | nil => simp [sameEach]
    | cons other rest =>
      simp [sameEach, induction head (.head _) other,
        tailInduction (fun item member => induction item (.tail _ member)) rest]

theorem same_iff (left right : TypeExpr) : same left right = true ↔ left = right := by
  induction left generalizing right with
  | named name => cases right <;> simp [same]
  | tuple items induction =>
    cases right with
    | tuple others => simpa [same] using sameEach_iff induction others
    | _ => simp [same]
  | optional wrapped induction => cases right <;> simp [same, induction]

instance : DecidableEq TypeExpr := fun left right =>
  decidable_of_iff _ (same_iff left right)

end TypeExpr

end PatternClauses
