import PatternClauses.Expression

/-!
# Values

The values that patterns are matched against: scalars, tuples, ranges, cases of enums and objects
of classes.  An optional is a case of the enum `Optional`.
-/

namespace PatternClauses

inductive Value where
  | integer (value : Int64)
  | float (value : Binary64)
  | boolean (value : Bool)
  | string (value : String)
  | tuple (items : List Value)
  | range (lower upper : Value) (closed : Bool)
  | enumCase (enum name : String) (payload : List Value)
  | object (className : String) (fields : List (String × Value))

structure ActiveCase where
  name : String
  payload : List Value

def optionalName : String := "Optional"

def someName : String := "some"

def noneName : String := "none"

namespace Value

/-- Induction with a hypothesis for every part of a value. -/
@[elab_as_elim, induction_eliminator]
theorem induction {motive : Value → Prop} (integer : ∀ value, motive (.integer value))
    (float : ∀ value, motive (.float value)) (boolean : ∀ value, motive (.boolean value))
    (string : ∀ value, motive (.string value))
    (tuple : ∀ items, (∀ item ∈ items, motive item) → motive (.tuple items))
    (range : ∀ lower upper closed, motive lower → motive upper →
      motive (.range lower upper closed))
    (enumCase : ∀ enum name payload, (∀ item ∈ payload, motive item) →
      motive (.enumCase enum name payload))
    (object : ∀ className fields, (∀ field ∈ fields, motive field.2) →
      motive (.object className fields)) :
    ∀ value, motive value := go
where
  go : ∀ value, motive value
    | .integer value => integer value
    | .float value => float value
    | .boolean value => boolean value
    | .string value => string value
    | .tuple items => tuple items (each items)
    | .range lower upper closed => range lower upper closed (go lower) (go upper)
    | .enumCase enum name payload => enumCase enum name payload (each payload)
    | .object className fields => object className fields (eachField fields)
  each : ∀ items : List Value, ∀ item ∈ items, motive item
    | head :: tail, item, member => by
      rcases List.mem_cons.mp member with equal | later
      · exact equal ▸ go head
      · exact each tail item later
  eachField : ∀ fields : List (String × Value), ∀ field ∈ fields, motive field.2
    | (_, value) :: tail, field, member => by
      rcases List.mem_cons.mp member with equal | later
      · exact equal ▸ go value
      · exact eachField tail field later

/-! ## Construction and views -/

def unit : Value := .tuple []

/-- Values in parentheses.  A single one is only grouped, so `(5)` is `5`. -/
def ofItems : List Value → Value
  | [item] => item
  | items => .tuple items

theorem ofItems_of_length_ne_one {items : List Value} (several : items.length ≠ 1) :
    ofItems items = .tuple items := by
  match items with
  | [] => rfl
  | [item] => exact absurd rfl several
  | first :: second :: rest => rfl

def present (value : Value) : Value := .enumCase optionalName someName [value]

def absent : Value := .enumCase optionalName noneName []

def isOptional : Value → Bool
  | .enumCase enum _ _ => enum == optionalName
  | _ => false

def items? : Value → Option (List Value)
  | .tuple items => some items
  | _ => none

def activeCase? : Value → Option ActiveCase
  | .enumCase _ name payload => some ⟨name, payload⟩
  | _ => none

/-! ## Text -/

mutual

def text : Value → String
  | .integer value => integerText value.toInt
  | .float value => value.text
  | .boolean value => booleanText value
  | .string value => quoted value
  | .tuple items => "(" ++ commaSeparated (textEach items) ++ ")"
  | .range lower upper closed => lower.text ++ rangeMark closed ++ upper.text
  | .enumCase enum name [] => enum ++ "." ++ name
  | .enumCase enum name (item :: rest) =>
    enum ++ "." ++ name ++ "(" ++ commaSeparated (textEach (item :: rest)) ++ ")"
  | .object className fields => className ++ " \x7b" ++ ",".intercalate (textFields fields) ++ " \x7d"

def textEach : List Value → List String
  | [] => []
  | item :: rest => item.text :: textEach rest

def textFields : List (String × Value) → List String
  | [] => []
  | (name, value) :: rest => (" " ++ name ++ ": " ++ value.text) :: textFields rest

end

@[simp] theorem textEach_eq_map (items : List Value) : textEach items = items.map text := by
  induction items with
  | nil => rfl
  | cons item rest induction => simp [textEach, induction]

example : (tuple [present (integer 1), absent, range (integer (-2)) (integer 2) true]).text =
    "(Optional.some(1), Optional.none, -2...2)" := by
  decide

mutual

def outline : Value → Outline
  | .integer value => .applied "Integer" [.atom (integerText value.toInt)]
  | .float value => .applied "Float" [.atom value.text]
  | .boolean value => .applied "Boolean" [.atom (booleanText value)]
  | .string value => .applied "String" [.atom (quoted value)]
  | .tuple items => .applied "Tuple" [.list (outlineEach items)]
  | .range lower upper closed =>
    .applied "Range"
      [.applied "RangeValue" [lower.outline, upper.outline, .atom (booleanText closed)]]
  | .enumCase enum name payload =>
    .applied "Case"
      [.record "CaseValue"
        [("enum_name", .atom (quoted enum)), ("case", .atom (quoted name)),
          ("payload", .list (outlineEach payload))]]
  | .object className fields =>
    .applied "Object"
      [.record "ObjectValue"
        [("class", .atom (quoted className)), ("fields", .list (outlineFields fields))]]

def outlineEach : List Value → List Outline
  | [] => []
  | item :: rest => item.outline :: outlineEach rest

def outlineFields : List (String × Value) → List Outline
  | [] => []
  | (name, value) :: rest => .applied "" [.atom (quoted name), value.outline] :: outlineFields rest

end

end Value

end PatternClauses
