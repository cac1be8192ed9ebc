/-!
# Outlines

An outline is the structure of a value as it is shown for inspection: atoms, applied names,
records and lists.  It has two renderings, one on a single line and one with every part on a line
of its own.
-/

namespace PatternClauses

def commaSeparated (parts : List String) : String := ", ".intercalate parts

inductive Outline where
  | atom (text : String)
  | applied (name : String) (arguments : List Outline)
  | record (name : String) (fields : List (String × Outline))
  | list (items : List Outline)

namespace Outline

def optional : Option Outline → Outline
  | none => .atom "None"
  | some part => .applied "Some" [part]

/-! ## One line -/

mutual

def inline : Outline → String
  | .atom text => text
  | .applied name arguments => name ++ "(" ++ commaSeparated (inlineEach arguments) ++ ")"
  | .record name fields => name ++ " \x7b " ++ commaSeparated (inlineFields fields) ++ " \x7d"
  | .list items => "[" ++ commaSeparated (inlineEach items) ++ "]"

def inlineEach : List Outline → List String
  | [] => []
  | item :: rest => item.inline :: inlineEach rest

def inlineFields : List (String × Outline) → List String
  | [] => []
  | (name, value) :: rest => (name ++ ": " ++ value.inline) :: inlineFields rest

end

example : (applied "Tuple" [.list [.atom "Any", .atom "Int"]]).inline = "Tuple([Any, Int])" := by
  decide

/-! ## One line for each part -/

def margin (depth : Nat) : String := String.ofList (List.replicate (4 * depth) ' ')

mutual

/-- The rendering after a line start at `depth`; nested parts stand one level deeper, each ended
by a comma. -/
def indented (depth : Nat) : Outline → String
  | .atom text => text
  | .applied name arguments =>
    name ++ "(\n" ++ indentedEach (depth + 1) arguments ++ margin depth ++ ")"
  | .record name fields =>
    name ++ " \x7b\n" ++ indentedFields (depth + 1) fields ++ margin depth ++ "\x7d"
  | .list [] => "[]"
  | .list (item :: rest) =>
    "[\n" ++ indentedEach (depth + 1) (item :: rest) ++ margin depth ++ "]"

def indentedEach (depth : Nat) : List Outline → String
  | [] => ""
  | item :: rest => margin depth ++ item.indented depth ++ ",\n" ++ indentedEach depth rest

def indentedFields (depth : Nat) : List (String × Outline) → String
  | [] => ""
  | (name, value) :: rest =>
    margin depth ++ name ++ ": " ++ value.indented depth ++ ",\n" ++ indentedFields depth rest

end

example :
    (applied "Is" [.applied "Named" [.atom "Int"]]).indented 0 =
      "Is(\n    Named(\n        Int,\n    ),\n)" := by
  decide

end Outline

end PatternClauses
