import PatternClauses.Text.Quoted
import PatternClauses.Text.Outline

/-!
# Runtime types

The types that values have.  A type is coded as a list of numbers in such a way that no code
begins another, which decides equality and gives types the order under which they are looked up.
-/

namespace PatternClauses

inductive RuntimeType where
  | integer
  | float
  | boolean
  | string
  | any
  | range (bound : RuntimeType)
  | tuple (items : List RuntimeType)
  | optional (wrapped : RuntimeType)
  /-- A class or an enum known by its name alone. -/
  | custom (name : String)

namespace RuntimeType

def unit : RuntimeType := .tuple []

@[elab_as_elim, induction_eliminator]
theorem induction {motive : RuntimeType → Prop} (integer : motive .integer)
    (float : motive .float) (boolean : motive .boolean) (string : motive .string)
    (any : motive .any) (range : ∀ bound, motive bound → motive (.range bound))
    (tuple : ∀ items, (∀ item ∈ items, motive item) → motive (.tuple items))
    (optional : ∀ wrapped, motive wrapped → motive (.optional wrapped))
    (custom : ∀ name, motive (.custom name)) :
    ∀ type, motive type := go
where
  go : ∀ type, motive type
    | .integer => integer
    | .float => float
    | .boolean => boolean
    | .string => string
    | .any => any
    | .range bound => range bound (go bound)
    | .tuple items => tuple items (each items)
    | .optional wrapped => optional wrapped (go wrapped)
    | .custom name => custom name
  each : ∀ items : List RuntimeType, ∀ item ∈ items, motive item
    | head :: tail, item, member => by
      rcases List.mem_cons.mp member with equal | later
      · exact equal ▸ go head
      · exact each tail item later

/-! ## Text -/

mutual

def text : RuntimeType → String
  | .integer => "Int"
  | .float => "Double"
  | .boolean => "Bool"
  | .string => "String"
  | .any => "Any"
  | .range bound => "Range<" ++ bound.text ++ ">"
  | .tuple items => "(" ++ commaSeparated (textEach items) ++ ")"
  | .optional wrapped => wrapped.text ++ "?"
  | .custom name => name

def textEach : List RuntimeType → List String
  | [] => []
  | item :: rest => item.text :: textEach rest

end

example : (range (optional integer)).text = "Range<Int?>" := by decide

mutual

def outline : RuntimeType → Outline
  | .integer => .atom "Integer"
  | .float => .atom "Float"
  | .boolean => .atom "Boolean"
  | .string => .atom "String"
  | .any => .atom "Any"
  | .range bound => .applied "Range" [bound.outline]
  | .tuple items => .applied "Tuple" [.list (outlineEach items)]
  | .optional wrapped => .applied "Optional" [wrapped.outline]
  | .custom name => .applied "Custom" [.atom (quoted name)]

def outlineEach : List RuntimeType → List Outline
  | [] => []
  | item :: rest => item.outline :: outlineEach rest

end

/-! ## Codes -/

mutual

def code : RuntimeType → List Nat
  | .integer => [0]
  | .float => [1]
  | .boolean => [2]
  | .string => [3]
  | .any => [4]
  | .range bound => 5 :: bound.code
  | .tuple items => 6 :: items.length :: codeEach items
  | .optional wrapped => 7 :: wrapped.code
  | .custom name => 8 :: name.toList.length :: name.toList.map Char.toNat

def codeEach : List RuntimeType → List Nat
  | [] => []
  | item :: rest => item.code ++ codeEach rest

end

theorem codeEach_append_inj {left : List RuntimeType}
    (induction : ∀ item ∈ left, ∀ (other : RuntimeType) (rest otherRest : List Nat),
      item.code ++ rest = other.code ++ otherRest → item = other ∧ rest = otherRest) :
    ∀ (right : List RuntimeType) (rest otherRest : List Nat), left.length = right.length →
      codeEach left ++ rest = codeEach right ++ otherRest → left = right ∧ rest = otherRest := by
  induction left with
  | nil =>
    intro right rest otherRest length equal
    cases right with
    | nil => exact ⟨rfl, equal⟩
    | cons => simp at length
  | cons head tail tailInduction =>
    intro right rest otherRest length equal
    cases right with
    | nil => simp at length
    | cons other others =>
      simp only [codeEach, List.append_assoc] at equal
      obtain ⟨rfl, later⟩ := induction head (.head _) other _ _ equal
      obtain ⟨rfl, same⟩ := tailInduction (fun item member => induction item (.tail _ member))
        others _ _ (by simpa using length) later
      exact ⟨rfl, same⟩

/-- The code of a type ends where it can be seen to end. -/
theorem code_append_inj (left right : RuntimeType) (rest otherRest : List Nat)
    (equal : left.code ++ rest = right.code ++ otherRest) : left = right ∧ rest = otherRest := by
  induction left generalizing right rest otherRest with
  | integer | float | boolean | string | any => cases right <;> simp_all [code]
  | range bound induction =>
    cases right with
    | range other => simpa [code] using induction other _ _ (by simpa [code] using equal)
    | _ => simp [code] at equal
  | optional wrapped induction =>
    cases right with
    | optional other => simpa [code] using induction other _ _ (by simpa [code] using equal)
    | _ => simp [code] at equal
  | tuple items induction =>
    cases right with
    | tuple others =>
      simp only [code, List.cons_append, List.cons.injEq, true_and] at equal
      simpa using codeEach_append_inj induction others _ _ equal.1 equal.2
    | _ => simp [code] at equal
  | custom name =>
    cases right with
    | custom other =>
      simp only [code, List.cons_append, List.cons.injEq, true_and] at equal
      obtain ⟨same, later⟩ := List.append_inj equal.2 (by simpa using equal.1)
      have names : name.toList = other.toList :=
        List.map_inj_right (fun _ _ => Char.toNat_inj.mp) |>.mp same
      exact ⟨by rw [String.toList_inj.mp names], later⟩
    | _ => simp [code] at equal

theorem code_inj {left right : RuntimeType} : left.code = right.code ↔ left = right :=
  ⟨fun equal => (code_append_inj left right [] [] (by simpa using equal)).1, fun equal => equal ▸ rfl⟩

instance : DecidableEq RuntimeType := fun _ _ => decidable_of_iff _ code_inj

end RuntimeType

/-! ## Pairs of types -/

/-- The type of a pattern's value beside the type of the candidate it is compared with. -/
structure TypePair where
  pattern : RuntimeType
  candidate : RuntimeType
  deriving DecidableEq

namespace TypePair

def code (pair : TypePair) : List Nat := pair.pattern.code ++ pair.candidate.code

theorem code_inj {left right : TypePair} (equal : left.code = right.code) : left = right := by
  obtain ⟨pattern, later⟩ := RuntimeType.code_append_inj _ _ _ _ equal
  have candidate := RuntimeType.code_inj.mp later
  cases left; cases right
  simp_all

instance : Ord TypePair := ⟨compareOn code⟩

instance : Std.TransOrd TypePair := inferInstanceAs (Std.TransCmp (compareOn code))

instance : Std.LawfulEqOrd TypePair where
  eq_of_compare equal := code_inj (Std.LawfulEqOrd.eq_of_compare (α := List Nat) equal)

def outline (pair : TypePair) : Outline :=
  .applied "" [pair.pattern.outline, pair.candidate.outline]

end TypePair

end PatternClauses
