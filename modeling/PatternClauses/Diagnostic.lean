import PatternClauses.Text.Quoted

/-!
# Diagnostics

Places in a source text, and the report that an error is shown as: a short message, a code that
classifies it, advice, and labels that point into the source.  Places are counted in UTF-8 bytes.
-/

namespace PatternClauses

/-- A run of the source from `start` up to, but not including, `stop`. -/
structure Span where
  start : Nat
  stop : Nat
  deriving DecidableEq

def Span.length (span : Span) : Nat := span.stop - span.start

def utf8Length : List Char → Nat
  | [] => 0
  | head :: tail => head.utf8Size + utf8Length tail

@[simp] theorem utf8Length_nil : utf8Length [] = 0 := rfl

@[simp] theorem utf8Length_cons (head : Char) (tail : List Char) :
    utf8Length (head :: tail) = head.utf8Size + utf8Length tail := rfl

@[simp] theorem utf8Length_append (left right : List Char) :
    utf8Length (left ++ right) = utf8Length left + utf8Length right := by
  induction left with
  | nil => simp
  | cons head tail induction => simp [induction, Nat.add_assoc]

structure Label where
  text : String
  span : Span
  deriving DecidableEq

structure Diagnostic where
  message : String
  code : String
  help : String
  labels : List Label
  deriving DecidableEq

/-- A name that one pattern binds twice, with both places when the pattern has a source. -/
structure DuplicateBinding where
  name : String
  places : Option (Span × Span)
  deriving DecidableEq

def DuplicateBinding.diagnostic (duplicate : DuplicateBinding) : Diagnostic where
  message := "duplicate-binding"
  code := "pattern::duplicate_binding"
  help := quoted duplicate.name ++
    " is bound more than once in the same pattern, rename one of them"
  labels := match duplicate.places with
    | some (first, second) => [⟨"First bound here", first⟩, ⟨"Bound again here", second⟩]
    | none => []

end PatternClauses
