/-!
# White space

The 25 characters of the Unicode property `White_Space`, and text without them at its ends.
-/

namespace PatternClauses

def isWhiteSpace (character : Char) : Bool :=
  let code := character.toNat
  (0x9 ≤ code ∧ code ≤ 0xd) ∨ code = 0x20 ∨ code = 0x85 ∨ code = 0xa0 ∨ code = 0x1680 ∨
    (0x2000 ≤ code ∧ code ≤ 0x200a) ∨ code = 0x2028 ∨ code = 0x2029 ∨ code = 0x202f ∨
    code = 0x205f ∨ code = 0x3000

theorem isWhiteSpace_of_isWhitespace {character : Char}
    (blank : character.isWhitespace = true) : isWhiteSpace character = true := by
  simp only [Char.isWhitespace, Bool.or_eq_true, decide_eq_true_eq] at blank
  rcases blank with ((rfl | rfl) | rfl) | rfl <;> decide

def trimmed (characters : List Char) : List Char :=
  ((characters.dropWhile isWhiteSpace).reverse.dropWhile isWhiteSpace).reverse

example : trimmed " a b\t".toList = "a b".toList := by decide +kernel

end PatternClauses
