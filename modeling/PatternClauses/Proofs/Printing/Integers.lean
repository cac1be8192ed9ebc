import PatternClauses.Literal
import PatternClauses.Proofs.Evaluation.Operands
import PatternClauses.Proofs.Matching.Payload
import PatternClauses.Proofs.Printing.RoundTrip

/-!
# Integers as texts

The text of an integer is read as that integer, and as a pattern it matches that integer alone.  A
minus sign is a token of its own, and what stands behind it has to be an integer literal; so the
least integer, whose magnitude is one too large, cannot be written.
-/

namespace PatternClauses

open Grammar

namespace Expression

/-- How an integer is written: a minus sign stands in front of the magnitude of a negative one. -/
def ofInteger (number : Int64) : Expression :=
  if number.toInt < 0 then .negate (.integer (-number)) else .integer number

example : ofInteger (-5) = .negate (.integer 5) := by decide

theorem derives_ofInteger {number : Int64} (notLeast : number ≠ Int64.minValue) :
    ∃ tokens, DerivesUnary tokens (ofInteger number) ∧ ∀ token ∈ tokens, token.Lexical := by
  unfold ofInteger
  split
  · rename_i negative
    refine ⟨_, .negate (.integer (-number)), ?_⟩
    have sign : 0 ≤ (-number).toInt := by
      rw [toInt_negate notLeast]
      omega
    exact List.forall_mem_cons.mpr ⟨trivial, List.forall_mem_singleton.mpr sign⟩
  · rename_i sign
    exact ⟨_, .integer number, List.forall_mem_singleton.mpr (Int.not_lt.mp sign)⟩

theorem text_ofInteger {number : Int64} (notLeast : number ≠ Int64.minValue) :
    (ofInteger number).text = integerText number.toInt := by
  unfold ofInteger integerText
  split
  · rename_i negative
    have sign : ¬ -number.toInt < 0 := by omega
    rw [text, text, toInt_negate notLeast, integerText, if_neg sign, Int.natAbs_neg]
  · rename_i sign
    rw [text, integerText, if_neg sign]

theorem evaluateLiteral_ofInteger {number : Int64} (notLeast : number ≠ Int64.minValue) :
    evaluateLiteral (ofInteger number) = .ok (.integer number) := by
  unfold ofInteger
  split
  · change negated (.integer (-number)) = _
    rw [negated, if_neg (negate_ne_minValue notLeast), Int64.neg_neg]
  · rfl

theorem legible_ofInteger (number : Int64) :
    ∀ literal ∈ (ofInteger number).literals, literal.Legible := by
  unfold ofInteger
  split <;> exact List.forall_mem_singleton.mpr trivial

theorem parse_ofInteger {number : Int64} (notLeast : number ≠ Int64.minValue) :
    Pattern.parse .full (integerText number.toInt) = .ok (.expression (ofInteger number)) := by
  rcases derives_ofInteger notLeast with ⟨tokens, derives, lexical⟩
  have reads := readsAs_unaryText derives lexical (legible_ofInteger number)
  rw [text_ofInteger notLeast] at reads
  exact Pattern.parse_of_reads reads (.annotated (.primary (.expression (.unary derives))))
    List.nodup_nil

end Expression

namespace Collaborators

theorem matchPattern_integer {expression : Expression} {number : Int64}
    (evaluated : evaluateLiteral expression = .ok (.integer number)) (types : NominalTypes)
    (candidate : Int64) (scope : Environment) :
    ((overNominal types evaluateLiteral .empty).matchPattern (.expression expression)
        (.integer candidate) scope).answer =
      .ok (if candidate = number then some scope else none) := by
  have asked : (Consult.ask (.evaluated expression) (evaluateLiteral expression)).answer =
      .ok (.integer number) := evaluated
  have compared : ((overNominal types evaluateLiteral .empty).compareWith expression
      (.integer candidate)).answer = .ok (number == candidate) := by
    rw [compareWith, Consult.bind_of_ok _ asked]
    rfl
  have matched : ((overNominal types evaluateLiteral .empty).matchInto false
      (.expression expression) (.value (.integer candidate)) .empty).answer =
        .ok (number == candidate, .empty) := by
    rw [matchInto, Subject.toValue, Consult.bind_of_ok _ compared]
    rfl
  rw [matchPattern_eq, matched]
  by_cases same : candidate = number
  · subst same
    rw [beq_self_eq_true, if_pos rfl]
    rfl
  · rw [beq_false_of_ne fun equal => same equal.symm, if_neg same]
    rfl

end Collaborators

namespace Value

/-- Every integer but the least one is written as a text that is read as that integer; and the
text, as a pattern, matches the integer and no other, without a fault. -/
theorem parse_integer_text (number : Int64) (notLeast : number ≠ Int64.minValue) :
    let text := (Value.integer number).text
    parse text = .ok (.integer number) ∧
      ∃ expression, Pattern.parse .full text = .ok (.expression expression) ∧
        ∀ types candidate scope,
          ((Collaborators.overNominal types evaluateLiteral .empty).matchPattern
              (.expression expression) (.integer candidate) scope).answer =
            .ok (if candidate = number then some scope else none) := by
  intro text
  have read : Pattern.parse .full text = .ok (.expression (.ofInteger number)) :=
    Expression.parse_ofInteger notLeast
  have evaluated := Expression.evaluateLiteral_ofInteger notLeast
  refine ⟨?_, _, read, Collaborators.matchPattern_integer evaluated⟩
  rw [parse, read]
  simp only [ofPattern, evaluated]

theorem parse_text_above_least :
    (-9223372036854775807 : Int64) ≠ Int64.minValue ∧
      (Value.integer (-9223372036854775807)).text = "-9223372036854775807" ∧
      parse "-9223372036854775807" = .ok (.integer (-9223372036854775807)) := by
  have notLeast : (-9223372036854775807 : Int64) ≠ Int64.minValue := by decide
  have text : (Value.integer (-9223372036854775807)).text = "-9223372036854775807" := by
    decide +kernel
  have read := (parse_integer_text _ notLeast).1
  rw [text] at read
  exact ⟨notLeast, text, read⟩

/-- The text of the least integer is refused: the number behind the sign is too large. -/
theorem parse_least_text :
    let text := (Value.integer Int64.minValue).text
    let refused : ParseError :=
      .lexical (.invalidNumber "9223372036854775808" ⟨1, 20⟩)
    text = "-9223372036854775808" ∧ parse text = .error (.unreadable refused) ∧
      Pattern.parse .full text = .error refused := by
  intro text refused
  have spelled : text = "-9223372036854775808" := by decide +kernel
  have read : Pattern.parse .full text = .error refused := by
    rw [spelled]
    rfl
  refine ⟨spelled, ?_, read⟩
  rw [parse, read]

end Value

end PatternClauses
