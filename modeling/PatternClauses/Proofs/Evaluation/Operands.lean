import PatternClauses.Evaluation
import PatternClauses.Proofs.Lexing.Tokens
import PatternClauses.Proofs.Parsing.Grammar

/-!
# Operands

An operand is a literal behind any number of minus signs.  No sign belongs to the literal itself, so
an integer literal is not negative; and negating it time and again never comes to the least integer,
the one that has no negation.  What can fail is only the negation of something that is no number.
-/

namespace PatternClauses

open Grammar

theorem toInt_negate {number : Int64} (notLeast : number ≠ Int64.minValue) :
    (-number).toInt = -number.toInt := by
  have above : number.toInt ≠ -2 ^ 63 := fun same => notLeast (Int64.toInt.inj same)
  have lower := number.le_toInt
  have upper := number.toInt_lt
  rw [Int64.toInt_neg, Int.bmod_eq_of_le]
  · omega
  · omega

theorem negate_ne_minValue {number : Int64} (notLeast : number ≠ Int64.minValue) :
    -number ≠ Int64.minValue := by
  intro least
  apply notLeast
  rw [← Int64.neg_neg (a := number), least]
  rfl

theorem Binary64.negate_ne_nan {number : Binary64} (isNumber : number ≠ .nan) :
    number.negate ≠ .nan := by
  cases number with
  | nan => exact absurd rfl isNumber
  | infinite | finite => simp [negate]

namespace Expression

/-! ## Numbers behind signs -/

/-- The integer that an integer literal stands for, with the signs in front of it. -/
def integer? : Expression → Option Int
  | .integer value => some value.toInt
  | .negate operand => operand.integer?.map (-·)
  | _ => none

def float? : Expression → Option Binary64
  | .float value => some value
  | .negate operand => operand.float?.map Binary64.negate
  | _ => none

def IsNumber (expression : Expression) : Prop :=
  expression.integer?.isSome = true ∨ expression.float?.isSome = true

/-- What stands behind each of the minus signs. -/
def operands : Expression → List Expression
  | .negate operand => operand :: operand.operands
  | .range lower upper _ => lower.operands ++ upper.operands
  | _ => []

example : (negate (negate (integer 5))).integer? = some 5 := by decide

@[simp] theorem isNumber_negate_iff {operand : Expression} :
    (negate operand).IsNumber ↔ operand.IsNumber := by
  simp [IsNumber, integer?, float?]

theorem IsNumber.operands {expression : Expression} (isNumber : expression.IsNumber) :
    ∀ operand ∈ expression.operands, operand.IsNumber := by
  induction expression with
  | negate operand induction =>
    rw [isNumber_negate_iff] at isNumber
    exact List.forall_mem_cons.mpr ⟨isNumber, induction isNumber⟩
  | range => simp [IsNumber, integer?, float?] at isNumber
  | integer | float | string | boolean | nil => nofun

theorem float?_eq_none_of_integer? {expression : Expression} {number : Int}
    (integer : expression.integer? = some number) : expression.float? = none := by
  induction expression generalizing number with
  | integer => rfl
  | negate operand induction =>
    rcases Option.map_eq_some_iff.mp integer with ⟨inside, same, -⟩
    rw [float?, induction same]
    rfl
  | float | string | boolean | nil | range => cases integer

/-! ## Evaluation -/

/-- What becomes of an operand: a literal behind its signs, or the fault of a sign in front of
something that is no number. -/
inductive Outcome : Expression → Except Fault Value → Prop
  | integer {number : Int64} : expression.integer? = some number.toInt →
      number ≠ Int64.minValue → Outcome expression (.ok (.integer number))
  | float : expression.float? = some number → number ≠ .nan →
      Outcome expression (.ok (.float number))
  | string {text : String} : '"' ∉ text.toList → Outcome (.string text) (.ok (.string text))
  | boolean (value : Bool) : Outcome (.boolean value) (.ok (.boolean value))
  | nil : Outcome .nil (.ok .absent)
  | refused : operand ∈ expression.operands → ¬ operand.IsNumber →
      Outcome expression (.error (.notNegatable value))

theorem Outcome.negate {operand : Expression} {result : Except Fault Value}
    (outcome : Outcome operand result) : Outcome (.negate operand) (result >>= negated) := by
  have refused (value : Value) (notNumber : ¬ operand.IsNumber) :
      Outcome (.negate operand) (.error (.notNegatable value)) := .refused (.head _) notNumber
  cases outcome with
  | @integer _ number same notLeast =>
    have negation : (Except.ok (.integer number) >>= negated) =
        Except.ok (.integer (-number)) := if_neg notLeast
    rw [negation]
    refine .integer ?_ (negate_ne_minValue notLeast)
    rw [integer?, same, Option.map_some, toInt_negate notLeast]
  | float same isNumber =>
    refine .float ?_ (Binary64.negate_ne_nan isNumber)
    rw [float?, same, Option.map_some]
  | string | boolean | nil => exact refused _ (by simp [IsNumber, integer?, float?])
  | refused inside notNumber => exact .refused (.tail _ inside) notNumber

theorem outcome_of_derives {tokens : List Token} {expression : Expression}
    (derives : DerivesUnary tokens expression) (lexical : ∀ token ∈ tokens, token.Lexical) :
    Outcome expression (evaluateLiteral expression) := by
  induction derives with
  | integer value =>
    refine .integer rfl ?_
    rintro rfl
    have sign : 0 ≤ Int64.minValue.toInt := lexical _ (.head _)
    exact absurd sign (by decide)
  | float value => exact .float rfl (lexical _ (.head _))
  | string text => exact .string (lexical _ (.head _))
  | boolean value => exact .boolean value
  | nil => exact .nil
  | negate _ induction =>
    exact (induction fun token member => lexical token (.tail _ member)).negate

namespace Outcome

variable {expression : Expression} {result : Except Fault Value}

theorem exists_value_iff (outcome : Outcome expression result) :
    (∃ value, result = .ok value) ↔ ∀ operand ∈ expression.operands, operand.IsNumber := by
  have numbers (isNumber : expression.IsNumber) (value : Value) :
      (∃ other, Except.ok value = Except.ok (ε := Fault) other) ↔
        ∀ operand ∈ expression.operands, operand.IsNumber :=
    iff_of_true ⟨value, rfl⟩ isNumber.operands
  cases outcome with
  | integer same => exact numbers (.inl (Option.isSome_of_eq_some same)) _
  | float same => exact numbers (.inr (Option.isSome_of_eq_some same)) _
  | string | boolean | nil => exact iff_of_true ⟨_, rfl⟩ nofun
  | refused inside notNumber =>
    refine iff_of_false nofun fun each => ?_
    exact notNumber (each _ inside)

theorem of_integer? (outcome : Outcome expression result) {number : Int}
    (integer : expression.integer? = some number) :
    ∃ value : Int64, result = .ok (.integer value) ∧ value.toInt = number := by
  cases outcome with
  | integer same =>
    rw [integer] at same
    exact ⟨_, rfl, (Option.some.inj same).symm⟩
  | float same =>
    rw [float?_eq_none_of_integer? integer] at same
    cases same
  | string | boolean | nil => cases integer
  | refused inside notNumber =>
    have isNumber : expression.IsNumber := .inl (Option.isSome_of_eq_some integer)
    exact absurd (isNumber.operands _ inside) notNumber

theorem of_float? (outcome : Outcome expression result) {number : Binary64}
    (float : expression.float? = some number) : result = .ok (.float number) := by
  cases outcome with
  | integer same =>
    rw [float?_eq_none_of_integer? same] at float
    cases float
  | float same =>
    rw [float] at same
    rw [Option.some.inj same]
  | string | boolean | nil => cases float
  | refused inside notNumber =>
    have isNumber : expression.IsNumber := .inr (Option.isSome_of_eq_some float)
    exact absurd (isNumber.operands _ inside) notNumber

theorem of_string {text : String} (outcome : Outcome (.string text) result) :
    result = .ok (.string text) := by
  cases outcome with
  | string => rfl
  | integer same | float same => cases same
  | refused inside => cases inside

theorem fault_eq {fault : Fault} (outcome : Outcome expression (.error fault)) :
    ∃ value, fault = .notNegatable value := by
  cases outcome
  exact ⟨_, rfl⟩

end Outcome

end Expression

end PatternClauses
