import PatternClauses.Proofs.CommandLine.Literals
import PatternClauses.Proofs.Evaluation.Operands
import PatternClauses.Proofs.Printing.Literals

/-!
# Expressions of a source

What a source can say about numbers is limited from both sides: the lexer admits only literals whose
negation fits, and the literal evaluator asks only for numbers behind signs and for bounds in order.
So the evaluation of an expression that was read fails for one of these two reasons, and never
because a number is too large.
-/

namespace PatternClauses

open Grammar

theorem within_of_ne_minValue {number : Int64} (notLeast : number ≠ Int64.minValue) :
    -(maximalInteger : Int) ≤ number.toInt ∧ number.toInt ≤ maximalInteger := by
  have above : number.toInt ≠ -2 ^ 63 := fun same => notLeast (Int64.toInt.inj same)
  have lower := number.le_toInt
  have upper := number.toInt_lt
  rw [maximalInteger]
  omega

inductive Value.HasInteger (number : Int64) : Value → Prop
  | here : HasInteger number (.integer number)
  | lower : HasInteger number lower → HasInteger number (.range lower upper closed)
  | upper : HasInteger number upper → HasInteger number (.range lower upper closed)
  | item : item ∈ items → HasInteger number item → HasInteger number (.tuple items)
  | payload : item ∈ payload → HasInteger number item →
      HasInteger number (.enumCase enum name payload)
  | field : field ∈ fields → HasInteger number field.2 →
      HasInteger number (.object className fields)

namespace Expression

/-! ## Bounds -/

/-- Two bounds of one kind, of which the lower is not greater than the upper. -/
inductive InOrder (lower upper : Expression) : Prop
  | integers : lower.integer? = some first → upper.integer? = some last → first ≤ last →
      InOrder lower upper
  | floats : lower.float? = some first → upper.float? = some last →
      first.place? = some low → last.place? = some high → low ≤ high → InOrder lower upper
  | strings : lower = .string first → upper = .string last → compare first last ≠ .gt →
      InOrder lower upper

theorem exists_rangeOf_iff {lower upper : Value} {closed : Bool} :
    (∃ value, rangeOf lower upper closed = .ok value) ↔
      ∃ order, lower.compare? upper = some order ∧ order ≠ .gt := by
  rw [rangeOf]
  split
  · rename_i reversed
    simp [reversed]
  · rename_i order notReversed compared
    rw [compared]
    exact iff_of_true ⟨_, rfl⟩ ⟨order, rfl, notReversed⟩
  · rename_i incomparable
    simp [incomparable]

theorem compare?_floats_iff {first last : Binary64} :
    (∃ order, first.compare? last = some order ∧ order ≠ .gt) ↔
      ∃ low high, first.place? = some low ∧ last.place? = some high ∧ low ≤ high := by
  unfold Binary64.compare?
  cases first.place? <;> cases last.place? <;> simp [Int.compare_ne_gt]

section

variable {lower upper : Expression} {closed : Bool}

theorem exists_rangeOf_iff_inOrder {first last : Value} (below : Outcome lower (.ok first))
    (above : Outcome upper (.ok last)) :
    (∃ value, rangeOf first last closed = .ok value) ↔ InOrder lower upper := by
  rw [exists_rangeOf_iff]
  constructor
  · rintro ⟨order, compared, notReversed⟩
    -- Values of two kinds do not compare, and neither do truth values and optionals.
    cases below with
    | integer one =>
      cases above with
      | integer two =>
        cases compared
        exact .integers one two (Int.compare_ne_gt.mp notReversed)
      | float | string | boolean | nil => cases compared
    | float one =>
      cases above with
      | float two =>
        rcases compare?_floats_iff.mp ⟨order, compared, notReversed⟩ with
          ⟨low, high, least, greatest, ordered⟩
        exact .floats one two least greatest ordered
      | integer | string | boolean | nil => cases compared
    | string =>
      cases above with
      | string =>
        cases compared
        exact .strings rfl rfl notReversed
      | integer | float | boolean | nil => cases compared
    | boolean | nil => cases above <;> cases compared
  · intro inOrder
    cases inOrder with
    | integers one two ordered =>
      rcases below.of_integer? one with ⟨low, ⟨⟩, rfl⟩
      rcases above.of_integer? two with ⟨high, ⟨⟩, rfl⟩
      exact ⟨_, rfl, Int.compare_ne_gt.mpr ordered⟩
    | floats one two least greatest ordered =>
      cases below.of_float? one
      cases above.of_float? two
      exact compare?_floats_iff.mpr ⟨_, _, least, greatest, ordered⟩
    | strings one two ordered =>
      subst one two
      cases below.of_string
      cases above.of_string
      exact ⟨_, rfl, ordered⟩

theorem exists_value_range_iff (below : Outcome lower (evaluateLiteral lower))
    (above : Outcome upper (evaluateLiteral upper)) :
    (∃ value, evaluateLiteral (.range lower upper closed) = .ok value) ↔
      (∀ operand ∈ (range lower upper closed).operands, operand.IsNumber) ∧
        InOrder lower upper := by
  rw [operands, List.forall_mem_append, ← below.exists_value_iff, ← above.exists_value_iff]
  constructor
  · rintro ⟨value, evaluated⟩
    rw [evaluateLiteral, except_bind_eq_ok_iff] at evaluated
    rcases evaluated with ⟨first, one, evaluated⟩
    rcases except_bind_eq_ok_iff.mp evaluated with ⟨last, two, ordered⟩
    rw [one] at below
    rw [two] at above
    exact ⟨⟨⟨first, one⟩, ⟨last, two⟩⟩, (exists_rangeOf_iff_inOrder below above).mp ⟨value, ordered⟩⟩
  · rintro ⟨⟨⟨first, one⟩, ⟨last, two⟩⟩, inOrder⟩
    rw [one] at below
    rw [two] at above
    rw [evaluateLiteral, one, two]
    exact (exists_rangeOf_iff_inOrder below above).mpr inOrder

theorem range_ne_negationOverflow (below : Outcome lower (evaluateLiteral lower))
    (above : Outcome upper (evaluateLiteral upper)) (number : Int64) :
    evaluateLiteral (.range lower upper closed) ≠ .error (.negationOverflow number) := by
  rw [evaluateLiteral]
  cases one : evaluateLiteral lower with
  | error fault =>
    rcases (one ▸ below).fault_eq with ⟨value, rfl⟩
    intro overflow
    cases overflow
  | ok first =>
    cases two : evaluateLiteral upper with
    | error fault =>
      rcases (two ▸ above).fault_eq with ⟨value, rfl⟩
      intro overflow
      cases overflow
    | ok last =>
      change rangeOf first last closed ≠ _
      rw [rangeOf]
      split <;> (intro overflow; cases overflow)

end

/-! ## Integers in a value -/

theorem Outcome.ne_minValue {expression : Expression} {value : Value} {number : Int64}
    (outcome : Outcome expression (.ok value)) (inside : value.HasInteger number) :
    number ≠ Int64.minValue := by
  cases outcome with
  | integer _ notLeast =>
    cases inside
    exact notLeast
  | float | string | boolean => cases inside
  | nil =>
    cases inside with
    | payload member => cases member

/-! ## Expressions that were read -/

section

variable {tokens : List Token} {expression : Expression}

theorem ne_negationOverflow_of_derives (derives : DerivesExpression tokens expression)
    (lexical : ∀ token ∈ tokens, token.Lexical) (number : Int64) :
    evaluateLiteral expression ≠ .error (.negationOverflow number) := by
  cases derives with
  | unary derives =>
    intro overflow
    rcases (overflow ▸ outcome_of_derives derives lexical).fault_eq with ⟨value, impossible⟩
    cases impossible
  | range closed lower upper =>
    rw [List.forall_mem_append, List.forall_mem_cons] at lexical
    exact range_ne_negationOverflow (outcome_of_derives lower lexical.1)
      (outcome_of_derives upper lexical.2.2) number

theorem ne_minValue_of_derives (derives : DerivesExpression tokens expression)
    (lexical : ∀ token ∈ tokens, token.Lexical) {value : Value} {number : Int64}
    (evaluated : evaluateLiteral expression = .ok value) (inside : value.HasInteger number) :
    number ≠ Int64.minValue := by
  cases derives with
  | unary derives => exact (evaluated ▸ outcome_of_derives derives lexical).ne_minValue inside
  | range closed lower upper =>
    rw [List.forall_mem_append, List.forall_mem_cons] at lexical
    rw [evaluateLiteral, except_bind_eq_ok_iff] at evaluated
    rcases evaluated with ⟨first, one, evaluated⟩
    rcases except_bind_eq_ok_iff.mp evaluated with ⟨last, two, ordered⟩
    have below := one ▸ outcome_of_derives lower lexical.1
    have above := two ▸ outcome_of_derives upper lexical.2.2
    rw [Value.eq_range_of_rangeOf ordered] at inside
    cases inside with
    | lower inside => exact below.ne_minValue inside
    | upper inside => exact above.ne_minValue inside

theorem exists_value_iff_of_derives (derives : DerivesExpression tokens expression)
    (lexical : ∀ token ∈ tokens, token.Lexical) :
    (∃ value, evaluateLiteral expression = .ok value) ↔
      (∀ operand ∈ expression.operands, operand.IsNumber) ∧
        ∀ lower upper closed, expression = .range lower upper closed → InOrder lower upper := by
  cases derives with
  | unary derives =>
    rw [(outcome_of_derives derives lexical).exists_value_iff]
    refine (and_iff_left ?_).symm
    rintro lower upper closed rfl
    cases derives
  | range closed lower upper =>
    rw [List.forall_mem_append, List.forall_mem_cons] at lexical
    rw [exists_value_range_iff (outcome_of_derives lower lexical.1)
      (outcome_of_derives upper lexical.2.2)]
    refine and_congr_right fun _ => ⟨?_, fun inOrder => inOrder _ _ _ rfl⟩
    rintro inOrder _ _ _ ⟨⟩
    exact inOrder

theorem nan_not_mem_literals_of_unary (derives : DerivesUnary tokens expression)
    (lexical : ∀ token ∈ tokens, token.Lexical) : .float .nan ∉ expression.literals := by
  induction derives with
  | float value =>
    intro member
    cases List.mem_singleton.mp member
    exact lexical _ (.head _) rfl
  | negate _ induction => exact induction fun token member => lexical token (.tail _ member)
  | integer | string | boolean | nil => simp [literals]

theorem nan_not_mem_literals (derives : DerivesExpression tokens expression)
    (lexical : ∀ token ∈ tokens, token.Lexical) : .float .nan ∉ expression.literals := by
  cases derives with
  | unary derives => exact nan_not_mem_literals_of_unary derives lexical
  | range closed lower upper =>
    rw [List.forall_mem_append, List.forall_mem_cons] at lexical
    rw [literals, List.mem_append, not_or]
    exact ⟨nan_not_mem_literals_of_unary lower lexical.1,
      nan_not_mem_literals_of_unary upper lexical.2.2⟩

end

/-- An expression that was read is never refused because a negation overflows, all integers in its
value have a magnitude that fits, and none of its literals is `nan`.  It has a value exactly if all
its signs stand in front of numbers and its bounds, if it is a range, are of one kind and in
order. -/
theorem evaluates_without_overflow {context : PatternContext} {source : String} {pattern : Pattern}
    (read : Pattern.parse context source = .ok pattern) {expression : Expression}
    (member : expression ∈ pattern.expressions) :
    (∀ number, evaluateLiteral expression ≠ .error (.negationOverflow number)) ∧
    (∀ value number, evaluateLiteral expression = .ok value → value.HasInteger number →
      -(maximalInteger : Int) ≤ number.toInt ∧ number.toInt ≤ maximalInteger) ∧
    ((∃ value, evaluateLiteral expression = .ok value) ↔
      (∀ operand ∈ expression.operands, operand.IsNumber) ∧
        ∀ lower upper closed, expression = .range lower upper closed → InOrder lower upper) ∧
    .float .nan ∉ expression.literals := by
  rcases Pattern.exists_tokens_of_parse read member with ⟨tokens, derives, lexical⟩
  refine ⟨ne_negationOverflow_of_derives derives lexical, ?_,
    exists_value_iff_of_derives derives lexical, nan_not_mem_literals derives lexical⟩
  intro value number evaluated inside
  exact within_of_ne_minValue (ne_minValue_of_derives derives lexical evaluated inside)

theorem greatest_magnitude_below_minus_one :
    let greatest : Int64 := 9223372036854775807
    let lower : Expression := .negate (.negate (.negate (.integer greatest)))
    let upper : Expression := .negate (.integer 1)
    let value : Value := .range (.integer (-greatest)) (.integer (-1)) true
    ∃ pattern, Pattern.parse .full "---9223372036854775807...-1" = .ok pattern ∧
      .range lower upper true ∈ pattern.expressions ∧
      evaluateLiteral (.range lower upper true) = .ok value ∧ value.HasInteger (-greatest) ∧
      -(maximalInteger : Int) ≤ (-greatest).toInt ∧ InOrder lower upper := by
  intro greatest lower upper value
  let expression : Expression := .range lower upper true
  have read : Pattern.parse .full "---9223372036854775807...-1" = .ok (.expression expression) :=
    ok_of_toOption (by decide +kernel)
  have member : expression ∈ (Pattern.expression expression).expressions := .head _
  have down : negated (.integer greatest) = .ok (.integer (-greatest)) := by
    rw [negated, if_neg (by decide)]
  have up : negated (.integer (-greatest)) = .ok (.integer greatest) := by
    rw [negated, if_neg (by decide), Int64.neg_neg]
  have least : evaluateLiteral lower = .ok (.integer (-greatest)) := by
    simp only [lower, evaluateLiteral, Bind.bind, Except.bind, down, up]
  have apart : compare (-greatest).toInt (-1 : Int64).toInt = .lt := by decide
  have ordered : rangeOf (.integer (-greatest)) (.integer (-1)) true = .ok value := by
    simp only [rangeOf, Value.compare?, apart, value]
  have evaluated : evaluateLiteral expression = .ok value := by
    rw [evaluateLiteral, least]
    exact ordered
  have inside : value.HasInteger (-greatest) := .lower .here
  have general := evaluates_without_overflow read member
  have bounds := (general.2.2.1.mp ⟨value, evaluated⟩).2
  exact ⟨_, read, member, evaluated, inside, (general.2.1 value _ evaluated inside).1,
    bounds lower upper true rfl⟩

end Expression

end PatternClauses
