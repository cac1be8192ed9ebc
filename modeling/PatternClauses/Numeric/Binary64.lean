/-!
# Double-precision numbers

A double is a sign with a magnitude that counts units of `2 ^ (-1074)`, the smallest positive
double, so that comparing, negating and rounding are exact arithmetic on naturals.  The module
holds the type, its order (in which nothing compares with `nan`) and correct rounding of a
decimal: `Binary64.ofDecimal` answers the double nearest to the decimal it is given.
-/

namespace PatternClauses

/-- The least magnitude, in units, that is too large for a double. -/
def magnitudeLimit : Nat := Nat.pow 2 2098

/-- The spacing of doubles around a magnitude of `units`: the weight of the last of its 53
significant bits, and one unit for the small ones. -/
def Binary64.spacing (units : Nat) : Nat := Nat.pow 2 (units.log2 - 52)

theorem Binary64.spacing_pos (units : Nat) : 0 < spacing units := Nat.two_pow_pos _

/-- A count of units is the magnitude of a double when it is below the limit and has at most 53
significant bits. -/
def Representable (units : Nat) : Prop :=
  units < magnitudeLimit ∧ Binary64.spacing units ∣ units

instance (units : Nat) : Decidable (Representable units) :=
  inferInstanceAs (Decidable (_ ∧ _))

/-- A double-precision number.  Zero has two signs and there is one `nan`. -/
inductive Binary64 where
  | nan
  | infinite (negative : Bool)
  | finite (negative : Bool) (units : Nat) (representable : Representable units)
  deriving DecidableEq

namespace Binary64

/-! ## Rounding -/

/-- The quotient rounded to the nearest integer, a half to the even neighbour. -/
def roundedQuotient (numerator denominator : Nat) : Nat :=
  let quotient := numerator / denominator
  let twice := 2 * (numerator % denominator)
  if denominator < twice ∨ (twice = denominator ∧ quotient % 2 = 1) then quotient + 1
  else quotient

theorem roundedQuotient_le (numerator denominator : Nat) :
    roundedQuotient numerator denominator ≤ numerator / denominator + 1 := by
  simp only [roundedQuotient]
  split <;> omega

/-- The multiple of the local spacing nearest to a ratio of units. -/
def roundedUnits (numerator denominator : Nat) : Nat :=
  let step := spacing (numerator / denominator)
  roundedQuotient numerator (denominator * step) * step

theorem spacing_dvd_roundedUnits (numerator denominator : Nat) :
    spacing (roundedUnits numerator denominator) ∣ roundedUnits numerator denominator := by
  simp only [roundedUnits, spacing, Nat.pow_eq]
  generalize whole : numerator / denominator = quotient
  generalize equal : quotient.log2 - 52 = shift
  have small : numerator / (denominator * 2 ^ shift) < 2 ^ 53 := by
    rw [← Nat.div_div_eq_div_mul, whole, Nat.div_lt_iff_lt_mul (Nat.two_pow_pos _), ← Nat.pow_add]
    exact Nat.lt_of_lt_of_le Nat.lt_log2_self (Nat.pow_le_pow_right (by decide) (by omega))
  have bound : roundedQuotient numerator (denominator * 2 ^ shift) ≤ 2 ^ 53 :=
    Nat.le_trans (roundedQuotient_le _ _) (by omega)
  generalize roundedQuotient numerator (denominator * 2 ^ shift) = significand at bound
  rcases Nat.lt_or_eq_of_le bound with lower | top
  · by_cases zero : significand = 0
    · simp [zero]
    · refine Nat.dvd_trans (Nat.pow_dvd_pow 2 ?_) (Nat.dvd_mul_left (2 ^ shift) significand)
      have nonzero : significand * 2 ^ shift ≠ 0 :=
        Nat.mul_ne_zero zero (Nat.pos_iff_ne_zero.mp (Nat.two_pow_pos shift))
      have : (significand * 2 ^ shift).log2 < 53 + shift := by
        rw [Nat.log2_lt nonzero, Nat.pow_add]
        exact Nat.mul_lt_mul_of_pos_right lower (Nat.two_pow_pos shift)
      omega
  · rw [top, ← Nat.pow_add, Nat.log2_two_pow]
    exact Nat.pow_dvd_pow 2 (by omega)

/-- The double nearest to a ratio of units; magnitudes from the limit on are infinite. -/
def ofRatio (negative : Bool) (numerator denominator : Nat) : Binary64 :=
  if below : roundedUnits numerator denominator < magnitudeLimit then
    .finite negative (roundedUnits numerator denominator)
      ⟨below, spacing_dvd_roundedUnits numerator denominator⟩
  else .infinite negative

theorem ofRatio_ne_nan (negative : Bool) (numerator denominator : Nat) :
    ofRatio negative numerator denominator ≠ .nan := by
  simp only [ofRatio]
  split <;> simp

def zero (negative : Bool) : Binary64 := .finite negative 0 (by decide +kernel)

/-- The double nearest to `digits * 10 ^ exponent`.  Decimals far outside the range of doubles
are answered by their size alone. -/
def ofDecimal (negative : Bool) (digits : Nat) (exponent : Int) : Binary64 :=
  if digits = 0 then zero negative
  else if 310 < exponent then .infinite negative
  else if digits.log2 / 3 + 1 + exponent < -400 then zero negative
  else
    ofRatio negative (digits * Nat.pow 10 exponent.toNat * Nat.pow 2 1074)
      (Nat.pow 10 (-exponent).toNat)

theorem ofDecimal_ne_nan (negative : Bool) (digits : Nat) (exponent : Int) :
    ofDecimal negative digits exponent ≠ .nan := by
  simp only [ofDecimal, zero]
  split
  · simp
  · split
    · simp
    · split
      · simp
      · exact ofRatio_ne_nan _ _ _

example : ofDecimal false 5 (-1) = .finite false (Nat.pow 2 1073) (by decide +kernel) := by
  decide +kernel

/-! ## Sign and order -/

def negate : Binary64 → Binary64
  | .nan => .nan
  | .infinite negative => .infinite !negative
  | .finite negative units representable => .finite (!negative) units representable

/-- The place of a number on the line of signed units; infinity stands beyond every finite
magnitude and `nan` has no place. -/
def place? : Binary64 → Option Int
  | .nan => none
  | .infinite negative => some (if negative then -magnitudeLimit else magnitudeLimit)
  | .finite negative units _ => some (if negative then -units else units)

/-- The numeric order.  Both zeros are equal, and nothing compares with `nan`. -/
def compare? (left right : Binary64) : Option Ordering :=
  match left.place?, right.place? with
  | some leftPlace, some rightPlace => some (compare leftPlace rightPlace)
  | _, _ => none

def same (left right : Binary64) : Bool := left.compare? right == some .eq

theorem place?_eq_none_iff (number : Binary64) : number.place? = none ↔ number = .nan := by
  cases number <;> simp only [place?, reduceCtorEq]

@[simp] theorem same_self_iff (number : Binary64) :
    number.same number = true ↔ number ≠ .nan := by
  rw [ne_eq, ← place?_eq_none_iff]
  unfold same compare?
  cases number.place? <;> simp

example : same (zero true) (zero false) = true := by decide

end Binary64

end PatternClauses
