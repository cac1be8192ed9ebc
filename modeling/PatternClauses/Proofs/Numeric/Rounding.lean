import Mathlib.Tactic.Ring
import PatternClauses.Numeric.Decimal

/-!
# Rounding to the nearest double

A ratio is rounded to a magnitude if it lies within half the distance to the neighbours on either
side, and at the very ends if the magnitude is even.  These are the decimals that identify the
magnitude, so the decimal that is printed for a double is read as that double.
-/

namespace PatternClauses

namespace Binary64

/-! ## Quotients -/

/-- A ratio within one half of a number is rounded to it, at the two ends if the number is even. -/
theorem roundedQuotient_eq {numerator denominator whole : Nat} (positive : 0 < denominator)
    (lower : 2 * (whole * denominator) ≤ 2 * numerator + denominator)
    (upper : 2 * numerator ≤ 2 * (whole * denominator) + denominator)
    (tie : 2 * numerator + denominator = 2 * (whole * denominator) ∨
      2 * numerator = 2 * (whole * denominator) + denominator → whole % 2 = 0) :
    roundedQuotient numerator denominator = whole := by
  have division := Nat.div_add_mod numerator denominator
  have remainder := Nat.mod_lt numerator positive
  rw [roundedQuotient]
  rw [Nat.mul_comm] at division
  generalize numerator / denominator = quotient at *
  generalize numerator % denominator = rest at *
  have next : (quotient + 1) * denominator = quotient * denominator + denominator :=
    Nat.succ_mul _ _
  have atMost : whole ≤ quotient + 1 := by
    by_contra more
    have far : (quotient + 1 + 1) * denominator ≤ whole * denominator :=
      Nat.mul_le_mul_right denominator (by omega)
    have := Nat.add_mul (quotient + 1) 1 denominator
    omega
  have atLeast : quotient ≤ whole := by
    by_contra less
    have far : (whole + 1) * denominator ≤ quotient * denominator :=
      Nat.mul_le_mul_right denominator (by omega)
    have := Nat.add_mul whole 1 denominator
    omega
  rcases Nat.eq_or_lt_of_le atLeast with rfl | less
  · rw [if_neg]
    omega
  · have same : whole = quotient + 1 := by omega
    subst same
    rw [if_pos]
    omega

theorem roundedUnits_eq {numerator denominator units step : Nat} (positive : 0 < denominator)
    (around : spacing (numerator / denominator) = step) (divides : step ∣ units)
    (lower : 2 * (units * denominator) ≤ 2 * numerator + step * denominator)
    (upper : 2 * numerator ≤ 2 * (units * denominator) + step * denominator)
    (tie : 2 * numerator + step * denominator = 2 * (units * denominator) ∨
      2 * numerator = 2 * (units * denominator) + step * denominator → units / step % 2 = 0) :
    roundedUnits numerator denominator = units := by
  have stepPositive : 0 < step := around ▸ spacing_pos _
  rcases divides with ⟨whole, rfl⟩
  rw [Nat.mul_div_cancel_left whole stepPositive] at tie
  have regroup : step * whole * denominator = whole * (denominator * step) := by ring
  rw [regroup, Nat.mul_comm step denominator] at lower upper tie
  rw [roundedUnits, around, roundedQuotient_eq (Nat.mul_pos positive stepPositive) lower upper tie,
    Nat.mul_comm]

/-! ## Neighbours -/

theorem spacing_eq (units : Nat) : spacing units = 2 ^ (units.log2 - 52) := Nat.pow_eq

theorem log2_eq {number exponent : Nat} (least : 2 ^ exponent ≤ number)
    (below : number < 2 ^ (exponent + 1)) : number.log2 = exponent := by
  have positive : 0 < 2 ^ exponent := Nat.two_pow_pos exponent
  exact (Nat.log2_eq_iff (by omega)).mpr ⟨least, below⟩

theorem add_le_of_dvd {step lesser greater : Nat} (one : step ∣ lesser) (two : step ∣ greater)
    (less : lesser < greater) : lesser + step ≤ greater := by
  have apart := Nat.le_of_dvd (Nat.sub_pos_of_lt less) (Nat.dvd_sub two one)
  omega

theorem spacing_dvd_two_pow (units : Nat) {exponent : Nat} (enough : units.log2 ≤ exponent + 52) :
    spacing units ∣ 2 ^ exponent := by
  rw [spacing_eq]
  exact Nat.pow_dvd_pow 2 (by omega)

section

variable {units other : Nat}

theorem add_spacing_le_two_pow (representable : Representable units) :
    units + spacing units ≤ 2 ^ (units.log2 + 1) :=
  add_le_of_dvd representable.2 (spacing_dvd_two_pow units (by omega)) Nat.lt_log2_self

theorem add_spacing_le (representable : Representable units) (above : Representable other)
    (less : units < other) : units + spacing units ≤ other := by
  by_cases far : 2 ^ (units.log2 + 1) ≤ other
  · exact Nat.le_trans (add_spacing_le_two_pow representable) far
  · by_cases zero : units = 0
    · subst zero
      rw [spacing_eq]
      exact less
    · have same : other.log2 = units.log2 := by
        have least := Nat.log2_self_le zero
        exact log2_eq (by omega) (by omega)
      have spaced : spacing other = spacing units := by rw [spacing_eq, spacing_eq, same]
      exact add_le_of_dvd representable.2 (spaced ▸ above.2) less

theorem spacing_of_le (representable : Representable units) (nonzero : units ≠ 0)
    (least : units ≤ other) (below : other < units + spacing units) :
    spacing other = spacing units := by
  have bound := add_spacing_le_two_pow representable
  have atLeast := Nat.log2_self_le nonzero
  have same : other.log2 = units.log2 := log2_eq (by omega) (by omega)
  rw [spacing_eq, spacing_eq, same]

/-- Below a power of two doubles are twice as dense, unless they are single units there. -/
theorem spacingBelow_cases (units : Nat) :
    (52 < units.log2 ∧ units = 2 ^ units.log2 ∧
      Decimal.spacingBelow units = 2 ^ (units.log2 - 53) ∧
      spacing units = 2 * Decimal.spacingBelow units) ∨
    ((52 < units.log2 → units ≠ 2 ^ units.log2) ∧
      Decimal.spacingBelow units = spacing units) := by
  rw [Decimal.spacingBelow]
  split
  · rename_i boundary
    have twice : spacing units = 2 * 2 ^ (units.log2 - 53) := by
      rw [spacing_eq, ← Nat.pow_succ']
      congr 1
      omega
    have half : spacing units / 2 = 2 ^ (units.log2 - 53) := by
      rw [twice, Nat.mul_div_cancel_left _ (by decide)]
    exact .inl ⟨boundary.1, boundary.2, half, half ▸ twice⟩
  · rename_i inside
    exact .inr ⟨fun large same => inside ⟨large, same⟩, rfl⟩

theorem spacingBelow_pos (units : Nat) : 0 < Decimal.spacingBelow units := by
  have positive := spacing_pos units
  rcases spacingBelow_cases units with ⟨-, -, -, twice⟩ | ⟨-, same⟩ <;> omega

theorem two_pow_add_spacing_le (representable : Representable units) (nonzero : units ≠ 0)
    (inside : units ≠ 2 ^ units.log2) : 2 ^ units.log2 + spacing units ≤ units := by
  have least := Nat.log2_self_le nonzero
  exact add_le_of_dvd (spacing_dvd_two_pow units (by omega)) representable.2 (by omega)

theorem spacing_of_lt (representable : Representable units)
    (least : units ≤ other + Decimal.spacingBelow units) (less : other < units) :
    spacing other = Decimal.spacingBelow units := by
  have nonzero : units ≠ 0 := by omega
  have bound : units < 2 ^ (units.log2 + 1) := Nat.lt_log2_self
  rcases spacingBelow_cases units with ⟨large, power, below, -⟩ | ⟨inside, same⟩
  · have half : 2 ^ units.log2 = 2 * 2 ^ (units.log2 - 1) := by
      rw [← Nat.pow_succ']
      congr 1
      omega
    have fine : 2 ^ (units.log2 - 53) ≤ 2 ^ (units.log2 - 1) :=
      Nat.pow_le_pow_right (by decide) (by omega)
    have low : 2 ^ (units.log2 - 1 + 1) = 2 ^ units.log2 := by
      congr 1
      omega
    have log : other.log2 = units.log2 - 1 := log2_eq (by omega) (by omega)
    rw [below, spacing_eq, log]
    congr 1
  · rw [same]
    by_cases large : 52 < units.log2
    · have away := two_pow_add_spacing_le representable nonzero (inside large)
      have log : other.log2 = units.log2 := log2_eq (by omega) (by omega)
      rw [spacing_eq, spacing_eq, log]
    · have small : other.log2 ≤ 52 := by
        by_cases zero : other = 0
        · rw [zero]
          decide
        · have : other.log2 < units.log2 + 1 := (Nat.log2_lt zero).mpr (by omega)
          omega
      rw [spacing_eq, spacing_eq]
      congr 1
      omega

theorem add_spacingBelow_le (representable : Representable units) (lower : Representable other)
    (less : other < units) : other + Decimal.spacingBelow units ≤ units := by
  by_contra near
  have same := spacing_of_lt representable (by omega) less
  have := add_spacing_le lower representable less
  omega

end

/-! ## Ratios around a magnitude -/

/-- The last of the significant bits is zero. -/
def IsEven (units : Nat) : Prop := units / spacing units % 2 = 0

/-- The ratio lies within half the distance to the next and to the previous double, at the two
ends if the magnitude is even. -/
structure Near (units numerator denominator : Nat) : Prop where
  lower : 2 * (units * denominator) ≤ 2 * numerator + Decimal.spacingBelow units * denominator
  upper : 2 * numerator ≤ 2 * (units * denominator) + spacing units * denominator
  tie : 2 * numerator + Decimal.spacingBelow units * denominator = 2 * (units * denominator) ∨
    2 * numerator = 2 * (units * denominator) + spacing units * denominator → IsEven units

theorem spacingBelow_dvd {units : Nat} (representable : Representable units) :
    Decimal.spacingBelow units ∣ units ∧
      (IsEven units → units / Decimal.spacingBelow units % 2 = 0) := by
  have divides := representable.2
  rcases spacingBelow_cases units with ⟨-, -, -, twice⟩ | ⟨-, same⟩
  · have positive := spacingBelow_pos units
    rw [twice] at divides
    rcases divides with ⟨count, multiple⟩
    rw [Nat.mul_comm 2, Nat.mul_assoc] at multiple
    refine ⟨⟨2 * count, multiple⟩, fun _ => ?_⟩
    have quotient : units / Decimal.spacingBelow units = 2 * count :=
      Nat.div_eq_of_eq_mul_right positive multiple
    rw [quotient, Nat.mul_mod_right]
  · rw [same]
    exact ⟨divides, id⟩

theorem Near.numerator_le_of_lt {units greater numerator denominator : Nat}
    (near : Near units numerator denominator) (representable : Representable units)
    (above : Representable greater) (less : units < greater) :
    2 * numerator ≤ (2 * greater - Decimal.spacingBelow greater) * denominator := by
  have previous := add_spacingBelow_le above representable less
  have next := add_spacing_le representable above less
  calc
    2 * numerator ≤ (2 * units + spacing units) * denominator := by
      rw [Nat.add_mul, Nat.mul_assoc]
      exact near.upper
    _ ≤ (2 * greater - Decimal.spacingBelow greater) * denominator :=
      Nat.mul_le_mul_right denominator (by omega)

theorem Near.le_numerator_of_lt {units lesser numerator denominator : Nat}
    (near : Near units numerator denominator) (representable : Representable units)
    (below : Representable lesser) (less : lesser < units) :
    lesser * denominator ≤ numerator := by
  have previous := add_spacingBelow_le representable below less
  have scaled := Nat.mul_le_mul_right denominator previous
  have lower := near.lower
  rw [Nat.add_mul] at scaled
  omega

theorem Near.roundedUnits_eq {units numerator denominator : Nat}
    (near : Near units numerator denominator) (representable : Representable units)
    (nonzero : units ≠ 0) (positive : 0 < denominator) :
    roundedUnits numerator denominator = units := by
  have lower := near.lower
  have upper := near.upper
  have above := Nat.mul_pos (spacing_pos units) positive
  have below := Nat.mul_pos (spacingBelow_pos units) positive
  by_cases least : units * denominator ≤ numerator
  · have around : spacing (numerator / denominator) = spacing units := by
      apply spacing_of_le representable nonzero
      · exact (Nat.le_div_iff_mul_le positive).mpr least
      · rw [Nat.div_lt_iff_lt_mul positive, Nat.add_mul]
        omega
    apply Binary64.roundedUnits_eq positive around representable.2 (by omega) upper
    rintro (low | high)
    · omega
    · exact near.tie (.inr high)
  · have around : spacing (numerator / denominator) = Decimal.spacingBelow units := by
      apply spacing_of_lt representable
      · have : units - Decimal.spacingBelow units ≤ numerator / denominator := by
          rw [Nat.le_div_iff_mul_le positive, Nat.sub_mul]
          omega
        omega
      · rw [Nat.div_lt_iff_lt_mul positive]
        omega
    rcases spacingBelow_dvd representable with ⟨divides, even⟩
    apply Binary64.roundedUnits_eq positive around divides lower (by omega)
    rintro (low | high)
    · exact even (near.tie (.inl low))
    · omega

end Binary64

namespace Decimal

/-! ## Identifying decimals -/

theorem compareHalves_eq (decimal : Decimal) (halves : Nat) :
    decimal.compareHalves halves =
      compare (2 * (decimal.digits * Nat.pow 10 decimal.exponent.toNat * Nat.pow 2 1074))
        (halves * Nat.pow 10 (-decimal.exponent).toNat) := by
  have next : 1075 = 1074 + 1 := rfl
  rw [compareHalves]
  generalize 1075 = top at next
  generalize 1074 = base at next
  rw [next, Nat.pow_eq (n := base + 1), Nat.pow_succ', Nat.mul_left_comm]
  rfl

theorem isWithin_cases {lower upper : Ordering} {closed : Bool}
    (within : isWithin closed lower upper = true) :
    (lower = .gt ∧ upper = .lt) ∨ ((lower = .eq ∨ upper = .eq) ∧ closed = true) := by
  cases lower <;> cases upper <;> simp_all [isWithin]

theorem near_of_identifies {decimal : Decimal} {units : Nat}
    (identifies : decimal.identifies units = true) :
    Binary64.Near units (decimal.digits * Nat.pow 10 decimal.exponent.toNat * Nat.pow 2 1074)
      (Nat.pow 10 (-decimal.exponent).toNat) := by
  have sides := isWithin_cases identifies
  rw [compareHalves_eq, compareHalves_eq, Nat.compare_eq_gt, Nat.compare_eq_lt, Nat.compare_eq_eq,
    Nat.compare_eq_eq, beq_iff_eq] at sides
  generalize decimal.digits * Nat.pow 10 decimal.exponent.toNat * Nat.pow 2 1074 = numerator
    at sides ⊢
  generalize Nat.pow 10 (-decimal.exponent).toNat = denominator at sides ⊢
  have below := Nat.mul_le_mul_right denominator (Nat.sub_le (2 * units) (spacingBelow units))
  rw [Nat.sub_mul, Nat.mul_assoc] at below
  rw [Nat.sub_mul, Nat.add_mul, Nat.mul_assoc] at sides
  rcases sides with ⟨greater, less⟩ | ⟨ends, even⟩
  · exact ⟨by omega, by omega, by omega⟩
  · exact ⟨by omega, by omega, fun _ => even⟩

theorem digits_ne_zero_of_identifies {decimal : Decimal} {units : Nat}
    (identifies : decimal.identifies units = true) (representable : Representable units)
    (nonzero : units ≠ 0) : decimal.digits ≠ 0 := by
  intro zero
  have lower := (near_of_identifies identifies).lower
  generalize Nat.pow 2 1074 = unit at lower
  rw [zero, Nat.zero_mul, Nat.zero_mul] at lower
  have positive : 0 < Nat.pow 10 (-decimal.exponent).toNat := Nat.pow_pos (by decide)
  generalize Nat.pow 10 (-decimal.exponent).toNat = denominator at lower positive
  have fits : spacingBelow units ≤ units :=
    Nat.le_of_dvd (by omega) (Binary64.spacingBelow_dvd representable).1
  have below := Nat.mul_le_mul_right denominator fits
  have product := Nat.mul_pos (Nat.pos_of_ne_zero nonzero) positive
  omega

theorem ofDecimal_of_identifies {decimal : Decimal} {units : Nat}
    (identifies : decimal.identifies units = true) (representable : Representable units)
    (nonzero : units ≠ 0) (small : decimal.exponent ≤ 310)
    (large : -400 ≤ decimal.digits.log2 / 3 + 1 + decimal.exponent) (negative : Bool) :
    Binary64.ofDecimal negative decimal.digits decimal.exponent =
      .finite negative units representable := by
  have digits := digits_ne_zero_of_identifies identifies representable nonzero
  have rounded := (near_of_identifies identifies).roundedUnits_eq representable nonzero
    (Nat.pow_pos (by decide))
  rw [Binary64.ofDecimal, if_neg digits, if_neg (by omega), if_neg (by omega), Binary64.ofRatio]
  simp only [rounded]
  rw [dif_pos representable.1]

/-! ## Equal decimals -/

def SameValue (first second : Decimal) : Prop :=
  first.digits * Nat.pow 10 first.exponent.toNat * Nat.pow 10 (-second.exponent).toNat =
    second.digits * Nat.pow 10 second.exponent.toNat * Nat.pow 10 (-first.exponent).toNat

theorem compare_mul_right {factor : Nat} (positive : 0 < factor) (left right : Nat) :
    compare (left * factor) (right * factor) = compare left right := by
  rcases Nat.lt_trichotomy left right with less | rfl | greater
  · rw [Nat.compare_eq_lt.mpr less, Nat.compare_eq_lt]
    exact Nat.mul_lt_mul_of_pos_right less positive
  · rw [Nat.compare_eq_eq.mpr rfl, Nat.compare_eq_eq.mpr rfl]
  · rw [Nat.compare_eq_gt.mpr greater, Nat.compare_eq_gt]
    exact Nat.mul_lt_mul_of_pos_right greater positive

theorem SameValue.identifies_eq {first second : Decimal} (same : SameValue first second)
    (units : Nat) : first.identifies units = second.identifies units := by
  have one : 0 < Nat.pow 10 (-first.exponent).toNat := Nat.pow_pos (by decide)
  have two : 0 < Nat.pow 10 (-second.exponent).toNat := Nat.pow_pos (by decide)
  have halves (count : Nat) : first.compareHalves count = second.compareHalves count := by
    rw [SameValue] at same
    rw [compareHalves, compareHalves]
    generalize Nat.pow 10 (-first.exponent).toNat = firstScale at *
    generalize Nat.pow 10 (-second.exponent).toNat = secondScale at *
    generalize Nat.pow 2 1075 = unit
    calc
      compare (first.digits * Nat.pow 10 first.exponent.toNat * unit) (count * firstScale)
      _ = compare (first.digits * Nat.pow 10 first.exponent.toNat * unit * secondScale)
            (count * firstScale * secondScale) := (compare_mul_right two _ _).symm
      _ = compare (second.digits * Nat.pow 10 second.exponent.toNat * unit * firstScale)
            (count * secondScale * firstScale) := by
          rw [Nat.mul_right_comm _ unit, same, Nat.mul_right_comm _ firstScale unit,
            Nat.mul_right_comm count]
      _ = compare (second.digits * Nat.pow 10 second.exponent.toNat * unit)
            (count * secondScale) := compare_mul_right one _ _
  rw [identifies, identifies, halves, halves]

end Decimal

end PatternClauses
