import PatternClauses.Proofs.Numeric.Rounding

/-!
# The decimal of a double

The shortest decimal of a double identifies it, and its size is that of the double: both reach a
power of ten together.  Where it is written positionally, the digits around the point stand for the
same number.
-/

namespace PatternClauses

namespace Decimal

/-! ## The shortest decimal -/

theorem compare_exact (units count base : Nat) :
    compare (2 * (units * Nat.pow 5 base * Nat.pow 10 0 * Nat.pow 2 base))
      (count * Nat.pow 10 base) = compare (2 * units) count := by
  have positive : 0 < Nat.pow 10 base := Nat.pow_pos (by decide)
  have value : units * Nat.pow 5 base * Nat.pow 10 0 * Nat.pow 2 base = units * Nat.pow 10 base := by
    simp only [Nat.pow_eq]
    rw [Nat.pow_zero, Nat.mul_one, Nat.mul_assoc, ← Nat.mul_pow]
  rw [value, ← Nat.mul_assoc, compare_mul_right positive]

theorem identifies_exact {units : Nat} (nonzero : units ≠ 0) :
    identifies ⟨units * Nat.pow 5 1074, -1074⟩ units = true := by
  have below := Binary64.spacingBelow_pos units
  have above := Binary64.spacing_pos units
  have halves (count : Nat) : compareHalves ⟨units * Nat.pow 5 1074, -1074⟩ count =
      compare (2 * units) count := by
    have whole : (-1074 : Int).toNat = 0 := rfl
    have behind : (- -1074 : Int).toNat = 1074 := rfl
    rw [compareHalves_eq, whole, behind]
    have exact := compare_exact units count
    generalize 1074 = base
    exact exact base
  rw [identifies, halves, halves]
  have greater : compare (2 * units) (2 * units - spacingBelow units) = .gt :=
    Nat.compare_eq_gt.mpr (by omega)
  have less : compare (2 * units) (2 * units + Binary64.spacing units) = .lt :=
    Nat.compare_eq_lt.mpr (by omega)
  rw [greater, less]
  rfl

theorem identifies_shortest {units : Nat} (nonzero : units ≠ 0) :
    (shortest units).identifies units = true := by
  rw [shortest, if_neg nonzero]
  dsimp only
  cases found : onCoarsestGrid? units 20 (((units.log2 : Int) - 1074) * 30103 / 100000 + 1) with
  | some decimal => exact identifies_of_onCoarsestGrid? 20 found
  | none => exact identifies_exact nonzero

/-! ## Sizes -/

theorem ten_pow_le_iff {number : Nat} (nonzero : number ≠ 0) (exponent : Nat) :
    Nat.pow 10 exponent ≤ number ↔ exponent ≤ (Nat.toDigits 10 number).length - 1 := by
  cases exponent with
  | zero => exact iff_of_true (Nat.pos_of_ne_zero nonzero) (Nat.zero_le _)
  | succ exponent =>
    have fits := Nat.length_toDigits_le_iff (n := number) (by decide : 1 < 10)
      (Nat.zero_lt_succ exponent)
    rw [Nat.pow_eq]
    omega

theorem le_leadingExponent_iff {decimal : Decimal} (nonzero : decimal.digits ≠ 0) (power : Int) :
    power ≤ decimal.leadingExponent ↔
      Nat.pow 10 power.toNat * Nat.pow 10 (-decimal.exponent).toNat ≤
        decimal.digits * Nat.pow 10 decimal.exponent.toNat * Nat.pow 10 (-power).toNat := by
  have reaches := ten_pow_le_iff nonzero (power - decimal.exponent).toNat
  have length : power ≤ decimal.leadingExponent ↔
      (power - decimal.exponent).toNat ≤ (Nat.toDigits 10 decimal.digits).length - 1 := by
    rw [leadingExponent]
    omega
  rw [length, ← reaches]
  simp only [Nat.pow_eq]
  rw [← Nat.pow_add, Nat.mul_assoc, ← Nat.pow_add]
  rcases Int.le_total decimal.exponent power with small | large
  · have split : power.toNat + (-decimal.exponent).toNat =
        (power - decimal.exponent).toNat + (decimal.exponent.toNat + (-power).toNat) := by omega
    rw [split, Nat.pow_add]
    exact (Nat.mul_le_mul_right_iff (Nat.pow_pos (by decide))).symm
  · have none : (power - decimal.exponent).toNat = 0 := by omega
    rw [none, Nat.pow_zero]
    apply iff_of_true (Nat.pos_of_ne_zero nonzero)
    have wider : 10 ^ (power.toNat + (-decimal.exponent).toNat) ≤
        10 ^ (decimal.exponent.toNat + (-power).toNat) :=
      Nat.pow_le_pow_right (by decide) (by omega)
    exact Nat.le_trans wider (Nat.le_mul_of_pos_left _ (Nat.pos_of_ne_zero nonzero))

/-- The least double that reaches a power of ten: the one before it does not, not even half way to
the next, and the shortest decimal of the double itself does. -/
structure Edge (power : Int) (edge : Nat) : Prop where
  representable : Representable edge
  reaches : Nat.pow 10 power.toNat * Nat.pow 2 1074 ≤ edge * Nat.pow 10 (-power).toNat
  before : (2 * edge - spacingBelow edge) * Nat.pow 10 (-power).toNat <
    2 * (Nat.pow 10 power.toNat * Nat.pow 2 1074)
  shortest : power ≤ (shortest edge).leadingExponent

theorem Edge.le_leadingExponent_iff {power : Int} {edge units : Nat} (isEdge : Edge power edge)
    (representable : Representable units) (nonzero : units ≠ 0) :
    power ≤ (Decimal.shortest units).leadingExponent ↔
      Nat.pow 10 power.toNat * Nat.pow 2 1074 ≤ units * Nat.pow 10 (-power).toNat := by
  have identifies := identifies_shortest nonzero
  have reaches := isEdge.reaches
  have before := isEdge.before
  have near := near_of_identifies identifies
  have digits := digits_ne_zero_of_identifies identifies representable nonzero
  have leading := Decimal.le_leadingExponent_iff digits power
  have unitPositive : 0 < Nat.pow 2 1074 := by
    generalize 1074 = exponent
    exact Nat.pow_pos (by decide)
  have scalePositive : 0 < Nat.pow 10 (-(Decimal.shortest units).exponent).toNat :=
    Nat.pow_pos (by decide)
  generalize Nat.pow 10 (-(Decimal.shortest units).exponent).toNat = scale at *
  generalize (Decimal.shortest units).digits * Nat.pow 10 (Decimal.shortest units).exponent.toNat =
    count at *
  generalize Nat.pow 2 1074 = unit at *
  generalize Nat.pow 10 power.toNat = top at *
  generalize Nat.pow 10 (-power).toNat = low at *
  rcases Nat.lt_trichotomy units edge with less | rfl | greater
  -- What identifies a smaller double lies at most half way between the edge and the one before it.
  · have previous := Binary64.add_spacingBelow_le isEdge.representable representable less
    have half := near.numerator_le_of_lt representable isEdge.representable less
    apply iff_of_false
    · rw [leading, Nat.not_le]
      have scaled : 2 * (count * low) * unit < 2 * (top * scale) * unit := by
        calc
          2 * (count * low) * unit = 2 * (count * unit) * low := by ring
          _ ≤ (2 * edge - spacingBelow edge) * scale * low := Nat.mul_le_mul_right low half
          _ = (2 * edge - spacingBelow edge) * low * scale := Nat.mul_right_comm _ _ _
          _ < 2 * (top * unit) * scale := Nat.mul_lt_mul_of_pos_right before scalePositive
          _ = 2 * (top * scale) * unit := by ring
      have doubled := Nat.lt_of_mul_lt_mul_right scaled
      omega
    · rw [Nat.not_le]
      have short : 2 * units * low ≤ (2 * edge - spacingBelow edge) * low :=
        Nat.mul_le_mul_right low (by omega)
      rw [Nat.mul_assoc] at short
      omega
  · exact iff_of_true isEdge.shortest reaches
  -- What identifies a greater double does not lie below the edge.
  · have enough := near.le_numerator_of_lt representable isEdge.representable greater
    apply iff_of_true
    · rw [leading]
      have scaled : top * scale * unit ≤ count * low * unit := by
        calc
          top * scale * unit = top * unit * scale := Nat.mul_right_comm _ _ _
          _ ≤ edge * low * scale := Nat.mul_le_mul_right scale reaches
          _ = edge * scale * low := Nat.mul_right_comm _ _ _
          _ ≤ count * unit * low := Nat.mul_le_mul_right low enough
          _ = count * low * unit := Nat.mul_right_comm _ _ _
      exact Nat.le_of_mul_le_mul_right scaled unitPositive
    · exact Nat.le_trans reaches (Nat.mul_le_mul_right low (Nat.le_of_lt greater))

/-- The double nearest to a ten thousandth is a little larger. -/
theorem edge_ten_thousandth : Edge (-4) (Nat.pow 2 1008 * 7378697629483821) where
  representable := by decide +kernel
  reaches := by decide +kernel
  before := by decide +kernel
  shortest := by decide +kernel

theorem edge_ten_pow_sixteen : Edge 16 (Nat.pow 10 16 * Nat.pow 2 1074) where
  representable := by decide +kernel
  reaches := by decide +kernel
  before := by decide +kernel
  shortest := by decide +kernel

/-! ## Digits around a point -/

theorem naturalOfDigits_leadingZeros (count : Nat) (digits : List Char) :
    naturalOfDigits (List.replicate count '0' ++ digits) = naturalOfDigits digits := by
  rw [naturalOfDigits, Nat.ofDigitChars_append, Nat.ofDigitChars_replicate_zero, Nat.mul_zero]
  rfl

theorem naturalOfDigits_trailingZeros (digits : List Char) (count : Nat) :
    naturalOfDigits (digits ++ List.replicate count '0') =
      naturalOfDigits digits * Nat.pow 10 count := by
  rw [naturalOfDigits, Nat.ofDigitChars_append, Nat.ofDigitChars_replicate_zero, Nat.mul_comm]
  rfl

def ofParts (whole fraction : List Char) : Decimal :=
  ⟨naturalOfDigits (whole ++ fraction), -fraction.length⟩

/-- Digits on both sides of a point that spell the number. -/
structure Parts (decimal : Decimal) (whole fraction : List Char) : Prop where
  whole_ne_nil : whole ≠ []
  fraction_ne_nil : fraction ≠ []
  digits : ∀ digit ∈ whole ++ fraction, digit.isDigit = true
  value : SameValue (ofParts whole fraction) decimal

section

variable {decimal : Decimal} {digits : List Char} {places : Int}

theorem parts_of_small (nonempty : digits ≠ []) (each : ∀ digit ∈ digits, digit.isDigit = true)
    (number : naturalOfDigits digits = decimal.digits)
    (point : places = decimal.exponent + digits.length) (small : places ≤ 0) :
    Parts decimal ['0'] (List.replicate (-places).toNat '0' ++ digits) where
  whole_ne_nil := List.cons_ne_nil _ _
  fraction_ne_nil := List.append_ne_nil_of_right_ne_nil _ nonempty
  digits := by
    intro digit member
    rw [← List.append_assoc, List.mem_append, List.mem_append, List.mem_singleton,
      List.mem_replicate] at member
    rcases member with (rfl | ⟨-, rfl⟩) | inside
    · rfl
    · rfl
    · exact each digit inside
  value := by
    have same : ofParts ['0'] (List.replicate (-places).toNat '0' ++ digits) = decimal := by
      rw [ofParts, ← List.append_assoc, List.singleton_append, ← List.replicate_succ,
        naturalOfDigits_leadingZeros, number, List.length_append, List.length_replicate]
      congr 1
      omega
    rw [same]
    rfl

theorem parts_of_inside (each : ∀ digit ∈ digits, digit.isDigit = true)
    (number : naturalOfDigits digits = decimal.digits)
    (point : places = decimal.exponent + digits.length) (before : 0 < places)
    (behind : places.toNat < digits.length) :
    Parts decimal (digits.take places.toNat) (digits.drop places.toNat) where
  whole_ne_nil := by
    have front : (digits.take places.toNat).length ≠ 0 := by
      rw [List.length_take]
      omega
    exact fun empty => front (congrArg List.length empty)
  fraction_ne_nil := by
    rw [ne_eq, List.drop_eq_nil_iff]
    omega
  digits := by rwa [List.take_append_drop]
  value := by
    have same : ofParts (digits.take places.toNat) (digits.drop places.toNat) = decimal := by
      rw [ofParts, List.take_append_drop, number, List.length_drop]
      congr 1
      omega
    rw [same]
    rfl

theorem parts_of_large (nonempty : digits ≠ []) (each : ∀ digit ∈ digits, digit.isDigit = true)
    (number : naturalOfDigits digits = decimal.digits)
    (point : places = decimal.exponent + digits.length) (all : digits.length ≤ places.toNat) :
    Parts decimal (digits ++ List.replicate (places.toNat - digits.length) '0') ['0'] where
  whole_ne_nil := List.append_ne_nil_of_left_ne_nil nonempty _
  fraction_ne_nil := List.cons_ne_nil _ _
  digits := by
    intro digit member
    rw [List.mem_append, List.mem_append, List.mem_singleton, List.mem_replicate] at member
    rcases member with (inside | ⟨-, rfl⟩) | rfl
    · exact each digit inside
    · rfl
    · rfl
  value := by
    have length : 0 < digits.length := List.length_pos_iff.mpr nonempty
    have exponent : decimal.exponent.toNat = places.toNat - digits.length := by omega
    have whole : (-decimal.exponent).toNat = 0 := by omega
    have zeros : List.replicate (places.toNat - digits.length) '0' ++ ['0'] =
        List.replicate (decimal.exponent.toNat + 1) '0' := by
      rw [exponent, List.replicate_succ']
    rw [ofParts, List.append_assoc, zeros, naturalOfDigits_trailingZeros, number, SameValue, whole]
    change decimal.digits * Nat.pow 10 (decimal.exponent.toNat + 1) * 1 * 1 =
      decimal.digits * Nat.pow 10 decimal.exponent.toNat * 10
    rw [Nat.mul_one, Nat.mul_one, Nat.mul_assoc]
    rfl

theorem exists_parts_positional (nonempty : digits ≠ [])
    (each : ∀ digit ∈ digits, digit.isDigit = true)
    (number : naturalOfDigits digits = decimal.digits)
    (point : places = decimal.exponent + digits.length) :
    ∃ whole fraction, positional Binary64.layout digits places = whole ++ '.' :: fraction ∧
      Parts decimal whole fraction := by
  have length : 0 < digits.length := List.length_pos_iff.mpr nonempty
  rw [positional]
  split
  · rename_i small
    exact ⟨['0'], _, rfl, parts_of_small nonempty each number point small⟩
  · split
    · rename_i all
      exact ⟨_, ['0'], rfl, parts_of_large nonempty each number point all⟩
    · exact ⟨_, _, rfl, parts_of_inside each number point (by omega) (by omega)⟩

end

/-! ## Reading the parts -/

theorem SameValue.leadingExponent_eq {first second : Decimal} (same : SameValue first second)
    (one : first.digits ≠ 0) (two : second.digits ≠ 0) :
    first.leadingExponent = second.leadingExponent := by
  have firstPositive : 0 < Nat.pow 10 (-first.exponent).toNat := Nat.pow_pos (by decide)
  have secondPositive : 0 < Nat.pow 10 (-second.exponent).toNat := Nat.pow_pos (by decide)
  have alike (power : Int) : power ≤ first.leadingExponent ↔ power ≤ second.leadingExponent := by
    rw [le_leadingExponent_iff one, le_leadingExponent_iff two]
    rw [SameValue] at same
    generalize Nat.pow 10 (-first.exponent).toNat = firstScale at *
    generalize Nat.pow 10 (-second.exponent).toNat = secondScale at *
    generalize first.digits * Nat.pow 10 first.exponent.toNat = firstCount at *
    generalize second.digits * Nat.pow 10 second.exponent.toNat = secondCount at *
    generalize Nat.pow 10 power.toNat = top
    generalize Nat.pow 10 (-power).toNat = low
    calc
      top * firstScale ≤ firstCount * low
      _ ↔ top * firstScale * secondScale ≤ firstCount * low * secondScale :=
          (Nat.mul_le_mul_right_iff secondPositive).symm
      _ ↔ top * secondScale * firstScale ≤ secondCount * low * firstScale := by
          rw [Nat.mul_right_comm top, Nat.mul_right_comm firstCount, same,
            Nat.mul_right_comm secondCount]
      _ ↔ top * secondScale ≤ secondCount * low := Nat.mul_le_mul_right_iff firstPositive
  exact Int.le_antisymm ((alike _).mp (Int.le_refl _)) ((alike _).mpr (Int.le_refl _))

/-- A digit takes at least three bits. -/
theorem leadingExponent_le_log2 {decimal : Decimal} (nonzero : decimal.digits ≠ 0) :
    decimal.leadingExponent ≤ decimal.digits.log2 / 3 + decimal.exponent := by
  have reached := (ten_pow_le_iff nonzero _).mpr (Nat.le_refl _)
  generalize bound : (Nat.toDigits 10 decimal.digits).length - 1 = count at reached
  have bits : 2 ^ (3 * count) ≤ decimal.digits := by
    calc
      2 ^ (3 * count) = 8 ^ count := Nat.pow_mul 2 3 count
      _ ≤ 10 ^ count := Nat.pow_le_pow_left (by decide) count
      _ ≤ decimal.digits := reached
  have logarithm := (Nat.le_log2 nonzero).mpr bits
  rw [leadingExponent, bound]
  omega

theorem Parts.ofDecimal_eq {units : Nat} {whole fraction : List Char}
    (parts : Parts (shortest units) whole fraction) (representable : Representable units)
    (nonzero : units ≠ 0) (large : -400 ≤ (shortest units).leadingExponent) (negative : Bool) :
    Binary64.ofDecimal negative (naturalOfDigits (whole ++ fraction)) (-fraction.length) =
      .finite negative units representable := by
  have identifies := identifies_shortest nonzero
  have spelled : (ofParts whole fraction).identifies units = true := by
    rw [parts.value.identifies_eq, identifies]
  have one := digits_ne_zero_of_identifies spelled representable nonzero
  have two := digits_ne_zero_of_identifies identifies representable nonzero
  have leading := parts.value.leadingExponent_eq one two
  have bits := leadingExponent_le_log2 one
  apply ofDecimal_of_identifies spelled representable nonzero
  · have exponent : (ofParts whole fraction).exponent = -fraction.length := rfl
    omega
  · omega

end Decimal

end PatternClauses
