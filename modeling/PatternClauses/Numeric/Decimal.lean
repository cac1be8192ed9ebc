import PatternClauses.Numeric.Binary64

/-!
# Decimals

Decimal text of integers, and the decimal that identifies a double: the fewest digits that round
to it and, among those, the nearest.  All comparisons are exact; a decimal is compared with a
magnitude by multiplying out both.
-/

namespace PatternClauses

/-! ## Integers -/

def integerText (number : Int) : String :=
  if number < 0 then "-" ++ number.natAbs.repr else number.natAbs.repr

example : integerText (-120) = "-120" := by decide

def naturalOfDigits (digits : List Char) : Nat := Nat.ofDigitChars 10 digits 0

@[simp] theorem naturalOfDigits_toDigits (number : Nat) :
    naturalOfDigits (Nat.toDigits 10 number) = number :=
  Nat.ofDigitChars_ten_toDigits

/-! ## The decimal of a double -/

/-- The number `digits * 10 ^ exponent`. -/
structure Decimal where
  digits : Nat
  exponent : Int
  deriving DecidableEq

namespace Decimal

/-- Compare a decimal with a magnitude given in halves of a unit. -/
def compareHalves (decimal : Decimal) (halves : Nat) : Ordering :=
  compare (decimal.digits * Nat.pow 10 decimal.exponent.toNat * Nat.pow 2 1075)
    (halves * Nat.pow 10 (-decimal.exponent).toNat)

/-- The distance from a magnitude to the double below it: half the spacing at a power of two,
where the doubles below are twice as dense. -/
def spacingBelow (units : Nat) : Nat :=
  if 52 < units.log2 ∧ units = Nat.pow 2 units.log2 then Binary64.spacing units / 2
  else Binary64.spacing units

/-- Whether a number lies between two ends, from how it compares with either.  The ends themselves
count if `closed`. -/
def isWithin (closed : Bool) : (lower upper : Ordering) → Bool
  | .gt, .lt => true
  | .eq, _ | _, .eq => closed
  | _, _ => false

/-- A decimal identifies a magnitude when it lies within half the spacing on either side of it.
The two ends round to the neighbour with an even significand, so they count when this one is
even. -/
def identifies (decimal : Decimal) (units : Nat) : Bool :=
  isWithin (units / Binary64.spacing units % 2 == 0)
    (decimal.compareHalves (2 * units - spacingBelow units))
    (decimal.compareHalves (2 * units + Binary64.spacing units))

def wholeMultiples (units : Nat) (exponent : Int) : Nat :=
  units * Nat.pow 10 (-exponent).toNat / (Nat.pow 2 1074 * Nat.pow 10 exponent.toNat)

/-- The multiple of `10 ^ exponent` that identifies a magnitude, if there is one.  Of the two
multiples around the magnitude the nearer is taken, and the upper one at equal distance. -/
def onGrid? (units : Nat) (exponent : Int) : Option Decimal :=
  let count := wholeMultiples units exponent
  let lower : Decimal := ⟨count, exponent⟩
  let upper : Decimal := ⟨count + 1, exponent⟩
  let middle : Decimal := ⟨2 * count + 1, exponent⟩
  if lower.identifies units ∧
      (upper.identifies units = false ∨ middle.compareHalves (4 * units) = .gt) then some lower
  else if upper.identifies units then some upper
  else none

def onCoarsestGrid? (units : Nat) : (steps : Nat) → (exponent : Int) → Option Decimal
  | 0, _ => none
  | steps + 1, exponent =>
    (onGrid? units exponent).or (onCoarsestGrid? units steps (exponent - 1))

/-- The decimal with the fewest digits that identifies a magnitude.  The search starts above the
magnitude's own scale; seventeen digits identify every double, so it ends before its steps do,
and the exact value stands behind it. -/
def shortest (units : Nat) : Decimal :=
  if units = 0 then ⟨0, 0⟩
  else
    let scale := ((units.log2 : Int) - 1074) * 30103 / 100000 + 1
    (onCoarsestGrid? units 20 scale).getD ⟨units * Nat.pow 5 1074, -1074⟩

theorem identifies_of_onGrid? {units : Nat} {exponent : Int} {decimal : Decimal}
    (found : onGrid? units exponent = some decimal) : decimal.identifies units = true := by
  unfold onGrid? at found
  generalize wholeMultiples units exponent = count at found
  dsimp only at found
  split at found
  · rename_i chosen
    exact Option.some.inj found ▸ chosen.1
  · split at found
    · rename_i chosen
      exact Option.some.inj found ▸ chosen
    · cases found

theorem identifies_of_onCoarsestGrid? {units : Nat} {decimal : Decimal} (steps : Nat)
    {exponent : Int} (found : onCoarsestGrid? units steps exponent = some decimal) :
    decimal.identifies units = true := by
  induction steps generalizing exponent with
  | zero => simp [onCoarsestGrid?] at found
  | succ steps induction =>
    rw [onCoarsestGrid?, Option.or_eq_some_iff] at found
    rcases found with here | ⟨_, below⟩
    · exact identifies_of_onGrid? here
    · exact induction below

/-! ## Layout -/

/-- The decisions of a number format: which scientific exponents are written positionally, how a
whole number ends, and the spellings of the marks and of the numbers without digits. -/
structure Layout where
  positionalFrom : Int
  positionalBelow : Int
  wholeEnding : List Char
  exponentMark : List Char
  infinityText : List Char
  nanText : List Char

def leadingExponent (decimal : Decimal) : Int :=
  decimal.exponent + ((Nat.toDigits 10 decimal.digits).length - 1 : Nat)

/-- Digits with the point after the first `places` of them, padded with zeros on either side. -/
def positional (layout : Layout) (digits : List Char) (places : Int) : List Char :=
  if places ≤ 0 then '0' :: '.' :: (List.replicate (-places).toNat '0' ++ digits)
  else if digits.length ≤ places.toNat then
    digits ++ List.replicate (places.toNat - digits.length) '0' ++ layout.wholeEnding
  else digits.take places.toNat ++ '.' :: digits.drop places.toNat

/-- One digit before the point, if a point is needed, and the exponent after its mark. -/
def exponential (layout : Layout) (digits : List Char) (exponent : Int) : List Char :=
  let significand := match digits with
    | first :: second :: rest => first :: '.' :: second :: rest
    | _ => digits
  significand ++ layout.exponentMark ++ (integerText exponent).toList

def text (layout : Layout) (decimal : Decimal) : List Char :=
  let digits := Nat.toDigits 10 decimal.digits
  let leading := decimal.leadingExponent
  if layout.positionalFrom ≤ leading ∧ leading < layout.positionalBelow then
    positional layout digits (leading + 1)
  else exponential layout digits leading

end Decimal

namespace Binary64

def textIn (layout : Decimal.Layout) : Binary64 → String
  | .nan => String.ofList layout.nanText
  | .infinite negative => signed negative layout.infinityText
  | .finite negative units _ => signed negative ((Decimal.shortest units).text layout)
where
  signed (negative : Bool) (magnitude : List Char) : String :=
    String.ofList (if negative then '-' :: magnitude else magnitude)

/-- Numbers are written with the fewest digits that identify them, positionally from a ten
thousandth up to `10 ^ 16` and with an exponent outside; whole numbers keep a zero after the
point. -/
def layout : Decimal.Layout where
  positionalFrom := -4
  positionalBelow := 16
  wholeEnding := ['.', '0']
  exponentMark := ['e']
  infinityText := ['i', 'n', 'f']
  nanText := ['N', 'a', 'N']

def text (number : Binary64) : String := number.textIn layout

example : (ofDecimal false 25 (-1)).text = "2.5" := by decide +kernel
example : (ofDecimal true 1 16).text = "-1e16" := by decide +kernel
example : (ofDecimal false 15 (-6)).text = "1.5e-5" := by decide +kernel

/-! ## Reading -/

def spanDigits (text : List Char) : List Char × List Char := text.span Char.isDigit

/-- An exponent part: nothing, or a mark with a signed run of digits that ends the text. -/
def exponentOfText? : List Char → Option Int
  | [] => some 0
  | mark :: rest =>
    if mark.toLower ≠ 'e' then none
    else
      let (negative, digits) := match rest with
        | '-' :: digits => (true, digits)
        | '+' :: digits => (false, digits)
        | digits => (false, digits)
      if digits.isEmpty || digits.any (!·.isDigit) then none
      else if negative then some (-(naturalOfDigits digits)) else some (naturalOfDigits digits)

/-- The double named by an unsigned text: `inf`, `infinity` and `nan` in any case, or digits with
an optional point and an optional exponent. -/
def unsignedOfText? (negative : Bool) (text : List Char) : Option Binary64 :=
  let word := String.ofList (text.map Char.toLower)
  if word = "inf" ∨ word = "infinity" then some (.infinite negative)
  else if word = "nan" then some .nan
  else
    let (whole, afterWhole) := spanDigits text
    let (fraction, rest) := match afterWhole with
      | '.' :: afterPoint => spanDigits afterPoint
      | _ => ([], afterWhole)
    if whole.isEmpty && fraction.isEmpty then none
    else (exponentOfText? rest).map fun exponent =>
      ofDecimal negative (naturalOfDigits (whole ++ fraction)) (exponent - fraction.length)

def ofText? (text : String) : Option Binary64 :=
  match text.toList with
  | '-' :: rest => unsignedOfText? true rest
  | '+' :: rest => unsignedOfText? false rest
  | rest => unsignedOfText? false rest

example : (ofText? "-1.5e3").map text = some "-1500.0" := by decide +kernel

end Binary64

end PatternClauses
