import Mathlib
import RowTemplate.Number

/-! What the text of a number stands for. A decimal text is a rational number, and in a binary format
it stands for the nearest number of the format. -/

namespace RowTemplate.Number

/-! ### Decimal texts -/

/-- The number `digits · 10 ^ exponent` itself. -/
def Decimal.value (d : Decimal) : ℚ := d.digits * 10 ^ d.exponent

/-- Digits in front of a point or an exponent: at least one, and no zero first unless it is alone. -/
def IsWhole (digits : List Char) : Prop :=
  digits ≠ [] ∧ (digits.head? = some '0' → digits = ['0'])

instance (digits : List Char) : Decidable (IsWhole digits) := inferInstanceAs (Decidable (_ ∧ _))

/-- An exponent, which may be left out: `e`, a sign, and digits. -/
def readExponent? : List Char → Option ℤ
  | [] => some 0
  | 'e' :: sign :: digits =>
      if digits = [] ∨ ¬ digits.all Char.isDigit then none
      else if sign = '+' then some (Nat.ofDigitChars 10 digits 0)
      else if sign = '-' then some (-Nat.ofDigitChars 10 digits 0)
      else none
  | _ => none

/-- The number of a decimal text: digits, then a fraction if there is a point, then an exponent. -/
def Decimal.ofText? (text : List Char) : Option Decimal :=
  let whole := text.takeWhile Char.isDigit
  if ¬ IsWhole whole then none
  else
    match text.dropWhile Char.isDigit with
    | '.' :: rest =>
        let fraction := rest.takeWhile Char.isDigit
        if fraction = [] then none
        else (readExponent? (rest.dropWhile Char.isDigit)).map fun exponent =>
          ⟨Nat.ofDigitChars 10 (whole ++ fraction) 0, exponent - fraction.length⟩
    | rest => (readExponent? rest).map fun exponent => ⟨Nat.ofDigitChars 10 whole 0, exponent⟩

/-! ### Rounding -/

/-- A binary number without its sign. -/
def Binary.absValue (x : Binary) : ℚ := x.significand * 2 ^ x.exponent

/-- The numbers that a format would have without a greatest exponent: the significand fits its field
with the bit in front of it, and is as large as the least exponent lets it be. -/
structure Format.OnGrid (format : Format) (x : Binary) : Prop where
  significand_lt : x.significand < 2 ^ (format.fractionBits + 1)
  leastExponent_le : format.leastExponent ≤ x.exponent
  exponent_eq : x.significand < 2 ^ format.fractionBits → x.exponent = format.leastExponent

/-- The exponent of the greatest number of a format. -/
def Format.greatestExponent (format : Format) : ℤ :=
  2 ^ (format.exponentBits - 1) - 1 - format.fractionBits

/-- The numbers of a format. -/
structure Format.Holds (format : Format) (x : Binary) : Prop where
  onGrid : format.OnGrid x
  exponent_le : x.exponent ≤ format.greatestExponent

/-- A positive number stands for `x` in a format: no number of the format is nearer, nor would one
with a greater exponent be, and if another one is as near, then `x` has the even significand. -/
structure Format.RoundsTo (format : Format) (value : ℚ) (x : Binary) : Prop where
  holds : format.Holds x
  nearest : ∀ y, format.OnGrid y → |value - x.absValue| ≤ |value - y.absValue|
  even : ∀ y, format.OnGrid y → y.absValue ≠ x.absValue →
    |value - y.absValue| = |value - x.absValue| → x.significand % 2 = 0

/-- A text reads as a number of a format: behind a minus sign for a negative one, it is a decimal text
that stands for the number. -/
def Format.Reads (format : Format) (text : List Char) (x : Binary) : Prop :=
  ∃ digits d, text = (if x.negative then '-' :: digits else digits) ∧
    Decimal.ofText? digits = some d ∧ format.RoundsTo d.value x

end RowTemplate.Number
