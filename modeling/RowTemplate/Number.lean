/-! Floating point numbers and their decimals. A finite number is read exactly from its word: it is a
sign, a whole significand and a power of two. A layout says which decimals are written in full; the
others get an exponent. The shortest decimal that reads back as a number is, of those with the fewest
digits, the nearest one, and of two that are equally near the one with the even last digit. -/

namespace RowTemplate.Number

/-! ### Binary numbers -/

/-- A binary interchange format: the widths of its fraction and exponent fields. -/
structure Format where
  fractionBits : Nat
  exponentBits : Nat
  deriving DecidableEq

namespace Format

/-- The format of 32-bit words. -/
def single : Format := ⟨23, 8⟩

/-- The format of 64-bit words. -/
def double : Format := ⟨52, 11⟩

/-- The exponent of the smallest positive number, with significand one. -/
def leastExponent (format : Format) : Int :=
  2 - Nat.pow 2 (format.exponentBits - 1) - format.fractionBits

end Format

/-- The number `± significand · 2 ^ exponent`. -/
structure Binary where
  negative : Bool
  significand : Nat
  exponent : Int
  deriving DecidableEq

namespace Format

/-- The number that a word stands for; an infinity or a NaN is no number. -/
def finite? (format : Format) (word : Nat) : Option Binary :=
  let fraction := word % Nat.pow 2 format.fractionBits
  let exponent := word / Nat.pow 2 format.fractionBits % Nat.pow 2 format.exponentBits
  let negative := word.testBit (format.fractionBits + format.exponentBits)
  if exponent = Nat.pow 2 format.exponentBits - 1 then none
  else if exponent = 0 then some ⟨negative, fraction, format.leastExponent⟩
  else
    let significand := Nat.pow 2 format.fractionBits + fraction
    some ⟨negative, significand, format.leastExponent + exponent - 1⟩

/-- The same number with as large a significand as the format has room for. -/
def normalize (format : Format) (x : Binary) : Binary :=
  if x.significand = 0 then { x with exponent := format.leastExponent }
  else
    let shift := min (format.fractionBits - x.significand.log2)
      (x.exponent - format.leastExponent).toNat
    ⟨x.negative, x.significand * Nat.pow 2 shift, x.exponent - shift⟩

end Format

/-! ### Decimal numbers -/

/-- The number `digits · 10 ^ exponent`. -/
structure Decimal where
  digits : Nat
  exponent : Int
  deriving DecidableEq

namespace Decimal

/-- The power of ten that the first digit stands for. -/
def magnitude (d : Decimal) : Int := (Nat.toDigits 10 d.digits).length - 1 + d.exponent

/-- The digits without the zeros at the end, but for a first one. -/
def figures (d : Decimal) : List Char :=
  match Nat.toDigits 10 d.digits with
  | [] => []
  | first :: rest => first :: (rest.reverse.dropWhile (· == '0')).reverse

end Decimal

/-- The magnitudes that are written in full, both ends included. -/
structure Layout where
  least : Int
  greatest : Int
  deriving DecidableEq

namespace Layout

/-- Figures in full, with at least one digit on each side of the point. -/
def full (figures : List Char) (magnitude : Int) : List Char :=
  if magnitude < 0 then '0' :: '.' :: List.replicate (-magnitude - 1).toNat '0' ++ figures
  else
    let size := magnitude.toNat + 1
    let fraction := figures.drop size
    figures.take size ++ List.replicate (size - figures.length) '0' ++
      '.' :: if fraction.isEmpty then ['0'] else fraction

/-- Figures with a point after the first one, and the signed magnitude as the exponent. -/
def scientific (figures : List Char) (magnitude : Int) : List Char :=
  let sign := if magnitude < 0 then '-' else '+'
  figures.take 1 ++ (if figures.length ≤ 1 then [] else '.' :: figures.drop 1) ++
    'e' :: sign :: Nat.toDigits 10 magnitude.natAbs

/-- A decimal number as text. -/
def text (layout : Layout) (d : Decimal) : List Char :=
  if layout.least ≤ d.magnitude ∧ d.magnitude ≤ layout.greatest then full d.figures d.magnitude
  else scientific d.figures d.magnitude

end Layout

/-! ### Shortest decimals -/

/-- The decimal with exactly the magnitude of a binary number. -/
def Binary.toDecimal (x : Binary) : Decimal :=
  if 0 ≤ x.exponent then ⟨x.significand * Nat.pow 2 x.exponent.toNat, 0⟩
  else ⟨x.significand * Nat.pow 5 (-x.exponent).toNat, x.exponent⟩

/-- The magnitudes that read back as `value`, all three in quarters of the last binary place. -/
structure Interval where
  low : Nat
  value : Nat
  high : Nat
  /-- Whether the two ends read back as well. -/
  closed : Bool
  deriving DecidableEq

namespace Interval

/-- The numbers that are rounded to `x`. They reach half way to its neighbours, and the lower
neighbour of a power of two is nearer. A half goes to the even significand. -/
def of (format : Format) (x : Binary) : Interval where
  low :=
    if x.significand = Nat.pow 2 format.fractionBits ∧ format.leastExponent < x.exponent then
      4 * x.significand - 1
    else 4 * x.significand - 2
  value := 4 * x.significand
  high := 4 * x.significand + 2
  closed := x.significand % 2 == 0

def contains (interval : Interval) (scale unit c : Nat) : Bool :=
  if interval.closed then interval.low * scale ≤ c * unit && c * unit ≤ interval.high * scale
  else interval.low * scale < c * unit && c * unit < interval.high * scale

end Interval

/-- The multiple of `10 ^ place` that reads back as `x` and is nearest to it, if there is one. One
quarter of the last binary place is `scale / unit` of `10 ^ place`. -/
def onGrid? (format : Format) (x : Binary) (place : Int) : Option Decimal :=
  let interval := Interval.of format x
  let scale := Nat.pow 2 (x.exponent - 2).toNat * Nat.pow 10 (-place).toNat
  let unit := Nat.pow 2 (2 - x.exponent).toNat * Nat.pow 10 place.toNat
  let value := interval.value * scale
  let below := value / unit
  let remainder := value % unit
  let lower := interval.contains scale unit below
  let upper := interval.contains scale unit (below + 1)
  let takeLower := 2 * remainder < unit || 2 * remainder == unit && below % 2 == 0
  if lower && (takeLower || !upper) then some ⟨below, place⟩
  else if upper then some ⟨below + 1, place⟩
  else none

/-- The shortest decimal that reads back as `x`. Seventeen digits are enough for every format up
to 64 bits. -/
def shortest (format : Format) (x : Binary) : Decimal :=
  if x.significand = 0 then ⟨0, 0⟩
  else
    let exact := x.toDecimal
    ((List.range 17).findSome? fun (n : Nat) => onGrid? format x (exact.magnitude - n)).getD exact

/-- The shortest text of a number that reads back. -/
def Layout.shortestText (layout : Layout) (format : Format) (x : Binary) : List Char :=
  let digits := layout.text (shortest format x)
  if x.negative then '-' :: digits else digits

end RowTemplate.Number
