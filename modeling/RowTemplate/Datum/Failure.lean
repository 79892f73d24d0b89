import RowTemplate.Text

/-! The reasons why a datum has no JSON form, and the text that each one shows. -/

namespace RowTemplate.Datum

/-- Why a datum has no JSON form. -/
inductive Failure
  /-- An integer outside the 64-bit ranges. -/
  | numberOutOfRange
  /-- A map key that is a NaN or an infinity. -/
  | nonFiniteKey
  /-- A map key of a shape that has no text. -/
  | keyNotText
  /-- A datum that fails on its own account, with a text. -/
  | raised (text : String)
  deriving DecidableEq

namespace Failure

/-- A decimal number of at most 64 bits, which is the whole text. -/
def ofDigits? (digits : List Char) : Option Nat :=
  if digits.isEmpty || !digits.all Char.isDigit then none
  else
    let n := Nat.ofDigitChars 10 digits 0
    if n < Nat.pow 2 64 then some n else none

/-- Splits a text that ends in a position, a line and a column, from its last mark of one. -/
def position? (text : List Char) : Option (List Char × Nat × Nat) := do
  let (tail, head) ← cut? " at line ".toList.reverse text.reverse
  let (line, rest) := tail.reverse.span Char.isDigit
  let column ← " column ".toList.isPrefixOf? rest
  some (head.reverse, ← ofDigits? line, ← ofDigits? column)

/-- A closing position is shown with plain numbers, and not at all on line 0. -/
def raisedText (text : String) : String :=
  match position? text.toList with
  | none => text
  | some (head, 0, _) => String.ofList head
  | some (head, line, column) =>
      s!"{String.ofList head} at line {line} column {column}"

/-- The text that a failure shows. -/
def text : Failure → String
  | numberOutOfRange => "number out of range"
  | nonFiniteKey => "float key must be finite (got NaN or +/-inf)"
  | keyNotText => "key must be a string"
  | raised text => raisedText text

end Failure

end RowTemplate.Datum
