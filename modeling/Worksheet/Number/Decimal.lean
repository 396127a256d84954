/-!
# Plain decimal text

A `Decimal` is a natural number of tenths, hundredths and so on: `digits / 10 ^ places`. Its text
is plain: digits, and a point with decimals only where some decimal is not zero; never an exponent.
-/

namespace Worksheet.Number

/-- The number `digits / 10 ^ places`. -/
structure Decimal where
  digits : Nat
  places : Nat
  deriving DecidableEq

namespace Decimal

/-- Drops zeros at the end of the decimals. -/
def trim (digits : Nat) : Nat → Decimal
  | 0 => ⟨digits, 0⟩
  | places + 1 =>
    if digits % 10 = 0 then trim (digits / 10) places else ⟨digits, places + 1⟩

/-- All places of a decimal, written out: the digits, at least one more than there are places,
with a point before the last `places` of them. -/
def fullText (d : Decimal) : List Char :=
  let digits := (Nat.toDigits 10 d.digits).leftpad (d.places + 1) '0'
  if d.places = 0 then digits
  else
    let whole := digits.length - d.places
    digits.take whole ++ '.' :: digits.drop whole

/-- The plain text of a decimal, without zeros at the end of its decimals. -/
def text (d : Decimal) : List Char := (trim d.digits d.places).fullText

end Decimal

end Worksheet.Number
