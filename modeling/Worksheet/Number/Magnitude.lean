import Worksheet.Number.Rounding

/-!
# Magnitudes of double-precision numbers

A `Magnitude` is a finite double without its sign, kept exactly: `coeff · 2 ^ exponent`, counted
in units of `2 ^ -1074`, the smallest positive double. The invariant `Canonical` leaves one
representation to each value, so equality of magnitudes is equality of numbers.

* `Magnitude.round?` is the one place where a number loses digits: it takes the exact quotient of
  two natural numbers to the nearest magnitude, ties to even, and fails on overflow.
* `Magnitude.atoms` is the value as a whole number of units `10 ^ -1074`, again exactly, because
  `2 ^ -1074 = 5 ^ 1074 · 10 ^ -1074`. Everything decimal starts from it.
-/

namespace Worksheet.Number

/-- The coefficient has at most 53 binary digits, exactly 53 once the exponent is positive, and
the exponent stays within the finite doubles. -/
def Canonical (coeff exponent : Nat) : Prop :=
  coeff < Nat.pow 2 53 ∧ exponent ≤ 2045 ∧ (exponent = 0 ∨ Nat.pow 2 52 ≤ coeff)

instance (coeff exponent : Nat) : Decidable (Canonical coeff exponent) :=
  inferInstanceAs (Decidable (_ ∧ _ ∧ (_ ∨ _)))

/-- A finite double without its sign: `coeff · 2 ^ exponent` units of `2 ^ -1074`. -/
structure Magnitude where
  /-- The binary digits. -/
  coeff : Nat
  /-- The power of two that a unit of the coefficient stands for, above `2 ^ -1074`. -/
  exponent : Nat
  canonical : Canonical coeff exponent
  deriving DecidableEq

namespace Magnitude

/-- The value in units of `2 ^ -1074`. -/
def units (m : Magnitude) : Nat := m.coeff * Nat.pow 2 m.exponent

/-- One, in units of `2 ^ -1074`. -/
def unitsPerOne : Nat := Nat.pow 2 1074

/-- One unit of `2 ^ -1074`, in units of `10 ^ -1074`. -/
def atomsPerUnit : Nat := Nat.pow 5 1074

/-- The value in units of `10 ^ -1074`. -/
def atoms (m : Magnitude) : Nat := m.units * atomsPerUnit

/-- The magnitude zero. -/
def zero : Magnitude := ⟨0, 0, by decide⟩

instance : Inhabited Magnitude := ⟨zero⟩

/-- The magnitude `coeff · 2 ^ exponent`, where rounding may have carried the coefficient up to
`2 ^ 53`; `none` beyond the finite doubles. -/
def ofCoeff? (coeff exponent : Nat) : Option Magnitude :=
  if h : Canonical coeff exponent then some ⟨coeff, exponent, h⟩
  else if h : Canonical (coeff / 2) (exponent + 1) then some ⟨coeff / 2, exponent + 1, h⟩
  else none

/-- The magnitude nearest to `num / den` units, ties to even; `none` when that is no finite
double. The exponent is the number of binary digits of the quotient beyond 53. -/
def round? (num den : Nat) : Option Magnitude :=
  let exponent := (num / den).log2 - 52
  ofCoeff? (roundDiv num (den * Nat.pow 2 exponent)) exponent

/-- The magnitude nearest to `n / 10 ^ 1074`. -/
def ofAtoms? (n : Nat) : Option Magnitude := round? n atomsPerUnit

end Magnitude

end Worksheet.Number
