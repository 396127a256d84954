import Worksheet.Number.Shortest

/-!
# Numbers as a sheet shows them

A sheet shows an integer below `10 ^ 15` as it is, and every other number rounded to six decimal
places, ties to even, without zeros at the end. A number that would be shown as zero is shown in
full instead, so only zero itself reads `0`.
-/

namespace Worksheet.Number

/-- How many decimal places a sheet shows. -/
def shownPlaces : Nat := 6

/-- The magnitude rounded to so many decimal places, `1074` at most. -/
def Magnitude.rounded (m : Magnitude) (places : Nat) : Decimal :=
  ⟨roundDiv m.atoms (Nat.pow 10 (1074 - places)), places⟩

/-- The magnitude rounded to the places that a sheet shows. -/
def Magnitude.shown (m : Magnitude) : Decimal := m.rounded shownPlaces

/-- Whether the magnitude is an integer below `10 ^ 15`. -/
def Magnitude.isShortInteger (m : Magnitude) : Bool :=
  m.units % unitsPerOne == 0 && decide (m.units < Nat.pow 10 15 * unitsPerOne)

/-- The number as a sheet shows it. -/
def Binary64.display : Binary64 → List Char
  | .nan => ['#', 'N', 'A', 'N', '!']
  | .infinite _ => ['#', 'I', 'N', 'F', '!']
  | .finite negative m =>
    if m.coeff = 0 then ['0']
    else if m.isShortInteger then signText negative ++ (m.rounded 0).fullText
    else if m.shown.digits = 0 then signText negative ++ m.text
    else signText negative ++ m.shown.text

end Worksheet.Number
