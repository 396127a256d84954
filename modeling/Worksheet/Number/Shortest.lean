import Worksheet.Number.Binary64
import Worksheet.Number.Decimal

/-!
# The shortest text that reads back

`Magnitude.shortest` is the decimal with the fewest digits that rounds to a magnitude, the one
nearest to it among those, and of two equally near the greater.

It works on whole numbers of atoms, `10 ^ -1074`, in which every magnitude is exact. On the grid of
the multiples of `10 ^ k` only the two neighbours of the value need to be tried: where any
point of the grid reads back, one of these two does. The search goes from coarse grids to fine
ones, and the finest grid has the value itself.

* `Binary64.text` is the number in full: a sign, the shortest digits, never an exponent.
-/

namespace Worksheet.Number

/-- So many steps of `10 ^ k` atoms. -/
def Decimal.ofSteps : Nat × Nat → Decimal
  | (steps, k) =>
    if k ≤ 1074 then ⟨steps, 1074 - k⟩ else ⟨steps * Nat.pow 10 (k - 1074), 0⟩

namespace Magnitude

/-- Rounding this many atoms gives the magnitude back. -/
def readsBack (m : Magnitude) (atoms : Nat) : Bool := ofAtoms? atoms == some m

/-- The multiple of `step` atoms next to the magnitude that reads back, as a number of steps. -/
def onGrid? (m : Magnitude) (step : Nat) : Option Nat :=
  let below := m.atoms / step
  let above := below + 1
  let belowFits := m.readsBack (below * step)
  let aboveFits := m.readsBack (above * step)
  let belowNearer := m.atoms - below * step < above * step - m.atoms
  if belowFits && (belowNearer || !aboveFits) then some below
  else if aboveFits then some above
  else none

/-- The first grid, from multiples of `10 ^ k` down to single atoms, on which there is a point, and
that point as a number of steps; on single atoms it is the value. -/
def coarsest (value : Nat) (point? : Nat → Option Nat) : Nat → Nat × Nat
  | 0 => (value, 0)
  | k + 1 => match point? (Nat.pow 10 (k + 1)) with
    | some steps => (steps, k + 1)
    | none => coarsest value point? k

/-- A power of ten that no magnitude of as many binary digits reaches: `log 2` is less than
`30103 / 100000` to base ten. -/
def topGrid (m : Magnitude) : Nat := (m.atoms.log2 + 1) * 30103 / 100000 + 1

/-- The shortest decimal that reads back as the magnitude. -/
def shortest (m : Magnitude) : Decimal :=
  .ofSteps (coarsest m.atoms m.onGrid? m.topGrid)

/-- The magnitude in full, with the fewest digits that read back. -/
def text (m : Magnitude) : List Char := m.shortest.text

end Magnitude

/-- The minus sign of a negative number. -/
def signText (negative : Bool) : List Char := if negative then ['-'] else []

/-- The number in full, with the fewest digits that read back: `-0`, `inf`, `-inf` and `NaN`
stand for themselves. -/
def Binary64.text : Binary64 → List Char
  | .finite negative m => signText negative ++ m.text
  | .infinite negative => signText negative ++ ['i', 'n', 'f']
  | .nan => ['N', 'a', 'N']

instance : ToString Binary64 := ⟨fun x => String.ofList x.text⟩

end Worksheet.Number
