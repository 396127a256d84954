import Worksheet.Name.Grammar

/-!
# Coordinates

A name of the coordinate style, such as `B3`, stands for a column and a row. Columns are numbered
by letters in bijective base 26: `A` is 1, `Z` is 26, `AA` is 27. A `Coordinate` counts both from
zero, and its name can be read only while the numbers in the name stay below `2 ^ 64`, each step of
the reading included.
-/

namespace Worksheet.Name

/-- A cell's place, column and row counted from zero. -/
structure Coordinate where
  row : Nat
  column : Nat
  deriving DecidableEq

namespace Coordinate

/-- Numbers in a coordinate's name stay below this. -/
def limit : Nat := Nat.pow 2 64

/-- The number of a letter, from 1 for `A` to 26 for `Z`, in either case. -/
def letterNumber (c : Char) : Nat := c.toUpper.toNat - 'A'.toNat + 1

/-- A number, if it stays below the limit. -/
def bounded? (number : Nat) : Option Nat := if number < limit then some number else none

/-- The number of some letters with one more letter after them, if it and the step to it stay below
the limit. -/
def appendLetter? (number : Nat) (c : Char) : Option Nat :=
  (bounded? (number * 26)).bind fun shifted => bounded? (shifted + letterNumber c)

/-- The number that letters stand for in bijective base 26, read from left to right. -/
def lettersNumber? (letters : List Char) : Option Nat := letters.foldlM appendLetter? 0

/-- The letters that stand for a number in bijective base 26. -/
def numberLetters (number : Nat) : List Char :=
  match number with
  | 0 => []
  | n + 1 => numberLetters (n / 26) ++ [Char.ofNat ('A'.toNat + n % 26)]
termination_by number
decreasing_by exact Nat.lt_succ_of_le (Nat.div_le_self n 26)

/-- The letters of a column counted from zero: `A`, …, `Z`, `AA`, …. -/
def columnLetters (column : Nat) : List Char := numberLetters (column + 1)

/-- The coordinate that a name stands for: letters, then a row number of at least one. -/
def ofName? (name : String) : Option Coordinate :=
  if isA1 name then
    let (letters, digits) := splitLetters name.toList
    match lettersNumber? letters, bounded? (Nat.ofDigitChars 10 digits 0) with
    | some (column + 1), some (row + 1) => some ⟨row, column⟩
    | _, _ => none
  else none

/-- The name of a coordinate: capital letters, then the row number. -/
def name (c : Coordinate) : String :=
  String.ofList (columnLetters c.column ++ Nat.toDigits 10 (c.row + 1))

/-- Row by row: `A1`, `B1`, …, `A2`, `B2`, …. -/
instance : Ord Coordinate :=
  ⟨fun a b => (compare a.row b.row).then (compare a.column b.column)⟩

end Coordinate

/-- The text of the refusal when a name stands for no coordinate. -/
def notCoordinateMessage (name : String) : String := s!"not an A1 cell name: {name}"

end Worksheet.Name
