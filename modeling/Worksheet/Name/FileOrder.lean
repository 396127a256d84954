import Worksheet.Name.Coordinate

/-!
# The order of names in a saved sheet

Names that stand for coordinates come first, row by row, and all other names after them. Names of
one coordinate, such as `a1` and `A01`, and names without a coordinate are in the order of their
characters' code points.
-/

namespace Worksheet.Name

/-- Compares two names by their places in a saved sheet. -/
def fileOrder (a b : String) : Ordering :=
  match Coordinate.ofName? a, Coordinate.ofName? b with
  | some p, some q => (compare p q).then (compare a b)
  | some _, none => .lt
  | none, some _ => .gt
  | none, none => compare a b

/-- Sorts by names in the order of a saved sheet; items of one name keep their order. -/
def sortInFileOrder {α : Type _} (name : α → String) (items : List α) : List α :=
  items.mergeSort fun a b => (fileOrder (name a) (name b)).isLE

end Worksheet.Name
