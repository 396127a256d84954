import Worksheet.Cell
import Worksheet.Name.FileOrder
import Worksheet.Settings.Basic
import Worksheet.Sheet.Refusal

/-!
# Sheets

A sheet keeps its cells under their canonical names, the dependencies between them that their
formulas make, and whether it was changed since it was last written or restored. Every legal name
addresses a cell, but only cells that are not empty are stored.
-/

namespace Worksheet

/-- The stored cells by their names. -/
abbrev Cells := Std.ExtTreeMap String Cell

/-- A sheet of named cells. -/
structure Sheet where
  /-- How names are spelt and which are accepted. -/
  policy : NamePolicy := .plain
  /-- The tag of the sheet's saved form. -/
  version : String := "default"
  cells : Cells := ∅
  /-- Which cells read which names. -/
  dependencies : Dependencies := .empty
  modified : Bool := false

instance : Inhabited Sheet := ⟨{}⟩

/-- What an operation leaves: the sheet after it, and its result or why it was refused. -/
structure Outcome (α : Type) where
  sheet : Sheet
  result : Except Refusal α

namespace Sheet

/-- An empty sheet with the given settings. -/
def ofSettings (settings : Settings) : Sheet :=
  { policy := settings.policy, version := settings.version }

/-- The canonical form of a name, if the sheet accepts it. -/
def resolve (s : Sheet) (name : String) : Except Refusal String :=
  match s.policy.canonical? name with
  | some name => .ok name
  | none => .error (.illegalName name)

/-- The contents of a cell; empty text if it was never filled. -/
def contentsAt (s : Sheet) (name : String) : Except Refusal Contents := do
  let name ← s.resolve name
  return (s.cells[name]?.map Cell.contents).getD .empty

/-- The value of a cell; empty text if it was never filled. -/
def valueAt (s : Sheet) (name : String) : Except Refusal Value := do
  let name ← s.resolve name
  return (s.cells[name]?.map Cell.value).getD .empty

/-- The cells whose formulas read a cell directly, in order. -/
def readersAt (s : Sheet) (name : String) : Except Refusal (List String) := do
  let name ← s.resolve name
  return s.dependencies.readersOf name

/-- How many cells are not empty. -/
def size (s : Sheet) : Nat := s.cells.size

/-- The stored cells with their names, in file order. -/
def toList (s : Sheet) : List (String × Cell) := Name.sortInFileOrder Prod.fst s.cells.toList

/-- The names of the stored cells, in file order. -/
def names (s : Sheet) : List String := Name.sortInFileOrder id s.cells.keys

end Sheet

end Worksheet
