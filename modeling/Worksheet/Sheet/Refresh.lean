import Worksheet.Formula.Evaluation
import Worksheet.Sheet.Basic

/-!
# Refreshing values

A formula sees other cells by their values: a number as it is, and an error in place of anything
else. Refreshing computes the values of cells again in a given order, one after the other.
-/

namespace Worksheet.Cells

/-- The number that a formula finds under a name. -/
def numberAt (cells : Cells) (name : String) : Except EvalError Number.Binary64 :=
  match cells[name]?.map Cell.value with
  | some (.number x) => .ok x
  | some (.text _) => .error (.notNumber name)
  | some (.error e) => .error (.failed name e.message)
  | none => .error (.noValue name)

/-- What contents come to, given the values of the cells. -/
def valueOf (cells : Cells) : Contents → Value
  | .number x => .number x
  | .text s => .text s
  | .formula f =>
    match (f.evaluate cells.numberAt).result with
    | .ok x => .number x
    | .error e => .error e

/-- Computes the value of a cell again; a name without a cell is passed over. -/
def refresh (cells : Cells) (name : String) : Cells :=
  match cells[name]? with
  | some cell => cells.insert name ⟨cell.contents, cells.valueOf cell.contents⟩
  | none => cells

/-- Computes the values of cells again, in order. -/
def refreshAll (cells : Cells) (order : List String) : Cells := order.foldl refresh cells

/-- Stores contents under a name; empty contents take the cell away. -/
def store (cells : Cells) (name : String) (contents : Contents) : Cells :=
  if contents.isEmpty then cells.erase name else cells.insert name (.ofContents contents)

/-- Puts a cell back under a name as it was, or takes it away if there was none. -/
def putBack (cells : Cells) (name : String) : Option Cell → Cells
  | some cell => cells.insert name cell
  | none => cells.erase name

end Worksheet.Cells
