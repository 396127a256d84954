import Worksheet.Formula.Basic
import Worksheet.Number.Display

/-!
# Cells

A cell holds contents, what was put into it, and a value, what the contents come to. A number and a
text are their own values; a formula's value is a number or the error of its evaluation.
-/

namespace Worksheet

/-- What is put into a cell. Empty text stands for an empty cell. -/
inductive Contents where
  | number (value : Number.Binary64)
  | text (text : String)
  | formula (formula : Formula)
  deriving DecidableEq

/-- What the contents of a cell come to. -/
inductive Value where
  | number (value : Number.Binary64)
  | text (text : String)
  | error (error : EvalError)
  deriving DecidableEq

namespace Contents

/-- The contents of a cell that was never set. -/
def empty : Contents := .text ""

instance : Inhabited Contents := ⟨empty⟩

/-- Whether these are the contents of an empty cell. -/
def isEmpty : Contents → Bool
  | .text s => s.isEmpty
  | _ => false

/-- The input that gives these contents: a number in full, the text, or `=` and the formula. -/
def input : Contents → String
  | .number x => String.ofList x.text
  | .text s => s
  | .formula f => "=" ++ f.text

/-- The variables that the contents read. -/
def variableNames : Contents → Std.ExtTreeSet String
  | .formula f => f.variableNames
  | _ => ∅

end Contents

namespace Value

/-- The value of a cell that was never set. -/
def empty : Value := .text ""

instance : Inhabited Value := ⟨empty⟩

/-- Whether this is the value of an empty cell. -/
def isEmpty : Value → Bool
  | .text s => s.isEmpty
  | _ => false

/-- The value as a sheet shows it. -/
def display : Value → String
  | .number x => String.ofList x.display
  | .text s => s
  | .error e => "#ERR: " ++ e.message

end Value

/-- A cell of a sheet. -/
structure Cell where
  contents : Contents
  value : Value
  deriving DecidableEq

namespace Cell

/-- A cell with new contents. A formula has the empty value until it is evaluated. -/
def ofContents (contents : Contents) : Cell :=
  ⟨contents, match contents with
    | .number x => .number x
    | .text s => .text s
    | .formula _ => .empty⟩

end Cell

end Worksheet
