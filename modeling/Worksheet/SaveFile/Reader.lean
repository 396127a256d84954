import Worksheet.Number.Numeral
import Worksheet.SaveFile.Basic
import Worksheet.Text.Blank
import Worksheet.Text.Lines
import Worksheet.Text.Quoted

/-!
# Reading saved sheets

Each line is read by itself, without the blanks at its ends: it is skipped, or gives the version
tag, or fills a cell. Then the lines are put together: the version tag comes once, before the first
cell. The first line with a fault ends the reading; a missing version tag shows only at the end.
-/

namespace Worksheet.SaveFile

/-- What one line says. -/
inductive Line where
  | skipped
  | version (tag : List Char)
  | entry (name : List Char) (payload : Payload)
  deriving DecidableEq

/-- Reads what goes into a cell: input after a `=`, a text in quotes, or a finite number. -/
def readValue (value : List Char) : Except Fault Payload :=
  let invalid : Except Fault Payload := .error (.invalidValue (String.ofList value))
  if value.head? = some '=' then .ok (.input (String.ofList value))
  else if value.head? = some '"' && value.getLast? = some '"' && 2 ≤ value.length then
    .ok (.text (String.ofList (Text.Quoted.decode value.tail.dropLast)))
  else match Number.Binary64.read? value with
    | some x => if x.isFinite then .ok (.input (String.ofList value)) else invalid
    | none => invalid

/-- Reads a line that fills a cell, `NAME: VALUE`. -/
def readEntry (line : List Char) : Except Fault Line :=
  match line.dropWhile (· ≠ ':') with
  | [] => .error .missingSeparator
  | _ :: value =>
    let name := Text.trim (line.takeWhile (· ≠ ':'))
    if name.isEmpty then .error .missingName
    else return .entry name (← readValue (Text.trim value))

/-- Reads one line. Blank lines and lines that start with `#` are skipped. -/
def readLine (line : List Char) : Except Fault Line :=
  let line := Text.trim line
  if line.isEmpty || line.head? = some '#' then .ok .skipped
  else if versionWord.isPrefixOf line then
    .ok (.version (Text.trim (line.drop versionWord.length)))
  else readEntry line

/-- Reads numbered lines, after the version tag and some entry may have been met. -/
def readLines (version : Option String) (started : Bool) :
    List (Nat × List Char) → Except LineFault SaveFile
  | [] =>
    match version with
    | some tag => .ok ⟨tag, []⟩
    | none => .error ⟨1, .missingVersion⟩
  | (number, line) :: lines =>
    match readLine line with
    | .error fault => .error ⟨number, fault⟩
    | .ok .skipped => readLines version started lines
    | .ok (.version tag) =>
      if version.isSome || started then .error ⟨number, .misplacedVersion⟩
      else if tag.isEmpty then .error ⟨number, .missingTag⟩
      else readLines (some (String.ofList tag)) started lines
    | .ok (.entry name payload) => do
      let file ← readLines version true lines
      return { file with entries := ⟨number, String.ofList name, payload⟩ :: file.entries }

/-- Reads a saved sheet. -/
def read (text : String) : Except LineFault SaveFile :=
  readLines none false (Text.numberedLines text.toList)

end Worksheet.SaveFile
