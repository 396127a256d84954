/-!
# Saved sheets

A saved sheet holds a version tag and, for each line that fills a cell, the cell's name and what
goes into it.
-/

namespace Worksheet

namespace SaveFile

/-- What a line puts into a cell. -/
inductive Payload where
  /-- A quoted text, taken as text whatever it looks like. -/
  | text (text : String)
  /-- A number or formula, taken as input. -/
  | input (input : String)
  deriving DecidableEq

/-- A line that fills a cell. -/
structure Entry where
  /-- The number of the line, counted from one. -/
  line : Nat
  name : String
  payload : Payload
  deriving DecidableEq

/-- What is wrong with a line. -/
inductive Fault where
  | misplacedVersion
  | missingTag
  | missingSeparator
  | missingName
  | invalidValue (value : String)
  | missingVersion
  deriving DecidableEq

/-- The wording of a fault. -/
def Fault.message : Fault → String
  | .misplacedVersion => "@version must appear once, before any cell"
  | .missingTag => "@version needs a tag"
  | .missingSeparator => "Expected 'NAME: CONTENT' format"
  | .missingName => "Missing cell name"
  | .invalidValue value => s!"Invalid value: {value}. Use quotes for text."
  | .missingVersion => "Missing @version header"

/-- A fault, and the number of the line that has it. -/
structure LineFault where
  line : Nat
  fault : Fault
  deriving DecidableEq

/-- The comment that every saved sheet starts with. -/
def banner : List Char := "# Cellwise Spreadsheet".toList

/-- The word that starts the line with the version tag. -/
def versionWord : List Char := "@version".toList

end SaveFile

/-- A saved sheet. -/
structure SaveFile where
  version : String
  entries : List SaveFile.Entry
  deriving DecidableEq

end Worksheet
