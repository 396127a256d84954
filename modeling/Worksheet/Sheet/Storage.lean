import Worksheet.SaveFile.Reader
import Worksheet.SaveFile.Writer
import Worksheet.Sheet.Entry

/-!
# Storing sheets

The saved form of a sheet is its cells' contents. Restoring empties the sheet and enters them one by
one; if one of them is refused, the sheet gets back what it had.
-/

namespace Worksheet.Sheet

/-- The stored names with their contents. -/
def contentsList (s : Sheet) : List (String × Contents) :=
  s.cells.toList.map fun (name, cell) => (name, cell.contents)

/-- The saved form of a sheet. -/
def toText (s : Sheet) : String := SaveFile.write s.version s.contentsList

/-- The sheet without its cells. -/
def cleared (s : Sheet) : Sheet := { s with cells := ∅, dependencies := .empty }

/-- Enters a line of a saved sheet. -/
def enterSaved (s : Sheet) (entry : SaveFile.Entry) : Outcome (List String) :=
  match entry.payload with
  | .text text => s.enterText entry.name text
  | .input input => s.enterInput entry.name input

/-- Enters lines of a saved sheet in order, up to the first that is refused. -/
def replay (s : Sheet) : List SaveFile.Entry → Outcome Unit
  | [] => ⟨s, .ok ()⟩
  | entry :: entries =>
    match s.enterSaved entry with
    | ⟨s, .error e⟩ => ⟨s, .error (.savedEntry entry.line entry.name e)⟩
    | ⟨s, .ok _⟩ => s.replay entries

/-- Replaces the cells of a sheet by those of a saved sheet. -/
def restore (s : Sheet) (saved : SaveFile) : Outcome Unit :=
  if saved.version = s.version then
    match s.cleared.replay saved.entries with
    | ⟨replayed, .ok ()⟩ => ⟨{ replayed with modified := false }, .ok ()⟩
    | ⟨replayed, .error e⟩ =>
      ⟨{ replayed with
          cells := s.cells, dependencies := s.dependencies, modified := s.modified }, .error e⟩
  else ⟨s, .error (.otherVersion s.version saved.version)⟩

/-- Replaces the cells of a sheet by those of a saved form. -/
def restoreText (s : Sheet) (text : String) : Outcome Unit :=
  match SaveFile.read text with
  | .ok saved => s.restore saved
  | .error fault => ⟨s, .error (.savedLine fault)⟩

/-! ## Files -/

variable {m : Type → Type} [Monad m]

/-- Replaces the cells of a sheet by those of a file. -/
def restoreFile (fs : FileSystem m) (s : Sheet) (path : String) : m (Outcome Unit) := do
  match ← fs.readText path with
  | .ok text => return s.restoreText text
  | .error e => return ⟨s, .error (.file e)⟩

/-- The sheet of a file, with the given settings. -/
def ofFile (fs : FileSystem m) (settings : Settings) (path : String) :
    m (Except Refusal Sheet) := do
  let outcome ← restoreFile fs (ofSettings settings) path
  return outcome.result.map fun () => outcome.sheet

/-- Writes a sheet to a file; after that it counts as not modified. -/
def writeFile (fs : FileSystem m) (s : Sheet) (path : String) : m (Outcome Unit) := do
  match ← fs.write path s.toText with
  | .ok () => return ⟨{ s with modified := false }, .ok ()⟩
  | .error e => return ⟨s, .error (.file e)⟩

end Worksheet.Sheet

namespace Worksheet.SaveFile

/-- The version tag of the sheet in a file. -/
def versionOfFile {m : Type → Type} [Monad m] (fs : FileSystem m) (path : String) :
    m (Except Refusal String) := do
  match ← fs.readText path with
  | .ok text =>
    match read text with
    | .ok saved => return .ok saved.version
    | .error fault => return .error (.savedLine fault)
  | .error e => return .error (.file e)

end Worksheet.SaveFile
