import Worksheet.Cell
import Worksheet.Name.FileOrder
import Worksheet.SaveFile.Basic
import Worksheet.Text.Quoted

/-!
# Writing saved sheets

A saved sheet has a banner line, a line with the version tag, and then one line `NAME: VALUE` for
each cell that is not empty, in the file order of names. Texts are quoted, numbers are written in
full, and formulas follow a `=`.
-/

namespace Worksheet.SaveFile

/-- Contents as they are written. -/
def valueText : Contents → List Char
  | .text s => '"' :: Text.Quoted.encode s.toList ++ ['"']
  | contents => contents.input.toList

/-- The line of a cell. -/
def entryLine (name : String) (contents : Contents) : List Char :=
  name.toList ++ [':', ' '] ++ valueText contents

/-- The cells that are written, in order. -/
def writtenCells (cells : List (String × Contents)) : List (String × Contents) :=
  (Name.sortInFileOrder Prod.fst cells).filter fun (_, contents) => !contents.isEmpty

/-- The line with the version tag. -/
def versionLine (version : String) : List Char := versionWord ++ [' '] ++ version.toList

/-- The lines of a saved sheet. -/
def writtenLines (version : String) (cells : List (String × Contents)) : List (List Char) :=
  banner :: versionLine version ::
    (writtenCells cells).map fun (name, contents) => entryLine name contents

/-- The text of a saved sheet; every line ends with a newline. -/
def write (version : String) (cells : List (String × Contents)) : String :=
  String.ofList ((writtenLines version cells).flatMap (· ++ ['\n']))

end Worksheet.SaveFile
