/-!
# Files

What the library asks of a file system: `FileSystem m` gives the operations in a monad `m`, so that
one program runs on real files and on a `FileTree` held as a value. Errors of files are values too.
-/

namespace Worksheet

/-- Why a file cannot be read or written. -/
inductive FileError where
  | notFound
  | notDirectory
  | isDirectory
  | notText
  | other (reason : String)
  deriving DecidableEq

/-- The wording of a file error. -/
def FileError.message : FileError → String
  | .notFound => "No such file or directory (os error 2)"
  | .notDirectory => "Not a directory (os error 20)"
  | .isDirectory => "Is a directory (os error 21)"
  | .notText => "stream did not contain valid UTF-8"
  | .other reason => reason

/-- Operations on files, named by their paths. -/
structure FileSystem (m : Type → Type) where
  /-- Whether there is a file or directory. -/
  hasPath : String → m Bool
  /-- The bytes of a file. -/
  read : String → m (Except FileError ByteArray)
  /-- Makes a text the content of a file, which need not exist yet. -/
  write : String → String → m (Except FileError Unit)

/-- The text of a file, which must be encoded in UTF-8. -/
def FileSystem.readText {m : Type → Type} [Monad m] (fs : FileSystem m) (path : String) :
    m (Except FileError String) := do
  match ← fs.read path with
  | .error e => return .error e
  | .ok bytes =>
    match String.fromUTF8? bytes with
    | some text => return .ok text
    | none => return .error .notText

end Worksheet
