import Worksheet.CommandLine.Session
import Worksheet.Settings.Reader

/-!
# The program

Runs a session on the files of the machine, prints its report and exits with its code.
-/

namespace Worksheet

/-- A file error of the machine. -/
def FileError.ofSystem : IO.Error → FileError
  | .noFileOrDirectory .. => .notFound
  | .inappropriateType _ code _ => if code = 20 then .notDirectory else .isDirectory
  | e => .other e.toString

/-- The files of the machine. -/
def machineFiles : FileSystem IO where
  hasPath path := do
    try
      let _ ← IO.FS.Handle.mk path .read
      return true
    catch e =>
      match FileError.ofSystem e with
      | .notFound => return false
      | .notDirectory => return false
      | _ => return true
  read path := do
    try return .ok (← IO.FS.readBinFile path)
    catch e => return .error (.ofSystem e)
  write path text := do
    try
      IO.FS.writeFile path text
      return .ok ()
    catch e => return .error (.ofSystem e)

end Worksheet

/-- Runs the program. -/
def main (arguments : List String) : IO UInt32 := do
  let userConfig := Worksheet.CommandLine.userConfig?
    (← IO.getEnv "XDG_CONFIG_HOME") (← IO.getEnv "HOME")
  let report ← Worksheet.CommandLine.run Worksheet.Settings.reader Worksheet.machineFiles userConfig
    arguments
  IO.print report.output
  IO.eprint report.errors
  return report.code
