import Worksheet.Dependencies.UpdateOrder
import Worksheet.File.Basic
import Worksheet.Formula.Error
import Worksheet.Number.Shortest
import Worksheet.SaveFile.Basic

/-!
# Refusals

Why an operation on a sheet is refused, and the wording of it.
-/

namespace Worksheet

/-- Why an operation on a sheet is refused. -/
inductive Refusal where
  | illegalName (name : String)
  | missingContent
  | notFinite (value : Number.Binary64)
  | formula (error : ParseError)
  | closesCycle (cell : String) (cycle : Cycle)
  | dependency (error : DependencyError)
  | file (error : FileError)
  | savedLine (fault : SaveFile.LineFault)
  | savedEntry (line : Nat) (name : String) (reason : Refusal)
  | otherVersion (expected found : String)
  | settings (message : String)
  deriving DecidableEq

namespace Refusal

/-- The wording of a refusal. -/
def message : Refusal → String
  | .illegalName name => s!"Invalid cell name '{name}'"
  | .missingContent => "Missing cell content"
  | .notFinite value => s!"Number {value} is not finite"
  | .formula e => s!"Formula error: {e.message}"
  | .closesCycle cell cycle => s!"Circular dependency detected at {cell}: {cycle.message}"
  | .dependency e => s!"Dependency graph error: {e.message}"
  | .file e => s!"IO error: {e.message}"
  | .savedLine ⟨line, fault⟩ => s!"Parse error at line {line}: {fault.message}"
  | .savedEntry line name reason => s!"Parse error at line {line}: {name}: {reason.message}"
  | .otherVersion expected found => s!"Version mismatch: expected '{expected}', found '{found}'"
  | .settings message => s!"Config error: {message}"

/-- The wording of the error that a refusal wraps, if it wraps one. -/
def cause? : Refusal → Option String
  | .formula e => some e.message
  | .dependency e => some e.message
  | .file e => some e.message
  | .settings message => some message
  | _ => none

end Refusal

end Worksheet
