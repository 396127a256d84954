import Worksheet.Settings.Basic
import Worksheet.Toml.Assignment

/-!
# A reader of settings

Settings are read from a text of assignments. Every key is optional, none may come twice, and other
keys are refused. Of TOML this is the part that settings are written in: there are no tables, no
dotted keys, and no values but strings.
-/

namespace Worksheet

/-- Why a text holds no settings. -/
inductive SettingsError where
  | malformed
  | unknownKey (key : String)
  | duplicateKey (key : String)
  | unknownValue (key value : String)
  deriving DecidableEq

/-- The wording of a settings error. -/
def SettingsError.message : SettingsError → String
  | .malformed => "expected lines of the form key = \"value\""
  | .unknownKey key => s!"unknown key {key}"
  | .duplicateKey key => s!"duplicate key {key}"
  | .unknownValue key value => s!"unknown value {value} of {key}"

/-- The style of names that a word stands for. -/
def NameStyle.ofWord? : String → Option NameStyle
  | "identifier" => some .identifier
  | "a1" => some .a1
  | _ => none

/-- The letter case that a word stands for. -/
def LetterCase.ofWord? : String → Option LetterCase
  | "none" => some .asWritten
  | "upper" => some .upper
  | "lower" => some .lower
  | _ => none

namespace Settings

/-- What a key is set to, or a default. -/
def get {α : Type} (assignments : List Toml.Assignment) (key : String) (default : α)
    (ofWord? : String → Option α) : Except SettingsError α :=
  match assignments.filter fun assignment => assignment.key = key with
  | [] => .ok default
  | [assignment] =>
    match ofWord? assignment.value with
    | some a => .ok a
    | none => .error (.unknownValue key assignment.value)
  | _ => .error (.duplicateKey key)

/-- The keys of settings. -/
def keys : List String := ["name_style", "normalize", "version"]

/-- Reads settings from a text. -/
def read (text : String) : Except SettingsError Settings := do
  let some assignments := Toml.read? text | throw .malformed
  match assignments.find? fun assignment => !keys.contains assignment.key with
  | some assignment => throw (.unknownKey assignment.key)
  | none =>
    let nameStyle ← get assignments "name_style" .identifier NameStyle.ofWord?
    let letterCase ← get assignments "normalize" .asWritten LetterCase.ofWord?
    let version ← get assignments "version" "default" some
    return { nameStyle, letterCase, version }

/-- The reader of assignments. -/
def reader : SettingsReader := fun text => (read text).mapError SettingsError.message

end Settings

end Worksheet
