import Worksheet.Name.Policy

/-!
# Settings

Settings choose a style of names, the letter case of names, and the version tag of saved sheets.
They are kept in files, and what reads the text of one is a `SettingsReader`.
-/

namespace Worksheet

/-- Which names a sheet accepts. -/
inductive NameStyle where
  | identifier
  | a1
  deriving DecidableEq

/-- The letter case that names are brought to. -/
inductive LetterCase where
  | asWritten
  | upper
  | lower
  deriving DecidableEq

/-- The settings of a sheet. -/
structure Settings where
  nameStyle : NameStyle := .identifier
  letterCase : LetterCase := .asWritten
  version : String := "default"
  deriving DecidableEq

instance : Inhabited Settings := ⟨{}⟩

/-- A way to read the text of a settings file: the settings that it holds, or in words why it holds
none. -/
abbrev SettingsReader := String → Except String Settings

/-- Whether a name is of a style. -/
def NameStyle.accepts : NameStyle → String → Bool
  | .identifier => Name.isIdentifier
  | .a1 => Name.isA1

/-- Brings a name to one spelling; only letters of ASCII have another case. -/
def LetterCase.apply : LetterCase → String → String
  | .asWritten => id
  | .upper => fun name => name.map Char.toUpper
  | .lower => fun name => name.map Char.toLower

/-- The naming policy of a sheet with these settings. -/
def Settings.policy (s : Settings) : NamePolicy := ⟨s.letterCase.apply, s.nameStyle.accepts⟩

end Worksheet
