/-!
# Grammars of names

The names that formulas and sheets know are identifiers: a letter or underscore, then letters,
digits and underscores, all of ASCII. A sheet may be restricted to the coordinate style of names,
letters followed by digits.
-/

namespace Worksheet.Name

/-- A character that can start an identifier. -/
def startsIdentifier (c : Char) : Bool := c.isAlpha || c == '_'

/-- A character that can stand in an identifier after its first. -/
def continuesIdentifier (c : Char) : Bool := c.isAlphanum || c == '_'

/-- Whether the characters form an identifier. -/
def identifierChars : List Char → Bool
  | [] => false
  | first :: rest => startsIdentifier first && rest.all continuesIdentifier

/-- A letter or underscore followed by letters, digits or underscores. -/
def isIdentifier (name : String) : Bool := identifierChars name.toList

/-- The letters at the start of a name, and the rest. -/
def splitLetters (name : List Char) : List Char × List Char :=
  (name.takeWhile Char.isAlpha, name.dropWhile Char.isAlpha)

/-- Letters followed by digits, at least one of each. -/
def isA1 (name : String) : Bool :=
  let (letters, digits) := splitLetters name.toList
  !letters.isEmpty && !digits.isEmpty && digits.all Char.isDigit

end Worksheet.Name
