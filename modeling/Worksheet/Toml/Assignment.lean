import Worksheet.Toml.Text

/-!
# Assignments in TOML

Settings are written in TOML as assignments `key = value` whose values are strings. This module
reads texts of such lines, with bare and quoted keys, comments and blank lines. Tables, dotted keys
and values of other types are refused; no settings use them.
-/

namespace Worksheet.Toml

/-- What a line gives a key. -/
structure Assignment where
  key : String
  value : String
  deriving DecidableEq

/-- A character of a key without quotes. -/
def isBare (c : Char) : Bool := c.isAlphanum || c == '_' || c == '-'

/-- Reads a key: a bare one, or a string of one line. -/
def key? (text : List Char) : Option (String × List Char) :=
  match opening? text with
  | some (kind, rest) =>
    if kind.multiline then none
    else (body? kind rest.length rest).map fun (key, rest) => (String.ofList key, rest)
  | none =>
    let key := text.takeWhile isBare
    if key.isEmpty then none else some (String.ofList key, text.dropWhile isBare)

/-- Goes to the start of the next line, over spaces and a comment. -/
def endLine? (text : List Char) : Option (List Char) :=
  let text := text.dropWhile isSpace
  let text := if text.head? = some '#' then text.dropWhile isPlain else text
  match text with
  | [] => some []
  | c :: rest => if c = '\n' then some rest else none

/-- Reads an assignment, up to the start of the next line. -/
def assignment? (text : List Char) : Option (Assignment × List Char) := do
  let (key, text) ← key? text
  match text.dropWhile isSpace with
  | '=' :: text =>
    let (value, text) ← string? (text.dropWhile isSpace)
    return (⟨key, String.ofList value⟩, ← endLine? text)
  | _ => none

/-- Reads the lines that are left. Every line takes at least one character, so the length of the
text is fuel enough. -/
def assignments? : Nat → List Char → Option (List Assignment)
  | _, [] => some []
  | 0, _ => none
  | fuel + 1, text =>
    match endLine? text with
    | some rest => assignments? fuel rest
    | none => do
      let (assignment, rest) ← assignment? (text.dropWhile isSpace)
      return assignment :: (← assignments? fuel rest)

/-- Reads a text, which may start with a byte order mark. -/
def read? (text : String) : Option (List Assignment) := do
  let chars ← unifyNewlines? text.toList
  let chars := if chars.head? = some '\uFEFF' then chars.drop 1 else chars
  assignments? chars.length chars

end Worksheet.Toml
