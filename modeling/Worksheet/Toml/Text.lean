/-!
# Strings in TOML

The four kinds of strings: in quotes or apostrophes, with escapes or without, and both also in
threes around several lines.
-/

namespace Worksheet.Toml

/-- Turns each carriage return with a newline after it into the newline; no other carriage return
may stand in a text. -/
def unifyNewlines? : List Char → Option (List Char)
  | [] => some []
  | ['\r'] => none
  | '\r' :: c :: rest => if c = '\n' then (unifyNewlines? rest).map ('\n' :: ·) else none
  | c :: rest => (unifyNewlines? rest).map (c :: ·)

/-- A space or a tab. -/
def isSpace (c : Char) : Bool := c == ' ' || c == '\t'

/-- A character that may stand in a comment, or unescaped in a string of one line. -/
def isPlain (c : Char) : Bool := c == '\t' || (0x20 ≤ c.toNat && c.toNat != 0x7F)

/-- One of the four kinds of strings. -/
structure StringKind where
  quote : Char
  escapes : Bool
  multiline : Bool

/-- The kind of string that starts a text, and the text after its opening quotes. A newline right
after three opening quotes is no part of the string. -/
def opening? : List Char → Option (StringKind × List Char)
  | [] => none
  | quote :: rest =>
    if quote = '"' ∨ quote = '\'' then
      let escapes := quote == '"'
      if [quote, quote].isPrefixOf rest then
        let body := rest.drop 2
        some (⟨quote, escapes, true⟩, if body.head? = some '\n' then body.drop 1 else body)
      else some (⟨quote, escapes, false⟩, rest)
    else none

/-- The value of a hexadecimal digit. -/
def hexDigit? (c : Char) : Option Nat :=
  if c.isDigit then some (c.toNat - '0'.toNat)
  else if 'a' ≤ c ∧ c ≤ 'f' then some (c.toNat - 'a'.toNat + 10)
  else if 'A' ≤ c ∧ c ≤ 'F' then some (c.toNat - 'A'.toNat + 10)
  else none

/-- The character whose code is written by `count` hexadecimal digits. -/
def scalar? (count : Nat) (text : List Char) : Option Char := do
  let digits ← (text.take count).mapM hexDigit?
  let code := digits.foldl (fun n d => n * 16 + d) 0
  if digits.length = count ∧ code.isValidChar then some (Char.ofNat code) else none

/-- What a backslash stands for, by the text after it, and the rest of that text. In a string of
several lines a backslash at the end of a line takes away the newline and all blanks after it. -/
def escape? (multiline : Bool) : List Char → Option (List Char × List Char)
  | [] => none
  | c :: rest =>
    if c = 'b' then some (['\x08'], rest)
    else if c = 't' then some (['\t'], rest)
    else if c = 'n' then some (['\n'], rest)
    else if c = 'f' then some (['\x0c'], rest)
    else if c = 'r' then some (['\r'], rest)
    else if c = '"' then some (['"'], rest)
    else if c = '\\' then some (['\\'], rest)
    else if c = 'u' then (scalar? 4 rest).map fun char => ([char], rest.drop 4)
    else if c = 'U' then (scalar? 8 rest).map fun char => ([char], rest.drop 8)
    else if multiline && ((c :: rest).dropWhile isSpace).head? = some '\n' then
      some ([], rest.dropWhile fun d => isSpace d || d == '\n')
    else none

/-- Reads a string from after its opening quotes up to its closing ones. In a string of several
lines up to two quotes may stand right before the closing three. Every step takes at least one
character, so the length of the text is fuel enough. -/
def body? (kind : StringKind) : Nat → List Char → Option (List Char × List Char)
  | 0, _ => none
  | _, [] => none
  | fuel + 1, c :: rest =>
    let continue? (text after : List Char) : Option (List Char × List Char) :=
      (body? kind fuel after).map fun (more, rest) => (text ++ more, rest)
    if c = kind.quote then
      if kind.multiline then
        let run := min 5 ((c :: rest).takeWhile (· = kind.quote)).length
        let after := (c :: rest).drop run
        if 3 ≤ run then some (List.replicate (run - 3) c, after)
        else continue? (List.replicate run c) after
      else some ([], rest)
    else if c = '\\' && kind.escapes then
      match escape? kind.multiline rest with
      | some (text, after) => continue? text after
      | none => none
    else if isPlain c || (kind.multiline && c == '\n') then continue? [c] rest
    else none

/-- Reads a string. -/
def string? (text : List Char) : Option (List Char × List Char) := do
  let (kind, rest) ← opening? text
  body? kind rest.length rest

end Worksheet.Toml
