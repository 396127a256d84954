/-!
# Quoted texts

Inside quotes a backslash, a quote and a newline are written with a backslash before them, the
newline as `n`. Reading is more tolerant than writing: a backslash before any other character, or
at the end, stands for itself.

* `decode_encode`: reading gives back what was written, character for character.
-/

namespace Worksheet.Text.Quoted

/-- A character as it is written inside quotes. -/
def encodeChar (c : Char) : List Char :=
  if c = '\\' then ['\\', '\\']
  else if c = '"' then ['\\', '"']
  else if c = '\n' then ['\\', 'n']
  else [c]

/-- A text as it is written inside quotes. -/
def encode (text : List Char) : List Char := text.flatMap encodeChar

/-- What a backslash and the character after it stand for. -/
def decodePair (c : Char) : List Char :=
  if c = '\\' then ['\\']
  else if c = '"' then ['"']
  else if c = 'n' then ['\n']
  else ['\\', c]

/-- The text that is written inside quotes. -/
def decode : List Char → List Char
  | [] => []
  | [c] => [c]
  | c :: d :: rest =>
    if c = '\\' then decodePair d ++ decode rest else c :: decode (d :: rest)

theorem decode_cons {c : Char} (h : c ≠ '\\') (rest : List Char) :
    decode (c :: rest) = c :: decode rest := by
  cases rest <;> simp [decode, h]

theorem decode_encodeChar_append (c : Char) (rest : List Char) :
    decode (encodeChar c ++ rest) = c :: decode rest := by
  unfold encodeChar
  split
  · subst c
    simp [decode, decodePair]
  · split
    · subst c
      simp [decode, decodePair]
    · split
      · subst c
        simp [decode, decodePair]
      · rename_i h _ _
        exact decode_cons h rest

/-- Reading gives back what was written. -/
theorem decode_encode (text : List Char) : decode (encode text) = text := by
  induction text with
  | nil => rfl
  | cons c rest ih =>
    rw [encode, List.flatMap_cons, decode_encodeChar_append]
    exact congrArg (c :: ·) ih

end Worksheet.Text.Quoted
