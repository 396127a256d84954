import Worksheet.Formula.Token
import Worksheet.Name.Grammar
import Worksheet.Number.Numeral
import Worksheet.Text.Blank

/-!
# Pieces of a formula's text

`scan` cuts a text into pieces: blanks, lexemes, and stray text in which nothing else starts. A
lexeme is as long as the grammar of brackets, operators, words and decimal literals allows.

* `Lexeme.first?` splits the longest lexeme off the front of a text, if one starts there.
* `text_scan`: the pieces are the text, in order and without loss.
-/

namespace Worksheet

/-- A lexeme, with its text. -/
inductive Lexeme where
  | bracket (bracket : Bracket)
  | operator (operator : Operator)
  | word (text : List Char)
  | numeral (numeral : Number.Numeral)
  deriving DecidableEq

namespace Lexeme

/-- The lexeme as it was written. -/
def text : Lexeme → List Char
  | .bracket b => [b.symbol]
  | .operator o => [o.symbol]
  | .word w => w
  | .numeral n => n.text

/-- The bracket or operator that a character is. -/
def ofSymbol? (c : Char) : Option Lexeme :=
  if c = '(' then some (.bracket .opening)
  else if c = ')' then some (.bracket .closing)
  else if c = '+' then some (.operator .plus)
  else if c = '-' then some (.operator .minus)
  else if c = '*' then some (.operator .times)
  else if c = '/' then some (.operator .over)
  else none

theorem text_of_ofSymbol? {c : Char} {l : Lexeme} (h : ofSymbol? c = some l) : l.text = [c] := by
  unfold ofSymbol? at h
  repeat' split at h
  all_goals
    first
      | contradiction
      | (obtain rfl := Option.some.inj h; subst c; rfl)

/-- Splits the longest lexeme off the front of a text. -/
def first? : List Char → Option (Lexeme × List Char)
  | [] => none
  | c :: rest =>
    match ofSymbol? c with
    | some symbol => some (symbol, rest)
    | none =>
      if Name.startsIdentifier c then
        some (.word (c :: rest.takeWhile Name.continuesIdentifier),
          rest.dropWhile Name.continuesIdentifier)
      else (Number.Numeral.scan? (c :: rest)).map fun (n, rest) => (.numeral n, rest)

theorem text_append_of_first? {cs : List Char} {l : Lexeme} {rest : List Char}
    (h : first? cs = some (l, rest)) : l.text ++ rest = cs := by
  unfold first? at h
  split at h
  · contradiction
  · split at h
    · rename_i symbol hs
      simp only [Option.some.injEq, Prod.mk.injEq] at h
      obtain ⟨rfl, rfl⟩ := h
      simp [text_of_ofSymbol? hs]
    · split at h
      · simp only [Option.some.injEq, Prod.mk.injEq] at h
        obtain ⟨rfl, rfl⟩ := h
        simp [text]
      · simp only [Option.map_eq_some_iff, Prod.mk.injEq, Prod.exists] at h
        obtain ⟨n, r, hn, rfl, rfl⟩ := h
        exact Number.Numeral.text_append_of_scan? hn

theorem text_ne_nil_of_first? {cs : List Char} {l : Lexeme} {rest : List Char}
    (h : first? cs = some (l, rest)) : l.text ≠ [] := by
  unfold first? at h
  split at h
  · contradiction
  · split at h
    · rename_i symbol hs
      simp only [Option.some.injEq, Prod.mk.injEq] at h
      obtain ⟨rfl, rfl⟩ := h
      simp [text_of_ofSymbol? hs]
    · split at h
      · simp only [Option.some.injEq, Prod.mk.injEq] at h
        obtain ⟨rfl, rfl⟩ := h
        simp [text]
      · simp only [Option.map_eq_some_iff, Prod.mk.injEq, Prod.exists] at h
        obtain ⟨n, r, hn, rfl, rfl⟩ := h
        exact Number.Numeral.text_ne_nil_of_scan? hn

/-- Splitting a lexeme off leaves a shorter text. -/
theorem length_lt_of_first? {cs : List Char} {l : Lexeme} {rest : List Char}
    (h : first? cs = some (l, rest)) : rest.length < cs.length := by
  rw [← text_append_of_first? h, List.length_append]
  have := List.length_pos_iff.2 (text_ne_nil_of_first? h)
  omega

end Lexeme

/-- A piece of a formula's text. -/
inductive Piece where
  | blank (text : List Char)
  | lexeme (lexeme : Lexeme)
  | stray (text : List Char)
  deriving DecidableEq

namespace Piece

/-- The piece as it was written. -/
def text : Piece → List Char
  | .blank t => t
  | .lexeme l => l.text
  | .stray t => t

/-- Puts a stray character before the pieces that follow it. -/
def consStray (c : Char) : List Piece → List Piece
  | .stray t :: pieces => .stray (c :: t) :: pieces
  | pieces => .stray [c] :: pieces

/-- Cuts a text into pieces. -/
def scan (cs : List Char) : List Piece :=
  match cs with
  | [] => []
  | c :: rest =>
    if Text.isBlank c then
      .blank (c :: rest.takeWhile Text.isBlank) :: scan (rest.dropWhile Text.isBlank)
    else
      match _h : Lexeme.first? (c :: rest) with
      | some (l, after) => .lexeme l :: scan after
      | none => consStray c (scan rest)
termination_by cs.length
decreasing_by
  · have := (List.dropWhile_sublist Text.isBlank (l := rest)).length_le
    simp only [List.length_cons]
    omega
  · exact Lexeme.length_lt_of_first? ‹_›
  · simp

theorem flatMap_text_consStray (c : Char) (pieces : List Piece) :
    (consStray c pieces).flatMap text = c :: pieces.flatMap text := by
  unfold consStray
  split <;> simp [text]

/-- The pieces of a text are the text. -/
theorem text_scan (cs : List Char) : (scan cs).flatMap text = cs := by
  fun_induction scan cs with
  | case1 => rfl
  | case2 c rest _ ih => simp [text, ih]
  | case3 c rest _ l after h ih =>
    rw [List.flatMap_cons, ih]
    exact Lexeme.text_append_of_first? h
  | case4 c rest _ _ ih => rw [flatMap_text_consStray, ih]

end Piece

end Worksheet
