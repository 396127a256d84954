import Worksheet.Number.Binary64

/-!
# Reading decimal literals

A `Numeral` is a decimal literal as it is written: digits with an optional point, at least one
digit in all, and an optional exponent that must be complete to count.

* `Numeral.scan?` splits the longest literal off the front of a text.
* `Numeral.text` is the text of a literal; `text_append_of_scan?` says that splitting loses nothing.
* `Numeral.magnitude?` is the double nearest to the exact value of a literal.
* `Binary64.read?` reads a whole text: a literal, `inf`, `infinity` or `nan` in any case, with an
  optional sign.
-/

namespace Worksheet.Number

/-- The exponent of a decimal literal: `e` or `E`, an optional sign, and digits. -/
structure Exponent where
  mark : Char
  sign : Option Char
  digits : List Char
  deriving DecidableEq

namespace Exponent

/-- The exponent as it was written. -/
def text (e : Exponent) : List Char := e.mark :: (e.sign.toList ++ e.digits)

/-- The power of ten. -/
def value (e : Exponent) : Int :=
  let size : Nat := Nat.ofDigitChars 10 e.digits 0
  if e.sign = some '-' then -(size : Int) else size

/-- Splits an optional sign off the front of a text. -/
def scanSign : List Char → Option Char × List Char
  | '+' :: rest => (some '+', rest)
  | '-' :: rest => (some '-', rest)
  | rest => (none, rest)

/-- Splits a complete exponent off the front of a text. -/
def scan? : List Char → Option (Exponent × List Char)
  | [] => none
  | mark :: tail =>
    if mark = 'e' ∨ mark = 'E' then
      let (sign, rest) := scanSign tail
      let digits := rest.takeWhile Char.isDigit
      if digits.isEmpty then none
      else some (⟨mark, sign, digits⟩, rest.dropWhile Char.isDigit)
    else none

theorem scanSign_append (text : List Char) :
    (scanSign text).1.toList ++ (scanSign text).2 = text := by
  unfold scanSign
  split <;> simp

theorem text_append_of_scan? {text : List Char} {e : Exponent} {rest : List Char}
    (h : scan? text = some (e, rest)) : e.text ++ rest = text := by
  unfold scan? at h
  split at h
  · contradiction
  · rename_i mark tail
    have sign := scanSign_append tail
    generalize scanSign tail = parts at h sign
    obtain ⟨s, r⟩ := parts
    dsimp only at h sign
    split at h
    · split at h
      · contradiction
      · simp only [Option.some.injEq, Prod.mk.injEq] at h
        obtain ⟨rfl, rfl⟩ := h
        simp [Exponent.text, sign]
    · contradiction

end Exponent

/-- A decimal literal as it is written. -/
structure Numeral where
  /-- The digits before the point. -/
  whole : List Char
  /-- The digits after the point, if there is one. -/
  decimals : Option (List Char)
  exponent : Option Exponent
  deriving DecidableEq

namespace Numeral

/-- The literal without its exponent, as it was written. -/
def mantissaText (n : Numeral) : List Char :=
  n.whole ++ match n.decimals with
    | some decimals => '.' :: decimals
    | none => []

/-- The literal as it was written. -/
def text (n : Numeral) : List Char :=
  n.mantissaText ++ match n.exponent with
    | some exponent => exponent.text
    | none => []

/-- Completes a mantissa by the exponent at the front of `rest`, if there is one. -/
def withExponent (whole : List Char) (decimals : Option (List Char)) (rest : List Char) :
    Numeral × List Char :=
  match Exponent.scan? rest with
  | some (exponent, rest) => (⟨whole, decimals, some exponent⟩, rest)
  | none => (⟨whole, decimals, none⟩, rest)

/-- Splits the longest decimal literal off the front of a text. -/
def scan? (text : List Char) : Option (Numeral × List Char) :=
  let whole := text.takeWhile Char.isDigit
  match text.dropWhile Char.isDigit with
  | '.' :: tail =>
    let decimals := tail.takeWhile Char.isDigit
    if whole.isEmpty && decimals.isEmpty then none
    else some (withExponent whole (some decimals) (tail.dropWhile Char.isDigit))
  | rest => if whole.isEmpty then none else some (withExponent whole none rest)

theorem text_append_withExponent (whole : List Char) (decimals : Option (List Char))
    (rest : List Char) :
    (withExponent whole decimals rest).1.text ++ (withExponent whole decimals rest).2
      = mantissaText ⟨whole, decimals, none⟩ ++ rest := by
  unfold withExponent
  split
  · rename_i h
    have := Exponent.text_append_of_scan? h
    simp [text, mantissaText, ← this]
  · simp [text, mantissaText]

/-- Splitting a literal off loses nothing. -/
theorem text_append_of_scan? {cs : List Char} {n : Numeral} {rest : List Char}
    (h : scan? cs = some (n, rest)) : n.text ++ rest = cs := by
  unfold scan? at h
  have whole := List.takeWhile_append_dropWhile (p := Char.isDigit) (l := cs)
  split at h
  · rename_i tail hcs
    have decimals := List.takeWhile_append_dropWhile (p := Char.isDigit) (l := tail)
    dsimp only at h
    split at h
    · contradiction
    · have := text_append_withExponent (cs.takeWhile Char.isDigit)
        (some (tail.takeWhile Char.isDigit)) (tail.dropWhile Char.isDigit)
      simp only [Option.some.injEq] at h
      rw [h] at this
      simp only [mantissaText, List.append_assoc, List.cons_append, decimals, ← hcs, whole] at this
      exact this
  · dsimp only at h
    split at h
    · contradiction
    · have := text_append_withExponent (cs.takeWhile Char.isDigit) none
        (cs.dropWhile Char.isDigit)
      simp only [Option.some.injEq] at h
      rw [h] at this
      simpa [mantissaText, whole] using this

/-- A literal has at least one character. -/
theorem text_ne_nil_of_scan? {cs : List Char} {n : Numeral} {rest : List Char}
    (h : scan? cs = some (n, rest)) : n.text ≠ [] := by
  unfold scan? withExponent at h
  split at h <;> dsimp only at h <;> split at h
  · contradiction
  · simp only [Option.some.injEq] at h
    split at h <;> obtain ⟨rfl, rfl⟩ := h <;> simp [text, mantissaText]
  · contradiction
  · simp only [Option.some.injEq] at h
    split at h <;> obtain ⟨rfl, rfl⟩ := h <;> simp_all [text, mantissaText]

/-- All digits of the mantissa, read as one number. -/
def digits (n : Numeral) : Nat :=
  Nat.ofDigitChars 10 (n.whole ++ n.decimals.getD []) 0

/-- The power of ten that the last digit of the mantissa stands for. -/
def scale (n : Numeral) : Int :=
  (n.exponent.elim 0 Exponent.value) - ((n.decimals.getD []).length : Nat)

end Numeral

/-- The magnitude nearest to `digits · 10 ^ scale`, ties to even; `none` on overflow. From
`10 ^ 401` on every product overflows, and below `10 ^ -400` every product rounds to zero, so
powers of ten stay small. -/
def Magnitude.ofDecimal? (digits : Nat) (scale : Int) : Option Magnitude :=
  if digits = 0 then some .zero
  else if 400 < scale then none
  else if scale + digits.log2 < -400 then some .zero
  else Magnitude.round? (digits * Nat.pow 10 (scale + 1074).toNat)
    (Magnitude.atomsPerUnit * Nat.pow 10 (-(scale + 1074)).toNat)

/-- The magnitude nearest to the value of a literal; `none` when that is no finite double. -/
def Numeral.magnitude? (n : Numeral) : Option Magnitude :=
  Magnitude.ofDecimal? n.digits n.scale

namespace Binary64

/-- Reads a number without a sign. -/
def readUnsigned? (text : List Char) : Option Binary64 :=
  let word := text.map Char.toLower
  if word = ['i', 'n', 'f'] ∨ word = ['i', 'n', 'f', 'i', 'n', 'i', 't', 'y'] then
    some (.infinite false)
  else if word = ['n', 'a', 'n'] then some .nan
  else match Numeral.scan? text with
    | some (n, []) => some <| match n.magnitude? with
      | some m => .finite false m
      | none => .infinite false
    | _ => none

/-- Reads a number: an optional sign, then a decimal literal, `inf`, `infinity` or `nan`, and
nothing else. -/
def read? : List Char → Option Binary64
  | '-' :: text => (readUnsigned? text).map neg
  | '+' :: text => readUnsigned? text
  | text => readUnsigned? text

end Binary64

end Worksheet.Number
