import Mathlib
import Worksheet.Name.Coordinate
import Worksheet.Proofs.Name.Identifier

/-!
# Names and coordinates

In bijective base 26 the digits go from 1 to 26. There is no digit zero, so that a number has one
spelling in capitals and the step from `Z` to `AA` carries nothing. The number of letters only grows
with each letter, so a reading whose steps must stay below the limit refuses letters exactly if
their number does not.

* `columnNumber_numberLetters`, `numberLetters_columnNumber`: numbers and capitals correspond.
* `lettersNumber?_eq`: which letters are refused.
* `ofName?_of_splits`, `ofName?_eq_some_iff`: what a name stands for.
* `names_stand_for_coordinates`: names and coordinates correspond below the limit.
-/

namespace Worksheet.Name

variable {c : Char} {letters digits : List Char} {name : String}

/-- The name is made of these letters and, after them, these digits, at least one of each. -/
structure Splits (name : String) (letters digits : List Char) : Prop where
  toList_eq : name.toList = letters ++ digits
  letters_ne_nil : letters ≠ []
  digits_ne_nil : digits ≠ []
  isAlpha : ∀ c ∈ letters, c.isAlpha = true
  isDigit : ∀ c ∈ digits, c.isDigit = true

/-! ## The parts of a name -/

theorem isAlpha_of_isDigit (h : c.isDigit = true) : c.isAlpha = false := by
  rw [Bool.eq_false_iff, ne_eq, isAlpha_iff_toNat]
  have hnine : c.toNat ≤ 57 := (Char.isDigit_iff_toNat.mp h).2
  omega

theorem Splits.splitLetters_eq (h : Splits name letters digits) :
    splitLetters name.toList = (letters, digits) := by
  have hstop : ∀ c ∈ digits.head?, c.isAlpha = false := fun c hc =>
    isAlpha_of_isDigit (h.isDigit c (List.mem_of_mem_head? hc))
  rw [h.toList_eq, splitLetters, Text.takeWhile_append h.isAlpha hstop,
    Text.dropWhile_append h.isAlpha hstop]

theorem isA1_iff : isA1 name = true ↔ ∃ letters digits, Splits name letters digits := by
  constructor
  · intro h
    simp only [isA1, splitLetters, Bool.and_eq_true, Bool.not_eq_true', List.isEmpty_eq_false_iff,
      List.all_eq_true] at h
    obtain ⟨⟨hletters, hdigits⟩, hall⟩ := h
    exact ⟨_, _, List.takeWhile_append_dropWhile.symm, hletters, hdigits,
      fun c hc => List.all_eq_true.mp List.all_takeWhile c hc, hall⟩
  · rintro ⟨letters, digits, h⟩
    have hdigits : digits.all Char.isDigit = true := List.all_eq_true.mpr h.isDigit
    rw [isA1, h.splitLetters_eq]
    simp [h.letters_ne_nil, h.digits_ne_nil, hdigits]

namespace Coordinate

/-- The number of letters, in either case, in bijective base 26. -/
def columnNumber (letters : List Char) : Nat := Nat.ofDigits 26 (letters.map letterNumber).reverse

/-- The number of decimal digits. -/
def rowNumber (digits : List Char) : Nat := Nat.ofDigitChars 10 digits 0

/-! ## Capitals -/

theorem letterNumber_toUpper (c : Char) : letterNumber c.toUpper = letterNumber c := by
  rw [letterNumber, Char.toUpper_toUpper_eq_toUpper, letterNumber]

theorem letterNumber_of_isUpper (h : c.isUpper = true) : letterNumber c = c.toNat - 65 + 1 := by
  rw [letterNumber, Char.toUpper_eq_of_not_isLower (Char.not_isLower_of_isUpper h)]
  rfl

/-- The capitals by their numbers, counted from zero. -/
theorem toNat_capital {n : Nat} (h : n < 26) : (Char.ofNat ('A'.toNat + n)).toNat = 65 + n := by
  have hvalid : Nat.isValidChar (65 + n) := by left; omega
  show (Char.ofNat (65 + n)).toNat = 65 + n
  rw [Char.toNat_ofNat, if_pos hvalid]

theorem isUpper_capital {n : Nat} (h : n < 26) : (Char.ofNat ('A'.toNat + n)).isUpper = true := by
  rw [isUpper_iff_toNat, toNat_capital h]
  omega

theorem letterNumber_capital {n : Nat} (h : n < 26) :
    letterNumber (Char.ofNat ('A'.toNat + n)) = n + 1 := by
  rw [letterNumber_of_isUpper (isUpper_capital h), toNat_capital h]
  omega

theorem exists_capital (h : c.isUpper = true) : ∃ n < 26, c = Char.ofNat ('A'.toNat + n) := by
  obtain ⟨hlow, hhigh⟩ := isUpper_iff_toNat.mp h
  refine ⟨c.toNat - 65, by omega, Char.toNat_inj.mp ?_⟩
  rw [toNat_capital (by omega)]
  omega

/-! ## Letters and numbers -/

theorem columnNumber_concat (letters : List Char) (c : Char) :
    columnNumber (letters ++ [c]) = columnNumber letters * 26 + letterNumber c := by
  rw [columnNumber, List.map_append, List.reverse_append]
  show Nat.ofDigits 26 (letterNumber c :: (letters.map letterNumber).reverse) = _
  rw [Nat.ofDigits_cons, Nat.add_comm, Nat.mul_comm, columnNumber]

theorem columnNumber_map_toUpper (letters : List Char) :
    columnNumber (letters.map Char.toUpper) = columnNumber letters := by
  rw [columnNumber, List.map_map, columnNumber]
  exact congrArg (fun f => Nat.ofDigits 26 (letters.map f).reverse) (funext letterNumber_toUpper)

theorem columnNumber_pos (h : letters ≠ []) : 0 < columnNumber letters := by
  rw [← List.dropLast_append_getLast h, columnNumber_concat, letterNumber]
  omega

theorem isUpper_of_mem_numberLetters (n : Nat) :
    ∀ c ∈ numberLetters n, c.isUpper = true := by
  induction n using numberLetters.induct with
  | case1 => simp [numberLetters]
  | case2 n ih =>
    rw [numberLetters]
    intro c hc
    obtain hc | hc := List.mem_append.mp hc
    · exact ih c hc
    · obtain rfl := List.mem_singleton.mp hc
      exact isUpper_capital (Nat.mod_lt n (by decide))

/-- **The letters of a number** stand for it. -/
theorem columnNumber_numberLetters (n : Nat) : columnNumber (numberLetters n) = n := by
  induction n using numberLetters.induct with
  | case1 => rw [numberLetters]; rfl
  | case2 n ih =>
    rw [numberLetters, columnNumber_concat, ih, letterNumber_capital (Nat.mod_lt n (by decide))]
    omega

/-- **Only one spelling in capitals** stands for a number. -/
theorem numberLetters_columnNumber (h : ∀ c ∈ letters, c.isUpper = true) :
    numberLetters (columnNumber letters) = letters := by
  induction letters using List.reverseRecOn with
  | nil => rw [columnNumber]; exact numberLetters.eq_1
  | append_singleton letters c ih =>
    obtain ⟨n, hn, rfl⟩ := exists_capital (h c (List.mem_concat_self ..))
    have hdiv : (columnNumber letters * 26 + n) / 26 = columnNumber letters := by omega
    have hmod : (columnNumber letters * 26 + n) % 26 = n := by omega
    rw [columnNumber_concat, letterNumber_capital hn, ← Nat.add_assoc, numberLetters, hdiv, hmod,
      ih fun c hc => h c (List.mem_append_left _ hc)]

/-- Letters in either case stand for what their capitals stand for. -/
theorem numberLetters_columnNumber_of_isAlpha (h : ∀ c ∈ letters, c.isAlpha = true) :
    numberLetters (columnNumber letters) = letters.map Char.toUpper := by
  rw [← columnNumber_map_toUpper]
  refine numberLetters_columnNumber fun c hc => ?_
  obtain ⟨d, hd, rfl⟩ := List.mem_map.mp hc
  rw [Char.isUpper_toUpper_eq_isAlpha]
  exact h d hd

/-! ## Reading below the limit -/

theorem bounded?_eq_some_iff {n m : Nat} : bounded? n = some m ↔ n < limit ∧ n = m := by
  rw [bounded?, Option.ite_none_right_eq_some, Option.some.injEq]

theorem bounded?_eq_none {n : Nat} (h : limit ≤ n) : bounded? n = none := if_neg (Nat.not_lt.mpr h)

/-- If the number with one more letter stays below the limit, then so does the step to it. -/
theorem appendLetter?_eq (n : Nat) (c : Char) :
    appendLetter? n c = bounded? (n * 26 + letterNumber c) := by
  rw [appendLetter?]
  by_cases h : n * 26 < limit
  · rw [bounded?_eq_some_iff.mpr ⟨h, rfl⟩, Option.bind_some]
  · rw [Nat.not_lt] at h
    rw [bounded?_eq_none h, bounded?_eq_none (Nat.le_add_right_of_le h), Option.bind_none]

/-- **Letters are refused** exactly if their number is not below the limit. -/
theorem lettersNumber?_eq (letters : List Char) :
    lettersNumber? letters = bounded? (columnNumber letters) := by
  induction letters using List.reverseRecOn with
  | nil => rfl
  | append_singleton letters c ih =>
    have hfold : lettersNumber? (letters ++ [c]) =
        (lettersNumber? letters).bind fun n => appendLetter? n c := by
      simp [lettersNumber?, List.foldlM_append]
    rw [hfold, ih, columnNumber_concat]
    by_cases h : columnNumber letters < limit
    · rw [bounded?_eq_some_iff.mpr ⟨h, rfl⟩, Option.bind_some, appendLetter?_eq]
    · -- The number of fewer letters is too great already.
      rw [Nat.not_lt] at h
      rw [bounded?_eq_none h, bounded?_eq_none (by omega), Option.bind_none]

theorem ofName?_of_splits (h : Splits name letters digits) {c : Coordinate} :
    ofName? name = some c ↔ columnNumber letters < limit ∧ rowNumber digits < limit ∧
      columnNumber letters = c.column + 1 ∧ rowNumber digits = c.row + 1 := by
  have hA1 : isA1 name = true := isA1_iff.mpr ⟨letters, digits, h⟩
  have hdigits : Nat.ofDigitChars 10 digits 0 = rowNumber digits := rfl
  unfold ofName?
  rw [if_pos hA1, h.splitLetters_eq]
  dsimp only
  rw [lettersNumber?_eq, hdigits]
  split
  · rename_i column row hcolumn hrow
    obtain ⟨hcolumn, hcolumn'⟩ := bounded?_eq_some_iff.mp hcolumn
    obtain ⟨hrow, hrow'⟩ := bounded?_eq_some_iff.mp hrow
    obtain ⟨r, k⟩ := c
    simp only [Option.some.injEq, mk.injEq]
    omega
  · rename_i hnone
    simp only [reduceCtorEq, false_iff]
    rintro ⟨hcolumn, hrow, hcolumn', hrow'⟩
    exact hnone c.column c.row (bounded?_eq_some_iff.mpr ⟨hcolumn, hcolumn'⟩)
      (bounded?_eq_some_iff.mpr ⟨hrow, hrow'⟩)

/-- **What a name stands for**: the numbers of its parts, counted from zero. -/
theorem ofName?_eq_some_iff {c : Coordinate} :
    ofName? name = some c ↔ ∃ letters digits, Splits name letters digits ∧
      columnNumber letters < limit ∧ rowNumber digits < limit ∧
      columnNumber letters = c.column + 1 ∧ rowNumber digits = c.row + 1 := by
  constructor
  · intro h
    have hA1 : isA1 name = true := by
      by_contra hnot
      rw [ofName?, if_neg hnot] at h
      contradiction
    obtain ⟨letters, digits, hsplits⟩ := isA1_iff.mp hA1
    exact ⟨letters, digits, hsplits, (ofName?_of_splits hsplits).mp h⟩
  · rintro ⟨letters, digits, hsplits, h⟩
    exact (ofName?_of_splits hsplits).mpr h

/-! ## The name of a coordinate -/

theorem rowNumber_toDigits (n : Nat) : rowNumber (Nat.toDigits 10 n) = n :=
  Nat.ofDigitChars_ten_toDigits

theorem splits_name (c : Coordinate) :
    Splits c.name (columnLetters c.column) (Nat.toDigits 10 (c.row + 1)) where
  toList_eq := String.toList_ofList
  letters_ne_nil h := by
    have hnumber := columnNumber_numberLetters (c.column + 1)
    rw [← columnLetters, h] at hnumber
    contradiction
  digits_ne_nil := Nat.toDigits_ne_nil
  isAlpha d hd := by
    have hupper := isUpper_of_mem_numberLetters _ d hd
    simp [Char.isAlpha, hupper]
  isDigit d hd := Nat.isDigit_of_mem_toDigits (by decide) (by decide) hd

/-- **The name of a coordinate** below the limit stands for it. -/
theorem ofName?_name {c : Coordinate} (hcolumn : c.column + 1 < limit) (hrow : c.row + 1 < limit) :
    ofName? c.name = some c := by
  rw [ofName?_of_splits c.splits_name, columnLetters, columnNumber_numberLetters,
    rowNumber_toDigits]
  exact ⟨hcolumn, hrow, rfl, rfl⟩

theorem eq_columnLetters_iff {column : Nat} :
    letters = columnLetters column ↔
      (∀ c ∈ letters, c.isUpper = true) ∧ columnNumber letters = column + 1 := by
  constructor
  · rintro rfl
    exact ⟨isUpper_of_mem_numberLetters _, columnNumber_numberLetters _⟩
  · rintro ⟨hupper, hnumber⟩
    rw [columnLetters, ← hnumber, numberLetters_columnNumber hupper]

/-- **Names and coordinates correspond** below the limit. A name stands for a coordinate exactly if
it is letters and then digits whose two numbers are at least one and below the limit. The
coordinate counts both from zero; its own name has the capitals of the letters and the row number
without zeros before it, and stands for it again. Every coordinate below the limit is read from its
name, and the letters of a column are the only capitals with its number. -/
theorem names_stand_for_coordinates :
    (∀ name c, ofName? name = some c ↔ ∃ letters digits, Splits name letters digits ∧
      (1 ≤ columnNumber letters ∧ columnNumber letters < limit) ∧
      (1 ≤ rowNumber digits ∧ rowNumber digits < limit) ∧
      c.column = columnNumber letters - 1 ∧ c.row = rowNumber digits - 1) ∧
    (∀ name letters digits c, Splits name letters digits → ofName? name = some c →
      (c.column + 1 < limit ∧ c.row + 1 < limit) ∧
      c.name.toList = letters.map Char.toUpper ++ Nat.toDigits 10 (rowNumber digits) ∧
      ofName? c.name = some c) ∧
    (∀ c : Coordinate, c.column + 1 < limit → c.row + 1 < limit → ofName? c.name = some c) ∧
    (∀ column letters, letters = columnLetters column ↔
      (∀ c ∈ letters, c.isUpper = true) ∧ columnNumber letters = column + 1) ∧
    Function.Injective columnLetters := by
  refine ⟨fun name c => ?_, fun name letters digits c hsplits h => ?_,
    fun c => ofName?_name, fun column letters => eq_columnLetters_iff, fun column column' h => ?_⟩
  · rw [ofName?_eq_some_iff]
    refine exists_congr fun letters => exists_congr fun digits => and_congr_right fun hsplits => ?_
    have hpos := columnNumber_pos hsplits.letters_ne_nil
    omega
  · obtain ⟨hcolumn, hrow, hcolumn', hrow'⟩ := (ofName?_of_splits hsplits).mp h
    rw [hcolumn'] at hcolumn
    rw [hrow'] at hrow
    refine ⟨⟨hcolumn, hrow⟩, ?_, ofName?_name hcolumn hrow⟩
    rw [c.splits_name.toList_eq, columnLetters, ← hcolumn', ← hrow',
      numberLetters_columnNumber_of_isAlpha hsplits.isAlpha]
  · have hnumber := (eq_columnLetters_iff.mp h).2
    rw [columnLetters, columnNumber_numberLetters] at hnumber
    exact Nat.succ.inj hnumber

/-- A place in the last column that can be read. -/
def lastColumn : Coordinate := ⟨699, limit - 2⟩

/-- The last column is read in mixed case, and the one after it is refused. -/
theorem lastColumn_stands_for_itself :
    ofName? "gkGWBYLWRXTLPO0700" = some lastColumn ∧
      lastColumn.name.toList =
        "gkGWBYLWRXTLPO".toList.map Char.toUpper ++ Nat.toDigits 10 (rowNumber "0700".toList) ∧
      ofName? lastColumn.name = some lastColumn ∧ ofName? "gkGWBYLWRXTLPP1" = none := by
  have hsplits : Splits "gkGWBYLWRXTLPO0700" "gkGWBYLWRXTLPO".toList "0700".toList :=
    ⟨by decide +kernel, by decide +kernel, by decide +kernel,
      List.all_eq_true.mp (by decide +kernel), List.all_eq_true.mp (by decide +kernel)⟩
  have hread : ofName? "gkGWBYLWRXTLPO0700" = some lastColumn := by decide +kernel
  obtain ⟨-, hname, hback⟩ := names_stand_for_coordinates.2.1 _ _ _ _ hsplits hread
  exact ⟨hread, hname, hback, by decide +kernel⟩

end Coordinate

end Worksheet.Name
