import Mathlib.Data.List.DropRight
import Worksheet.Text.Blank
import Worksheet.Text.Lines

/-!
# Cutting texts

* `takeWhile_append`, `dropWhile_append`: a run of characters ends where a character of another
  kind follows.
* `takeWhile_ne_append`, `dropWhile_ne_append`: a text is cut at the first of some character.
* `trim_eq_self`: a text without blanks at its ends is its own trim.
* `trim_trimRight`: blanks at the end do not change the trim.
* `trim_blanks_append`, `trim_append_blanks`: neither do blanks that are added at the ends.
* `lines_flatMap`: lines that were ended by newlines are cut apart again.
-/

namespace Worksheet.Text

/-! ## Runs -/

section Runs

variable {p : Char → Bool} {run rest : List Char}

theorem takeWhile_append (hrun : ∀ c ∈ run, p c = true) (hrest : ∀ c ∈ rest.head?, p c = false) :
    (run ++ rest).takeWhile p = run := by
  have hstop : rest.takeWhile p = [] := by
    cases rest with
    | nil => rfl
    | cons c rest => simp [hrest c rfl]
  rw [List.takeWhile_append_of_pos hrun, hstop, List.append_nil]

theorem dropWhile_eq_self (hrest : ∀ c ∈ rest.head?, p c = false) : rest.dropWhile p = rest := by
  cases rest with
  | nil => rfl
  | cons c rest => simp [hrest c rfl]

theorem dropWhile_append (hrun : ∀ c ∈ run, p c = true) (hrest : ∀ c ∈ rest.head?, p c = false) :
    (run ++ rest).dropWhile p = rest := by
  rw [List.dropWhile_append_of_pos hrun, dropWhile_eq_self hrest]

end Runs

section Separator

variable {c : Char} {run : List Char}

theorem decide_ne_of_notMem (h : c ∉ run) : ∀ d ∈ run, decide (d ≠ c) = true := by
  intro d hd
  rw [decide_eq_true_eq]
  rintro rfl
  exact h hd

theorem decide_ne_head (c : Char) (rest : List Char) :
    ∀ d ∈ (c :: rest).head?, decide (d ≠ c) = false := by
  rintro d ⟨⟩
  rw [decide_eq_false_iff_not, not_not]

theorem takeWhile_ne_append (h : c ∉ run) (rest : List Char) :
    (run ++ c :: rest).takeWhile (· ≠ c) = run :=
  takeWhile_append (decide_ne_of_notMem h) (decide_ne_head c rest)

theorem dropWhile_ne_append (h : c ∉ run) (rest : List Char) :
    (run ++ c :: rest).dropWhile (· ≠ c) = c :: rest :=
  dropWhile_append (decide_ne_of_notMem h) (decide_ne_head c rest)

theorem takeWhile_ne_of_notMem (h : c ∉ run) : run.takeWhile (· ≠ c) = run :=
  List.takeWhile_eq_self_iff.mpr (decide_ne_of_notMem h)

theorem dropWhile_ne_of_notMem (h : c ∉ run) : run.dropWhile (· ≠ c) = [] :=
  List.dropWhile_eq_nil_iff.mpr (decide_ne_of_notMem h)

end Separator

/-! ## Blanks -/

/-- The printable characters of ASCII other than the space are no blanks. -/
theorem isBlank_eq_false {c : Char} (h : 33 ≤ c.toNat) (h' : c.toNat ≤ 126) :
    isBlank c = false := by
  simp only [isBlank, Bool.or_eq_false_iff, Bool.and_eq_false_iff, decide_eq_false_iff_not,
    beq_eq_false_iff_ne]
  omega

variable {text : List Char}

/-- **A text without blanks at its ends** is its own trim. -/
theorem trim_eq_self (hfirst : ∀ c ∈ text.head?, isBlank c = false)
    (hlast : ∀ c ∈ text.getLast?, isBlank c = false) : trim text = text := by
  have hreverse : text.reverse.dropWhile isBlank = text.reverse :=
    dropWhile_eq_self (by rwa [List.head?_reverse])
  rw [trim, trimLeft, dropWhile_eq_self hfirst, trimRight, hreverse, List.reverse_reverse]

theorem trim_cons {c : Char} (hc : isBlank c = true) : trim (c :: text) = trim text := by
  rw [trim, trim, trimLeft, trimLeft, List.dropWhile_cons_of_pos hc]

theorem trimRight_trimRight : trimRight (trimRight text) = trimRight text :=
  List.rdropWhile_idempotent isBlank text

/-- Blanks at the end are dropped up to the text before them, and there too if nothing is left. -/
theorem trimRight_append (start : List Char) :
    trimRight (start ++ text) =
      if trimRight text = [] then trimRight start else start ++ trimRight text := by
  have hempty : (text.reverse.dropWhile isBlank).isEmpty = true ↔ trimRight text = [] := by
    rw [List.isEmpty_iff, trimRight, List.reverse_eq_nil_iff]
  rw [trimRight, List.reverse_append, List.dropWhile_append]
  simp only [hempty]
  split
  · rfl
  · rw [List.reverse_append, List.reverse_reverse]
    rfl

theorem trimRight_append_of_solid {start : List Char} (hstart : trimRight start = start) :
    trimRight (start ++ text) = start ++ trimRight text := by
  rw [trimRight_append]
  split
  · rename_i hempty
    rw [hempty, List.append_nil, hstart]
  · rfl

theorem trimRight_singleton {c : Char} (hc : isBlank c = false) : trimRight [c] = [c] := by
  simp [trimRight, hc]

theorem trim_cons_of_not {c : Char} (hc : isBlank c = false) :
    trim (c :: text) = c :: trimRight text := by
  rw [trim, trimLeft, dropWhile_eq_self (by rintro _ ⟨⟩; exact hc)]
  exact trimRight_append_of_solid (trimRight_singleton hc)

/-- **Blanks at the end do not change the trim.** -/
theorem trim_trimRight (text : List Char) : trim (trimRight text) = trim text := by
  induction text with
  | nil => rfl
  | cons c text ih =>
    by_cases hc : isBlank c = true
    · rw [trim_cons hc, ← ih, ← List.singleton_append, trimRight_append]
      split
      · rename_i hempty
        rw [hempty]
        simp [trimRight, hc]
      · exact trim_cons hc
    · rw [Bool.not_eq_true] at hc
      have hright : trimRight (c :: text) = c :: trimRight text :=
        trimRight_append_of_solid (trimRight_singleton hc)
      rw [hright, trim_cons_of_not hc, trim_cons_of_not hc, trimRight_trimRight]

/-! ## Blanks that are added -/

section Added

variable {start blanks : List Char}

theorem trimLeft_blanks (h : ∀ c ∈ blanks, isBlank c = true) : trimLeft blanks = [] :=
  List.dropWhile_eq_nil_iff.mpr h

theorem trimRight_blanks (h : ∀ c ∈ blanks, isBlank c = true) : trimRight blanks = [] := by
  rw [trimRight, List.reverse_eq_nil_iff, List.dropWhile_eq_nil_iff]
  exact fun c hc => h c (List.mem_reverse.mp hc)

theorem trim_trimLeft (text : List Char) : trim (trimLeft text) = trim text := by
  rw [trim, trim, trimLeft, trimLeft, List.dropWhile_idempotent]

/-- **Blanks before a text** do not change its trim. -/
theorem trim_blanks_append (h : ∀ c ∈ blanks, isBlank c = true) :
    trim (blanks ++ text) = trim text := by
  rw [trim, trim, trimLeft, trimLeft, List.dropWhile_append_of_pos h]

/-- **Blanks after a text** do not change its trim. -/
theorem trim_append_blanks (h : ∀ c ∈ blanks, isBlank c = true) :
    trim (text ++ blanks) = trim text := by
  rw [← trim_trimRight, trimRight_append, if_pos (trimRight_blanks h), trim_trimRight]

/-- Blanks after a text stay when those at its start are dropped, unless nothing is left of it. -/
theorem trimLeft_append_blanks (text : List Char) (h : ∀ c ∈ blanks, isBlank c = true) :
    ∃ left, trimLeft (text ++ blanks) = trimLeft text ++ left ∧
      (∀ c ∈ left, isBlank c = true) ∧ (trimLeft text = [] → left = []) := by
  rw [trimLeft, List.dropWhile_append]
  split
  · rename_i hempty
    rw [List.isEmpty_iff] at hempty
    refine ⟨[], ?_, List.forall_mem_nil _, fun _ => rfl⟩
    rw [List.append_nil, trimLeft, hempty]
    exact trimLeft_blanks h
  · rename_i hsolid
    exact ⟨blanks, rfl, h, fun hempty => absurd (List.isEmpty_iff.mpr hempty) hsolid⟩

/-- A character that is no blank keeps what is before it apart from what is after it. -/
theorem trim_append_cons {c : Char} (hc : isBlank c = false) (start text : List Char) :
    trim (start ++ c :: text) = trimLeft start ++ c :: trimRight text := by
  have hcons : (c :: text).dropWhile isBlank = c :: text :=
    dropWhile_eq_self (by rintro _ ⟨⟩; exact hc)
  have hleft : trimLeft (start ++ c :: text) = trimLeft start ++ [c] ++ text := by
    rw [← List.append_cons, trimLeft, List.dropWhile_append, hcons]
    split
    · rename_i hempty
      rw [trimLeft, List.isEmpty_iff.mp hempty, List.nil_append]
    · rfl
  have hsolid : trimRight (trimLeft start ++ [c]) = trimLeft start ++ [c] := by
    rw [trimRight_append, trimRight_singleton hc, if_neg (List.cons_ne_nil c [])]
  rw [trim, hleft, trimRight_append_of_solid hsolid, ← List.append_cons]

end Added

/-! ## Lines -/

/-- The first line is what comes before the first newline. -/
theorem exists_lines_append (line rest : List Char) :
    ∃ after, lines (line ++ '\n' :: rest) = line.takeWhile (· ≠ '\n') :: after := by
  have hfirst : (line ++ '\n' :: rest).takeWhile (· ≠ '\n') = line.takeWhile (· ≠ '\n') := by
    induction line with
    | nil => rfl
    | cons c line ih => simp only [List.cons_append, List.takeWhile_cons, ih]
  cases htext : line ++ '\n' :: rest with
  | nil => simp at htext
  | cons c cs =>
    rw [lines, ← htext, hfirst]
    exact ⟨_, rfl⟩

theorem lines_append {line : List Char} (hline : '\n' ∉ line) (rest : List Char) :
    lines (line ++ '\n' :: rest) = line :: lines rest := by
  cases htext : line ++ '\n' :: rest with
  | nil => simp at htext
  | cons c cs =>
    rw [lines, ← htext, takeWhile_ne_append hline, dropWhile_ne_append hline]
    rfl

/-- **Lines that were ended by newlines** are cut apart again. -/
theorem lines_flatMap {ls : List (List Char)} (h : ∀ line ∈ ls, '\n' ∉ line) :
    lines (ls.flatMap (· ++ ['\n'])) = ls := by
  induction ls with
  | nil => rw [List.flatMap_nil, lines]
  | cons line ls ih =>
    obtain ⟨hline, hls⟩ := List.forall_mem_cons.mp h
    rw [List.flatMap_cons, List.append_assoc, List.singleton_append, lines_append hline, ih hls]

end Worksheet.Text
