import Worksheet.Proofs.Text.Cut
import Worksheet.SaveFile.Reader

/-!
# How a line of a saved sheet is read

A line is read without the blanks at its ends, and what decides how is the first character that is
left, the word for the version tag, or the first colon.

* `readLine_of_trim`: a blank line or a comment.
* `readLine_version`: a line with the version tag.
* `readLine_colon`: a line with a colon.
-/

namespace Worksheet.SaveFile

open Text (isBlank)

/-- A line is read without the blanks at its ends. -/
theorem readLine_congr {line line' : List Char} (h : Text.trim line = Text.trim line') :
    readLine line = readLine line' := by
  unfold readLine
  rw [h]

theorem readLine_of_trim {line : List Char}
    (h : Text.trim line = [] ∨ (Text.trim line).head? = some '#') :
    readLine line = .ok .skipped := by
  unfold readLine
  dsimp only
  rw [if_pos]
  rcases h with h | h
  · rw [h]
    rfl
  · rw [h]
    simp

section Version

theorem isBlank_of_mem_versionWord {c : Char} (hc : c ∈ versionWord) : isBlank c = false := by
  have hword : versionWord.all (fun c => !isBlank c) = true := by decide
  simpa using List.all_eq_true.mp hword c hc

theorem colon_notMem_versionWord : ':' ∉ versionWord := by decide

/-- The word ends before a character that is not in it. -/
theorem versionWord_prefix_append_iff {start rest : List Char}
    (hrest : ∀ c ∈ rest.head?, c ∉ versionWord) :
    versionWord <+: start ++ rest ↔ versionWord <+: start := by
  constructor
  · intro h
    rcases List.prefix_or_prefix_of_prefix h (List.prefix_append start rest) with hword | hstart
    · exact hword
    · obtain ⟨more, hmore⟩ := hstart
      rw [← hmore, List.prefix_append_right_inj] at h
      cases more with
      | nil => exact ⟨[], by rw [← hmore, List.append_nil, List.append_nil]⟩
      | cons c more =>
        cases rest with
        | nil => simp at h
        | cons d rest =>
          obtain ⟨rfl, -⟩ := List.cons_prefix_cons.mp h
          refine absurd ?_ (hrest c rfl)
          rw [← hmore]
          simp
  · exact fun h => h.trans (List.prefix_append start rest)

/-- The tag is what follows the word, without the blanks at its ends. -/
theorem readLine_version {start : List Char} (hstart : ∀ c ∈ start, isBlank c = true)
    (tag : List Char) :
    readLine (start ++ versionWord ++ tag) = .ok (.version (Text.trim tag)) := by
  have hat : isBlank '@' = false := rfl
  have hword : Text.trimRight ("version".toList) = "version".toList := by decide
  have htrim : Text.trim (start ++ versionWord ++ tag) = versionWord ++ Text.trimRight tag := by
    have hline : versionWord ++ tag = '@' :: ("version".toList ++ tag) := rfl
    rw [List.append_assoc, Text.trim_blanks_append hstart, hline, Text.trim_cons_of_not hat,
      Text.trimRight_append_of_solid hword]
    rfl
  have hskip : ((versionWord ++ Text.trimRight tag).isEmpty ||
      (versionWord ++ Text.trimRight tag).head? = some '#') = false := rfl
  have hprefix : versionWord.isPrefixOf (versionWord ++ Text.trimRight tag) = true :=
    List.isPrefixOf_iff_prefix.mpr (List.prefix_append _ _)
  unfold readLine
  dsimp only
  rw [htrim, hskip, if_neg Bool.false_ne_true, if_pos hprefix, List.drop_left,
    Text.trim_trimRight]

end Version

section Colon

variable {name : List Char}

/-- What a line gives that has `name` before its first colon and `value` after it. -/
def entryOf (name value : List Char) : Except Fault Line :=
  if name.isEmpty then .error .missingName else return .entry name (← readValue value)

theorem readEntry_append (hname : ':' ∉ name) (value : List Char) :
    readEntry (name ++ ':' :: value) = entryOf (Text.trim name) (Text.trim value) := by
  unfold readEntry
  rw [Text.takeWhile_ne_append hname, Text.dropWhile_ne_append hname]
  rfl

/-- A line with a colon is a comment, or it is read as a name and a value, if it does not start
with the word for the version tag. -/
theorem readLine_colon (hname : ':' ∉ name) (hversion : ¬ versionWord <+: Text.trimLeft name)
    (value : List Char) :
    readLine (name ++ ':' :: value) =
      if (Text.trimLeft name).head? = some '#' then .ok .skipped
      else entryOf (Text.trim name) (Text.trim value) := by
  have hcolon : isBlank ':' = false := rfl
  have hleft : ':' ∉ Text.trimLeft name :=
    fun h => hname ((List.dropWhile_sublist isBlank).subset h)
  have hprefix :
      versionWord.isPrefixOf (Text.trimLeft name ++ ':' :: Text.trimRight value) = false := by
    rw [← Bool.not_eq_true, List.isPrefixOf_iff_prefix, versionWord_prefix_append_iff]
    · exact hversion
    · rintro c ⟨⟩
      exact colon_notMem_versionWord
  have hhead : (Text.trimLeft name ++ ':' :: Text.trimRight value).head? = some '#' ↔
      (Text.trimLeft name).head? = some '#' := by
    cases Text.trimLeft name with
    | nil => simp
    | cons c rest => rfl
  have hskip : ((Text.trimLeft name ++ ':' :: Text.trimRight value).isEmpty ||
      (Text.trimLeft name ++ ':' :: Text.trimRight value).head? = some '#') = true ↔
        (Text.trimLeft name).head? = some '#' := by
    rw [← hhead]
    simp
  unfold readLine
  dsimp only
  rw [Text.trim_append_cons hcolon, hprefix, if_neg Bool.false_ne_true, readEntry_append hleft,
    Text.trim_trimLeft, Text.trim_trimRight]
  simp only [hskip]

end Colon

end Worksheet.SaveFile
