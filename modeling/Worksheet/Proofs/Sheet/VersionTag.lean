import Worksheet.Proofs.SaveFile.LineOrder
import Worksheet.Proofs.Sheet.Restoring

/-!
# Which version tags survive

The tag is written as it is, after its word, and what follows the word on that line is read back
without the blanks at its ends. So a tag survives exactly when it is not empty, has no blank at its
ends and no newline. Any other tag makes a sheet that is written, but can not be restored.

* `version_of_read_write`: the tag that is read back, whatever was written.
* `read_write_version_iff`: it is the one that was written exactly when a line can hold that.
* `version_tag_survives_iff`: the same for every reachable sheet.
* `untagged_and_padded_are_refused`: two sheets that can not be restored.
-/

namespace Worksheet

namespace SaveFile

variable {version : String} {cells : List (String × Contents)} {file : SaveFile}

/-- The tag that is read from the line of a tag: its first line, without the blanks at its ends. -/
def readTag (version : String) : List Char :=
  Text.trim (version.toList.takeWhile (· ≠ '\n'))

theorem readLine_takeWhile_versionLine (version : String) :
    readLine ((versionLine version).takeWhile (· ≠ '\n')) = .ok (.version (readTag version)) := by
  have hnewline : '\n' ∉ versionWord ++ [' '] := by decide
  have hline := readLine_versionLine (String.ofList (version.toList.takeWhile (· ≠ '\n')))
  rw [versionLine, String.toList_ofList] at hline
  rw [versionLine, List.takeWhile_append_of_pos (Text.decide_ne_of_notMem hnewline), hline,
    readTag]

/-- **What a written tag is read as**: it is missing if nothing of it is left, and else the reading
goes on after it. -/
theorem read_write_eq (version : String) (cells : List (String × Contents)) :
    ∃ after, read (write version cells) =
      if (readTag version).isEmpty then .error ⟨2, .missingTag⟩
      else readLines (some (String.ofList (readTag version))) false after := by
  have hbanner : '\n' ∉ banner := by decide
  obtain ⟨after, hafter⟩ := Text.exists_lines_append (versionLine version)
    (((writtenLines version cells).drop 2).flatMap (· ++ ['\n']))
  have hlines : Text.lines (write version cells).toList =
      [banner] ++ (versionLine version).takeWhile (· ≠ '\n') :: after := by
    rw [← hafter, write, String.toList_ofList, writtenLines, List.flatMap_cons, List.flatMap_cons,
      List.append_assoc, List.append_assoc, List.singleton_append, List.singleton_append,
      Text.lines_append hbanner]
    rfl
  refine ⟨numbered 2 after, ?_⟩
  rw [read_eq hlines]
  simp only [numbered, List.zipIdx_cons, List.zipIdx_nil, List.map_cons, List.map_nil,
    List.cons_append, List.nil_append, readLines, readLine_banner, readLine_takeWhile_versionLine]
  rfl

/-- **The tag that is read back**, whatever was written: it is not empty, and the first line of the
written one without the blanks at its ends. -/
theorem version_of_read_write (h : read (write version cells) = .ok file) :
    readTag version ≠ [] ∧ file.version.toList = readTag version := by
  obtain ⟨after, hafter⟩ := read_write_eq version cells
  rw [hafter] at h
  split at h
  · contradiction
  · rename_i hne
    obtain ⟨-, hversion, -⟩ := readLines_some_eq_ok h
    exact ⟨fun he => hne (List.isEmpty_iff.mpr he), by rw [hversion, String.toList_ofList]⟩

/-- A tag that is read as itself fits a line. -/
theorem fitsLine_of_readTag (hne : readTag version ≠ []) (h : version.toList = readTag version) :
    FitsLine version.toList := by
  have hsub : ∀ c ∈ version.toList, c ∈ version.toList.takeWhile (· ≠ '\n') := by
    intro c hc
    rw [h, readTag, Text.trim, Text.trimRight, List.mem_reverse] at hc
    have hleft := List.mem_reverse.mp ((List.dropWhile_sublist _).subset hc)
    exact (List.dropWhile_sublist _).subset hleft
  have honeLine : '\n' ∉ version.toList := fun hc =>
    absurd (List.all_eq_true.mp List.all_takeWhile _ (hsub _ hc)) (by decide)
  refine ⟨h ▸ hne, ?_, honeLine⟩
  rw [readTag, Text.takeWhile_ne_of_notMem honeLine] at h
  exact h.symm

/-- **A tag is read back** exactly when a line can hold it as it is. -/
theorem read_write_version_iff
    (hcells : ∀ cell ∈ cells, Name.isIdentifier cell.1 = true ∧ Writable cell.2) :
    (∃ file, read (write version cells) = .ok file ∧ file.version = version) ↔
      FitsLine version.toList := by
  constructor
  · rintro ⟨file, hread, hversion⟩
    obtain ⟨hne, htag⟩ := version_of_read_write hread
    rw [hversion] at htag
    exact fitsLine_of_readTag hne htag
  · intro h
    exact ⟨_, read_write h hcells, rfl⟩

end SaveFile

namespace Sheet

variable {s : Sheet}

/-- **A version tag survives** exactly when a line can hold it. If it does not, no sheet of that
version takes the saved form. -/
theorem version_tag_survives_iff (h : s.Reachable) :
    ((∃ file, SaveFile.read s.toText = .ok file ∧ file.version = s.version) ↔
        SaveFile.FitsLine s.version.toList) ∧
      (¬ SaveFile.FitsLine s.version.toList → ∀ t : Sheet, t.version = s.version →
        ∃ e, t.restoreText s.toText = ⟨t, .error e⟩) := by
  have hiff : (∃ file, SaveFile.read s.toText = .ok file ∧ file.version = s.version) ↔
      SaveFile.FitsLine s.version.toList :=
    SaveFile.read_write_version_iff h.consistent.writable
  refine ⟨hiff, fun hfits t ht => ?_⟩
  rw [restoreText]
  cases hread : SaveFile.read s.toText with
  | error fault => exact ⟨_, rfl⟩
  | ok file =>
    have hother : file.version ≠ t.version := fun he =>
      hfits (hiff.mp ⟨file, hread, he.trans ht⟩)
    refine ⟨.otherVersion t.version file.version, ?_⟩
    show t.restore file = _
    unfold restore
    rw [if_neg hother]

theorem version_tag_survives_demo :
    ∃ file, SaveFile.read demo.toText = .ok file ∧ file.version = "default" := by
  have hversion : demo.version = "default" := (perform_fixed _ _).2.trans (perform_fixed _ _).2
  have hiff := (version_tag_survives_iff reachable_demo).1
  rw [hversion] at hiff
  exact hiff.mpr ⟨by decide, by decide, by decide⟩

/-- A sheet with an empty version tag. -/
def untagged : Sheet := ({ version := "" } : Sheet).performAll [.enter (.input "a" "1")]

/-- A sheet with a blank in front of its version tag. -/
def padded : Sheet := ({ version := " v" } : Sheet).performAll [.enter (.input "a" "1")]

/-- The saved forms of these sheets are refused by the sheets themselves. -/
theorem untagged_and_padded_are_refused :
    untagged.Reachable ∧ padded.Reachable ∧
      (untagged.restoreText untagged.toText).result = .error (.savedLine ⟨2, .missingTag⟩) ∧
      (padded.restoreText padded.toText).result = .error (.otherVersion " v" "v") :=
  ⟨(Reachable.blank .plain "").performAll _, (Reachable.blank .plain " v").performAll _,
    by decide +kernel, by decide +kernel⟩

end Sheet

end Worksheet
