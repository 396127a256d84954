import Worksheet.Proofs.SaveFile.LineOrder
import Worksheet.Proofs.Sheet.Replaying

/-!
# The order of saved lines does not matter

A saved sheet whose lines fill different cells makes the same sheet in whatever order these lines
come, formulas before or after the cells that they read; and if it is refused in one order, because
of a name, a formula or a cycle, it is refused in all of them.

* `restoring_ignores_line_order`: restoring either of two texts makes the same sheet, or neither
  makes one.
-/

namespace Worksheet.Sheet

open SaveFile (Reordered)

/-- No two lines of the saved sheet, if the text is one, fill the same cell. -/
def FillsApart (policy : NamePolicy) (text : String) : Prop :=
  ∀ file, SaveFile.read text = .ok file →
    (file.entries.filterMap fun entry => policy.canonical? entry.name).Nodup

variable {s t u : Sheet} {text text' : String} {policy : NamePolicy} {file file' : SaveFile}

/-! ## Entries of a saved sheet -/

/-- What a saved line asks for does not depend on its number. -/
theorem map_ofSaved_eq (file : SaveFile) :
    file.entries.map Entry.ofSaved =
      file.fillings.map fun (name, payload) => Entry.ofSaved ⟨0, name, payload⟩ := by
  rw [SaveFile.fillings, List.map_map]
  refine List.map_congr_left fun saved _ => ?_
  obtain ⟨line, name, content | content⟩ := saved
  · rfl
  · rfl

theorem FillsApart.apart (h : FillsApart policy text) (hread : SaveFile.read text = .ok file) :
    Apart policy (file.entries.map Entry.ofSaved) := by
  have hnodup := List.pairwise_filterMap.mp (h file hread)
  refine List.pairwise_map.mpr (hnodup.imp fun hne n hn hn' => ?_)
  exact hne n (canonical?_of_names hn) n (canonical?_of_names hn') rfl

theorem FillsApart.of_reordered (h : FillsApart policy text) (hlines : Reordered text text') :
    FillsApart policy text' := by
  intro file' hread'
  obtain ⟨file, hread, -, hperm⟩ := SaveFile.read_of_reordered hlines.symm hread'
  have hnames : ∀ f : SaveFile, (f.entries.filterMap fun entry => policy.canonical? entry.name) =
      f.fillings.filterMap fun filling => policy.canonical? filling.1 := by
    intro f
    rw [SaveFile.fillings, List.filterMap_map]
    rfl
  have hnodup := h file hread
  rw [hnames] at hnodup ⊢
  exact ((hperm.filterMap _).nodup_iff).mpr hnodup

/-! ## Restoring them -/

theorem restoreText_of_reordered (hpolicy : t.policy = s.policy) (hversion : t.version = s.version)
    (hlines : Reordered text text') (hapart : FillsApart s.policy text)
    (h : s.restoreText text = ⟨u, .ok ()⟩) : t.restoreText text' = ⟨u, .ok ()⟩ := by
  obtain ⟨file, v, hread, htag, hv, rfl⟩ := restoreText_eq_ok_iff.mp h
  obtain ⟨file', hread', htag', hperm⟩ := SaveFile.read_of_reordered hlines hread
  have hentries : (file.entries.map Entry.ofSaved).Perm (file'.entries.map Entry.ofSaved) := by
    rw [map_ofSaved_eq, map_ofSaved_eq]
    exact hperm.map _
  obtain ⟨w, hw, hcells, hdependencies⟩ := enterAll_perm s.blank_fresh t.blank_fresh hpolicy
    hentries (hapart.apart hread) hv
  obtain ⟨hvpolicy, hvversion⟩ := enterAll_fixed hv
  obtain ⟨hwpolicy, hwversion⟩ := enterAll_fixed hw
  refine restoreText_eq_ok_iff.mpr ⟨file', w, hread', ?_, hw, ?_⟩
  · rw [htag', htag, hversion]
  · exact unmodified_eq (hvpolicy.trans (hwpolicy.trans hpolicy).symm)
      (hvversion.trans (hwversion.trans hversion).symm) hcells.symm hdependencies.symm

/-- **Restoring ignores the order of lines**: if the lines of a saved sheet fill different cells and
come in another order after the version tag, both texts make the same sheet of any two sheets of the
same policy and version, whatever these held, or neither text is accepted. -/
theorem restoring_ignores_line_order (hpolicy : t.policy = s.policy)
    (hversion : t.version = s.version) (hlines : Reordered text text')
    (hapart : FillsApart s.policy text) (u : Sheet) :
    s.restoreText text = ⟨u, .ok ()⟩ ↔ t.restoreText text' = ⟨u, .ok ()⟩ :=
  ⟨restoreText_of_reordered hpolicy hversion hlines hapart,
    restoreText_of_reordered hpolicy.symm hversion.symm hlines.symm
      (hpolicy ▸ hapart.of_reordered hlines)⟩

/-- A saved sheet, with a formula before the cell that it reads. -/
def sumFirst : String := "@version default\n# a sum\nb: =a+1\nt: \"x\"\na: 2\n"

/-- The same lines, with the formula at the end. -/
def sumLast : String := "@version default\na: 2\nt: \"x\"\n# a sum\nb: =a+1\n"

theorem sumLast_reordered : Reordered sumFirst sumLast := by
  refine ⟨[], "@version default".toList, "default".toList,
    ["# a sum".toList, "b: =a+1".toList, "t: \"x\"".toList, "a: 2".toList],
    ["a: 2".toList, "t: \"x\"".toList, "# a sum".toList, "b: =a+1".toList], ?_, ?_, ?_, ?_⟩
  · decide +kernel
  · decide +kernel
  · decide +kernel
  · decide +kernel

theorem sumFirst_fillsApart : FillsApart .plain sumFirst := by
  have hread : SaveFile.read sumFirst = .ok ⟨"default",
      [⟨3, "b", .input "=a+1"⟩, ⟨4, "t", .text "x"⟩, ⟨5, "a", .input "2"⟩]⟩ := by
    decide +kernel
  intro file hfile
  obtain rfl := Except.ok.inj (hread.symm.trans hfile)
  decide +kernel

theorem sumLast_makes_sheet_of_sumFirst :
    Reordered sumFirst sumLast ∧ FillsApart .plain sumFirst ∧
      ∃ u, restoreText {} sumFirst = ⟨u, .ok ()⟩ ∧ demo.restoreText sumLast = ⟨u, .ok ()⟩ ∧
        u.size = 3 := by
  have haccepted : (restoreText {} sumFirst).result = .ok () := by decide +kernel
  have hsize : (restoreText {} sumFirst).sheet.size = 3 := by decide +kernel
  have hfirst : restoreText {} sumFirst = ⟨(restoreText {} sumFirst).sheet, .ok ()⟩ := by
    rw [← haccepted]
  obtain ⟨hpolicy, hversion⟩ := performAll_fixed {}
    [.enter (.input "b" "=a+1"), .enter (.input "a" "2")]
  have hlast := (restoring_ignores_line_order hpolicy hversion sumLast_reordered
    sumFirst_fillsApart _).mp hfirst
  exact ⟨sumLast_reordered, sumFirst_fillsApart, _, hfirst, hlast, hsize⟩

end Worksheet.Sheet
