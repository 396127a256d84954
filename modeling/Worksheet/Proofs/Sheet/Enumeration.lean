import Worksheet.Proofs.Name.FileOrder
import Worksheet.Proofs.Sheet.Contents
import Worksheet.Sheet.Storage

/-!
# Cells in any enumeration

The stored cells are a set, and a set may be listed in any order. What is saved of a sheet, and the
list of its names, go by the file order, which leaves no two names undecided; so neither depends on
how the cells were listed.

* `write_perm`: cells of different names are saved as one text.
* `eq_names_iff`: the stored names have one ascending list.
* `file_order_is_strict_and_total`: the file order of names, and both of these.
-/

namespace Worksheet

open Name (fileOrder sortInFileOrder)

namespace SaveFile

/-- **Cells of different names are saved as one text**, in whatever order they are listed. -/
theorem write_perm {cells cells' : List (String × Contents)} (version : String)
    (hdistinct : (cells.map Prod.fst).Nodup) (hperm : cells.Perm cells') :
    write version cells = write version cells' := by
  have hwritten : writtenCells cells = writtenCells cells' := by
    rw [writtenCells, writtenCells, Name.sortInFileOrder_perm hdistinct hperm]
  rw [write, write, writtenLines, writtenLines, hwritten]

end SaveFile

namespace Sheet

variable {s : Sheet} {names : List String}

theorem nodup_names (s : Sheet) : s.names.Nodup :=
  ((List.mergeSort_perm _ _).nodup_iff).mpr Std.ExtTreeMap.nodup_keys

theorem mem_names {name : String} : name ∈ s.names ↔ name ∈ s.cells := by
  rw [Sheet.names, sortInFileOrder, List.mem_mergeSort, Std.ExtTreeMap.mem_keys]

theorem nodup_contentsList (s : Sheet) : (s.contentsList.map Prod.fst).Nodup := by
  rw [contentsList, List.map_map]
  show (s.cells.toList.map Prod.fst).Nodup
  rw [Std.ExtTreeMap.map_fst_toList_eq_keys]
  exact Std.ExtTreeMap.nodup_keys

theorem pairwise_names (s : Sheet) : s.names.Pairwise fun a b => fileOrder a b = .lt := by
  have hascending := (Name.isSorted_sortInFileOrder id s.cells.keys).ascending
  refine (hascending.and s.nodup_names).imp ?_
  rintro a b ⟨hle, hne⟩
  obtain hlt | heq := Ordering.isLE_iff_eq_lt_or_eq_eq.mp hle
  · exact hlt
  · exact absurd ((Name.isStrictTotal_fileOrder.eq_iff a b).mp heq) hne

/-- **The stored names have one ascending list.** -/
theorem eq_names_iff : names = s.names ↔
    names.Pairwise (fun a b => fileOrder a b = .lt) ∧ ∀ n, n ∈ names ↔ n ∈ s.cells := by
  constructor
  · rintro rfl
    exact ⟨s.pairwise_names, fun n => mem_names⟩
  · rintro ⟨hascending, hmem⟩
    have hnodup : names.Nodup := hascending.imp fun {a b} hlt heq => by
      rw [(Name.isStrictTotal_fileOrder.eq_iff a b).mpr heq] at hlt
      contradiction
    have hperm : names.Perm s.names := by
      rw [List.perm_ext_iff_of_nodup hnodup s.nodup_names]
      exact fun n => (hmem n).trans mem_names.symm
    have hle : ∀ a b, fileOrder a b = .lt → (fileOrder (id a) (id b)).isLE = true :=
      fun a b hlt => by rw [id, id, hlt]; rfl
    exact eq_of_ascending ((List.map_id names).symm ▸ hnodup) hperm (hascending.imp (hle _ _))
      (s.pairwise_names.imp (hle _ _))

/-- **The file order is strict and total**, so no enumeration of cells is seen: cells of different
names are saved as one text however they are listed, and so are those of a sheet; and the stored
names of a sheet have one ascending list, which sorting makes of any list of them. -/
theorem file_order_is_strict_and_total :
    Name.IsStrictTotal fileOrder ∧ Name.IsRowMajor fileOrder ∧
      (∀ version (cells cells' : List (String × Contents)), (cells.map Prod.fst).Nodup →
        cells.Perm cells' → SaveFile.write version cells = SaveFile.write version cells') ∧
      ∀ s : Sheet,
        (∀ names, names = s.names ↔
          names.Pairwise (fun a b => fileOrder a b = .lt) ∧ ∀ n, n ∈ names ↔ n ∈ s.cells) ∧
        (∀ listed : List String, listed.Perm s.cells.keys →
          sortInFileOrder id listed = s.names) ∧
        ∀ listed : List (String × Contents), listed.Perm s.contentsList →
          SaveFile.write s.version listed = s.toText := by
  refine ⟨Name.isStrictTotal_fileOrder, Name.isRowMajor_fileOrder,
    fun version cells cells' => SaveFile.write_perm version,
    fun s => ⟨fun names => eq_names_iff, fun listed hperm => ?_, fun listed hperm => ?_⟩⟩
  · refine Name.sortInFileOrder_perm ?_ hperm
    rw [List.map_id, hperm.nodup_iff]
    exact Std.ExtTreeMap.nodup_keys
  · refine SaveFile.write_perm s.version ?_ hperm
    rw [(hperm.map Prod.fst).nodup_iff]
    exact s.nodup_contentsList

/-- Names of one coordinate, and names that look like coordinates and are none. -/
def mixedNames : List String :=
  ["total", "a1", "B1", "A0", "A01", "A2", "A1", "AZ18446744073709551616"]

theorem mixedNames_are_sorted :
    SaveFile.write "v" (mixedNames.map fun name => (name, .text "x")) =
        SaveFile.write "v" (mixedNames.reverse.map fun name => (name, .text "x")) ∧
      fileOrder "A01" "A1" = .lt ∧ fileOrder "A1" "a1" = .lt ∧ fileOrder "a1" "B1" = .lt ∧
      fileOrder "B1" "A2" = .lt ∧ fileOrder "A2" "A0" = .lt := by
  obtain ⟨-, ⟨hfirst, hrow, -⟩, hwrite, -⟩ := file_order_is_strict_and_total
  have h01 : Name.Coordinate.ofName? "A01" = some ⟨0, 0⟩ := by decide +kernel
  have h1 : Name.Coordinate.ofName? "A1" = some ⟨0, 0⟩ := by decide +kernel
  have ha1 : Name.Coordinate.ofName? "a1" = some ⟨0, 0⟩ := by decide +kernel
  have hb1 : Name.Coordinate.ofName? "B1" = some ⟨0, 1⟩ := by decide +kernel
  have h2 : Name.Coordinate.ofName? "A2" = some ⟨1, 0⟩ := by decide +kernel
  have h0 : Name.Coordinate.ofName? "A0" = none := by decide +kernel
  refine ⟨hwrite "v" _ _ (by decide +kernel) ((List.reverse_perm _).symm.map _),
    (hrow _ _ _ _ h01 h1).mpr ?_, (hrow _ _ _ _ h1 ha1).mpr ?_, (hrow _ _ _ _ ha1 hb1).mpr ?_,
    (hrow _ _ _ _ hb1 h2).mpr ?_, hfirst _ _ (h2 ▸ rfl) h0⟩
  · decide +kernel
  · decide +kernel
  · decide +kernel
  · decide +kernel

end Sheet

end Worksheet
