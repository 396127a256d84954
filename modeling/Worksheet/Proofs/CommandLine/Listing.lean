import Worksheet.CommandLine.Session
import Worksheet.Proofs.Name.FileOrder
import Worksheet.Proofs.Sheet.Restoring

/-!
# The listing of a sheet

A session asks its sheet for each stored name again, by the name, so a name could be refused or
lead to another cell. In a consistent sheet of an idempotent policy each leads to its own, and the
listing has a record for every stored cell, in the order in which the cells are saved.

* `listing_names`: the listing is the records of the stored cells.
* `isListing_records`: these are one for each stored cell, in the order of the saved form.
-/

namespace Worksheet.CommandLine

variable {s : Sheet}

/-- The records of the stored cells, in file order. -/
def records (s : Sheet) : String :=
  String.join (s.toList.map fun (name, cell) => record name cell.contents cell.value)

/-- The output has exactly one record for each stored cell, in the order of the saved form. -/
def IsListing (s : Sheet) (output : String) : Prop :=
  ∃ cells : List (String × Cell), cells.Perm s.cells.toList ∧
    cells.map (fun (name, cell) => (name, cell.contents)) =
      SaveFile.writtenCells s.contentsList ∧
    output = String.join (cells.map fun (name, cell) => record name cell.contents cell.value)

/-- A stored cell is found by its name. -/
theorem recordAt_eq (hs : s.Consistent) (hpolicy : s.policy.Idempotent) {name : String}
    {cell : Cell} (hcell : s.cells[name]? = some cell) :
    recordAt s name = .ok (record name cell.contents cell.value) := by
  obtain ⟨hcontents, hvalue, -⟩ := hs.agree.found hpolicy name cell hcell
  rw [recordAt, hcontents, hvalue]
  rfl

theorem listing_map_fst (hs : s.Consistent) (hpolicy : s.policy.Idempotent)
    {cells : List (String × Cell)} (hcells : ∀ cell ∈ cells, s.cells[cell.1]? = some cell.2) :
    listing s (cells.map Prod.fst) =
      (String.join (cells.map fun (name, cell) => record name cell.contents cell.value),
        .ok ()) := by
  induction cells with
  | nil => rfl
  | cons cell cells ih =>
    obtain ⟨hcell, hcells⟩ := List.forall_mem_cons.mp hcells
    rw [List.map_cons, listing, recordAt_eq hs hpolicy hcell, ih hcells, List.map_cons,
      String.join_cons]

/-- **The listing of a consistent sheet** is the records of its cells. -/
theorem listing_names (hs : s.Consistent) (hpolicy : s.policy.Idempotent) :
    listing s s.names = (records s, .ok ()) := by
  have hnames : s.names = s.toList.map Prod.fst := by
    have hsort := Name.map_sortInFileOrder (p := Prod.fst) (q := id) (f := Prod.fst)
      (fun _ => rfl) s.cells.toList
    rw [Sheet.names, Sheet.toList, hsort, Std.ExtTreeMap.map_fst_toList_eq_keys]
  rw [hnames, records]
  refine listing_map_fst hs hpolicy fun cell hcell => ?_
  rw [Sheet.toList, Name.sortInFileOrder, List.mem_mergeSort] at hcell
  exact Std.ExtTreeMap.mem_toList_iff_getElem?_eq_some.mp hcell

/-- **The records are those of the stored cells**, in the order of the saved form. -/
theorem isListing_records (hs : s.Consistent) : IsListing s (records s) := by
  refine ⟨s.toList, List.mergeSort_perm _ _, ?_, rfl⟩
  have hfull : ∀ cell ∈ s.contentsList, cell.2.isEmpty = false := fun cell hcell =>
    hs.nonempty cell.1 cell.2 (Sheet.mem_contentsList.mp hcell)
  have hsort := Name.map_sortInFileOrder (p := Prod.fst) (q := Prod.fst)
    (f := fun (name, cell) => (name, cell.contents)) (fun _ => rfl) s.cells.toList
  rw [Sheet.toList, hsort, ← Sheet.contentsList, SaveFile.writtenCells, List.filter_eq_self.mpr]
  intro cell hcell
  rw [Name.sortInFileOrder, List.mem_mergeSort] at hcell
  simp only [hfull cell hcell, Bool.not_false]

end Worksheet.CommandLine
