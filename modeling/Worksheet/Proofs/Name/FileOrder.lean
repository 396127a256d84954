import Mathlib.Data.String.Basic
import Worksheet.Name.FileOrder
import Worksheet.Proofs.Sorting

/-!
# The file order of names

Names are compared by whether they stand for a coordinate, then by the coordinate, and at last by
their characters, which differ if the names do. So the file order is a strict total order.

* `fileOrder_eq_compareLex`: the three comparisons, one after the other.
* `isStrictTotal_fileOrder`, `isRowMajor_fileOrder`: what they come to.
* `isSorted_sortInFileOrder`: what sorting in file order makes of a list.
* `sortInFileOrder_perm`: items of different names are sorted to one list.
-/

namespace Worksheet.Name

open Coordinate (ofName?)

/-- A comparison of names that is a total order and tells all names apart. -/
structure IsStrictTotal (cmp : String → String → Ordering) : Prop where
  eq_iff : ∀ a b, cmp a b = .eq ↔ a = b
  swap : ∀ a b, cmp b a = (cmp a b).swap
  trans : ∀ a b c, (cmp a b).isLE = true → (cmp b c).isLE = true → (cmp a c).isLE = true

/-- A comparison of names that has those of coordinates first, row by row, and goes by characters
where that does not decide. -/
structure IsRowMajor (cmp : String → String → Ordering) : Prop where
  first : ∀ a b, (ofName? a).isSome = true → ofName? b = none → cmp a b = .lt
  byRow : ∀ a b p q, ofName? a = some p → ofName? b = some q →
    (cmp a b = .lt ↔ p.row < q.row ∨
      p.row = q.row ∧ (p.column < q.column ∨ p.column = q.column ∧ a < b))
  byText : ∀ a b, ofName? a = none → ofName? b = none → (cmp a b = .lt ↔ a < b)

/-! ## Two names -/

/-- **Names are compared** by whether they stand for a coordinate, then by the coordinate, and at
last by themselves. -/
theorem fileOrder_eq_compareLex : fileOrder =
    compareLex (compareOn fun name => (ofName? name).isNone)
      (compareLex (compareOn ofName?) (compareOn id)) := by
  funext a b
  simp only [fileOrder, compareLex, compareOn]
  cases ofName? a <;> cases ofName? b <;> rfl

instance : Std.TransOrd Coordinate :=
  inferInstanceAs (Std.TransCmp (compareLex (compareOn Coordinate.row)
    (compareOn Coordinate.column)))

instance : Std.TransCmp fileOrder := by
  rw [fileOrder_eq_compareLex]
  infer_instance

instance : Std.LawfulEqCmp fileOrder where
  eq_of_compare h := by
    rw [fileOrder_eq_compareLex, compareLex_eq_eq, compareLex_eq_eq] at h
    exact compare_eq_iff_eq.mp h.2.2

/-- **The file order is a strict total order.** -/
theorem isStrictTotal_fileOrder : IsStrictTotal fileOrder where
  eq_iff _ _ := Std.LawfulEqCmp.compare_eq_iff_eq
  swap _ _ := Std.OrientedCmp.eq_swap
  trans _ _ _ := Std.TransCmp.isLE_trans

/-- **Coordinates come first**, row by row; all else goes by characters. -/
theorem isRowMajor_fileOrder : IsRowMajor fileOrder where
  first a b ha hb := by
    obtain ⟨p, hp⟩ := Option.isSome_iff_exists.mp ha
    simp only [fileOrder, hp, hb]
  byRow a b p q ha hb := by
    have hcompare : fileOrder a b =
        ((compare p.row q.row).then (compare p.column q.column)).then (compare a b) := by
      simp only [fileOrder, ha, hb]
      rfl
    rw [hcompare, Ordering.then_assoc, Ordering.then_eq_lt, Ordering.then_eq_lt,
      compare_lt_iff_lt, compare_lt_iff_lt, compare_lt_iff_lt, compare_eq_iff_eq,
      compare_eq_iff_eq]
  byText a b ha hb := by
    simp only [fileOrder, ha, hb]
    exact compare_lt_iff_lt

/-! ## Lists -/

section Lists

variable {α : Type} {name : α → String} {items items' : List α}

/-- The second list has the items of the first in file order, and items of one name in the order in
which they were. -/
structure IsSorted (name : α → String) (items sorted : List α) : Prop where
  perm : sorted.Perm items
  ascending : sorted.Pairwise fun a b => (fileOrder (name a) (name b)).isLE = true
  stable : ∀ n, sorted.filter (fun a => name a == n) = items.filter fun a => name a == n

/-- **Sorting in file order** leaves the items, ascending, and those of one name as they were. -/
theorem isSorted_sortInFileOrder (name : α → String) (items : List α) :
    IsSorted name items (sortInFileOrder name items) where
  perm := List.mergeSort_perm _ _
  ascending := pairwise_sorted items
  stable _ := filter_sorted items fun _ _ ha hb =>
    (beq_iff_eq.mp ha).trans (beq_iff_eq.mp hb).symm

theorem map_sortInFileOrder {β : Type} {p : α → String} {q : β → String} {f : α → β}
    (hf : ∀ a, q (f a) = p a) (items : List α) :
    (sortInFileOrder p items).map f = sortInFileOrder q (items.map f) :=
  List.map_mergeSort fun a _ b _ => by rw [hf, hf]

theorem IsSorted.filter {sorted : List α} (h : IsSorted name items sorted) (p : α → Bool) :
    IsSorted name (items.filter p) (sorted.filter p) where
  perm := h.perm.filter p
  ascending := h.ascending.filter p
  stable n := by rw [List.filter_comm, h.stable, List.filter_comm]

/-- **Items of different names** are sorted to one list, in whatever order they come. -/
theorem sortInFileOrder_perm (hdistinct : (items.map name).Nodup) (hperm : items.Perm items') :
    sortInFileOrder name items = sortInFileOrder name items' := by
  have h := isSorted_sortInFileOrder name items
  have h' := isSorted_sortInFileOrder name items'
  refine eq_of_ascending ?_ ((h.perm.trans hperm).trans h'.perm.symm) h.ascending h'.ascending
  exact ((h.perm.map name).nodup_iff).mpr hdistinct

end Lists

end Worksheet.Name
