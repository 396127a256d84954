import Mathlib.Data.List.Nodup

/-!
# Sorted lists

A comparison that is a total order has one ascending list for all items whose keys differ, in
whatever order they come; and where keys are the same, sorting keeps the order of the items.

* `pairwise_sorted`: sorting makes a list ascending.
* `eq_of_ascending`: items with different keys have one ascending list.
* `filter_sorted`: items whose keys do not differ keep their order.
-/

namespace Worksheet

variable {α β : Type} {cmp : β → β → Ordering} [Std.TransCmp cmp] {key : α → β}

theorem isLE_total (a b : β) : ((cmp a b).isLE || (cmp b a).isLE) = true := by
  rw [Bool.or_eq_true, or_iff_not_imp_left]
  intro h
  rw [Std.OrientedCmp.lt_of_not_isLE h]
  rfl

/-- Sorting makes a list ascending. -/
theorem pairwise_sorted (items : List α) :
    (items.mergeSort fun a b => (cmp (key a) (key b)).isLE).Pairwise
      fun a b => (cmp (key a) (key b)).isLE = true :=
  List.pairwise_mergeSort (fun _ _ _ => Std.TransCmp.isLE_trans) (fun _ _ => isLE_total _ _) items

/-- **Items with different keys have one ascending list.** -/
theorem eq_of_ascending [Std.LawfulEqCmp cmp] {items items' : List α}
    (hdistinct : (items.map key).Nodup) (hperm : items.Perm items')
    (h : items.Pairwise fun a b => (cmp (key a) (key b)).isLE = true)
    (h' : items'.Pairwise fun a b => (cmp (key a) (key b)).isLE = true) : items = items' := by
  refine hperm.eq_of_pairwise (fun a b ha hb hab hba => ?_) h h'
  have hkey : key a = key b :=
    Std.LawfulEqCmp.compare_eq_iff_eq.mp (Std.OrientedCmp.isLE_antisymm hab hba)
  exact List.inj_on_of_nodup_map hdistinct ha (hperm.mem_iff.mpr hb) hkey

/-- **Items whose keys do not differ keep their order** when a list is sorted. -/
theorem filter_sorted {p : α → Bool} (items : List α)
    (hp : ∀ a b, p a = true → p b = true → key a = key b) :
    (items.mergeSort fun a b => (cmp (key a) (key b)).isLE).filter p = items.filter p := by
  have hascending : (items.filter p).Pairwise fun a b => (cmp (key a) (key b)).isLE = true := by
    refine List.pairwise_of_forall_mem_list fun a ha b hb => ?_
    rw [hp a b (List.mem_filter.mp ha).2 (List.mem_filter.mp hb).2]
    exact Std.ReflCmp.isLE_rfl
  -- The items are a part of the sorted list in their own order, and there are no others in it.
  have hpart : (items.filter p).Sublist
      (items.mergeSort fun a b => (cmp (key a) (key b)).isLE) :=
    List.sublist_mergeSort (fun _ _ _ => Std.TransCmp.isLE_trans) (fun _ _ => isLE_total _ _)
      hascending List.filter_sublist
  have hfilter := hpart.filter p
  simp only [List.filter_filter, Bool.and_self] at hfilter
  have hperm := (List.mergeSort_perm items fun a b => (cmp (key a) (key b)).isLE).filter p
  exact (hfilter.eq_of_length hperm.length_eq.symm).symm

end Worksheet
