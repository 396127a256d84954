import Mathlib.Logic.Function.Basic
import Worksheet.Proofs.Dependencies.UpdateOrder
import Worksheet.Proofs.Formula.Variables
import Worksheet.Sheet.Refresh

/-!
# Refreshing makes values current

The value of a cell is `CurrentAt` its name when it is what the contents come to, given the values
that the other cells have now. Refreshing cells in an order in which each stands before its readers
makes all values current, if only values of cells in that order were not (`currentAt_refreshAll`):
a cell that was refreshed reads nothing that is refreshed later.
-/

namespace Worksheet

open Dependencies (Topological)

/-- `reader` holds a formula with the variable `source`. -/
def Reads (contents : String → Option Contents) (reader source : String) : Prop :=
  ∃ f, contents reader = some (.formula f) ∧ source ∈ f.variableNames

theorem mem_variableNames_iff {k : Contents} {source : String} :
    source ∈ k.variableNames ↔ ∃ f, k = .formula f ∧ source ∈ f.variableNames := by
  cases k with
  | number x => simp [Contents.variableNames]
  | text t => simp [Contents.variableNames]
  | formula f => simp [Contents.variableNames]

theorem reads_iff {contents : String → Option Contents} {reader source : String} :
    Reads contents reader source ↔ ∃ k, contents reader = some k ∧ source ∈ k.variableNames := by
  constructor
  · rintro ⟨f, hf, hsource⟩
    exact ⟨.formula f, hf, hsource⟩
  · rintro ⟨k, hk, hsource⟩
    obtain ⟨f, rfl, hf⟩ := mem_variableNames_iff.mp hsource
    exact ⟨f, hk, hf⟩

namespace Cells

/-- The contents stored under a name. -/
def contents (cells : Cells) (name : String) : Option Contents := cells[name]?.map Cell.contents

/-- The value stored under a name, if there is one, is what the contents come to. -/
def CurrentAt (cells : Cells) (name : String) : Prop :=
  ∀ cell, cells[name]? = some cell → cell.value = cells.valueOf cell.contents

variable {cells : Cells}

theorem contents_eq_some {name : String} {cell : Cell} (h : cells[name]? = some cell) :
    cells.contents name = some cell.contents := by
  rw [contents, h]
  rfl

/-! ## What contents come to -/

/-- What contents come to depends on the cells of their variables only. -/
theorem valueOf_congr {cells' : Cells} {k : Contents}
    (h : ∀ v ∈ k.variableNames, cells[v]? = cells'[v]?) : cells.valueOf k = cells'.valueOf k := by
  cases k with
  | number x => rfl
  | text t => rfl
  | formula f =>
    have heval : f.evaluate cells.numberAt = f.evaluate cells'.numberAt :=
      Formula.evaluate_congr fun v hv => by rw [numberAt, numberAt, h v hv]
    rw [valueOf, valueOf, heval]

/-! ## Storing contents -/

theorem getElem?_store (name : String) (k : Contents) (n : String) :
    (cells.store name k)[n]? =
      if name = n then if k.isEmpty then none else some (.ofContents k) else cells[n]? := by
  unfold store
  split <;> simp [Std.ExtTreeMap.getElem?_erase, Std.ExtTreeMap.getElem?_insert]

theorem contents_store (name : String) (k : Contents) :
    (cells.store name k).contents =
      Function.update cells.contents name (if k.isEmpty then none else some k) := by
  funext n
  rw [contents, getElem?_store]
  by_cases hn : name = n
  · subst hn
    rw [if_pos rfl, Function.update_self]
    split <;> rfl
  · rw [if_neg hn, Function.update_of_ne (Ne.symm hn)]
    rfl

/-- Putting a cell back undoes every change under its name. -/
theorem putBack_eq {cells' : Cells} {name : String} (h : ∀ n, n ≠ name → cells'[n]? = cells[n]?) :
    cells'.putBack name cells[name]? = cells := by
  refine Std.ExtTreeMap.ext_getElem? fun n => ?_
  have hback : (cells'.putBack name cells[name]?)[n]? =
      if name = n then cells[name]? else cells'[n]? := by
    cases cells[name]? with
    | none => simp [putBack, Std.ExtTreeMap.getElem?_erase]
    | some cell => simp [putBack, Std.ExtTreeMap.getElem?_insert]
  rw [hback]
  split
  · rename_i hn
    rw [hn]
  · rename_i hn
    exact h n (Ne.symm hn)

/-! ## Refreshing cells -/

theorem getElem?_refresh (name n : String) :
    (cells.refresh name)[n]? =
      if name = n then cells[n]?.map fun cell => ⟨cell.contents, cells.valueOf cell.contents⟩
      else cells[n]? := by
  unfold refresh
  by_cases hn : name = n
  · subst hn
    cases h : cells[name]? <;> simp [h]
  · cases cells[name]? with
    | none => rw [if_neg hn]
    | some cell => simp [Std.ExtTreeMap.getElem?_insert, hn]

theorem getElem?_refresh_of_ne {name n : String} (h : name ≠ n) :
    (cells.refresh name)[n]? = cells[n]? := by
  rw [getElem?_refresh, if_neg h]

theorem contents_refresh (name : String) : (cells.refresh name).contents = cells.contents := by
  funext n
  rw [contents, getElem?_refresh]
  split
  · rw [Option.map_map]
    rfl
  · rfl

theorem contents_refreshAll (order : List String) :
    (cells.refreshAll order).contents = cells.contents := by
  induction order generalizing cells with
  | nil => rfl
  | cons x order ih => exact ih.trans (contents_refresh x)

/-- Cells outside the order stay as they are. -/
theorem getElem?_refreshAll_of_notMem {order : List String} {n : String} (h : n ∉ order) :
    (cells.refreshAll order)[n]? = cells[n]? := by
  induction order generalizing cells with
  | nil => rfl
  | cons x order ih =>
    rw [List.mem_cons, not_or] at h
    exact (ih h.2).trans (getElem?_refresh_of_ne (Ne.symm h.1))

/-- A cell that does not read `name` is current after `name` is refreshed, if it was before or is
the one refreshed. -/
theorem currentAt_refresh {name n : String} (hreads : ¬ Reads cells.contents n name)
    (h : n ≠ name → cells.CurrentAt n) : (cells.refresh name).CurrentAt n := by
  intro cell hcell
  have hvalue : cells.valueOf cell.contents = (cells.refresh name).valueOf cell.contents := by
    refine valueOf_congr fun v hv => (getElem?_refresh_of_ne ?_).symm
    rintro rfl
    refine hreads (reads_iff.mpr ⟨cell.contents, ?_, hv⟩)
    rw [← contents_refresh name]
    exact contents_eq_some hcell
  rw [← hvalue]
  by_cases hn : n = name
  · subst hn
    rw [getElem?_refresh, if_pos rfl, Option.map_eq_some_iff] at hcell
    obtain ⟨_, _, rfl⟩ := hcell
    rfl
  · rw [getElem?_refresh_of_ne (Ne.symm hn)] at hcell
    exact h hn cell hcell

/-- **Refreshing in an update order makes every value current**, if the cells outside it were. -/
theorem currentAt_refreshAll {d : Dependencies} {order : List String} (hnodup : order.Nodup)
    (htop : d.Topological order) (hedge : ∀ x y, Reads cells.contents y x → d.Edge x y)
    (h : ∀ n, n ∉ order → cells.CurrentAt n) (n : String) :
    (cells.refreshAll order).CurrentAt n := by
  -- Induction on what is still to be refreshed: all cells outside it are current.
  induction order generalizing cells with
  | nil => exact h n List.not_mem_nil
  | cons x order ih =>
    obtain ⟨hx, hnodup⟩ := List.nodup_cons.mp hnodup
    refine ih hnodup htop.2 (by rwa [contents_refresh]) fun m hm => ?_
    refine currentAt_refresh (fun hreads => hm (htop.1 m (hedge x m hreads))) fun hne => h m ?_
    rw [List.mem_cons, not_or]
    exact ⟨hne, hm⟩

end Cells

end Worksheet
