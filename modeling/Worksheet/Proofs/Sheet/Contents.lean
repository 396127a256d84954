import Worksheet.Proofs.Sheet.Consistency

/-!
# Contents determine a sheet

Reading is well-founded in a consistent sheet, so a cell depends only on the contents under its own
name and under the names that it reads, directly or not. Consistent sheets with the same contents
are the same but for their settings.

* `wellFounded_edge`: dependencies without a cycle are well-founded.
* `Consistent.getElem?_eq`: what makes the cells under a name equal.
* `Consistent.eq_of_contents`: the same contents make the same cells and dependencies.
-/

namespace Worksheet

open Relation (ReflTransGen TransGen)

namespace Dependencies

variable {d : Dependencies}

open Classical in
/-- The edges from which edges lead on to a name. -/
noncomputable def edgesTo (d : Dependencies) (y : String) : Finset (String × String) :=
  d.edges.filter fun e => ReflTransGen d.Edge e.2 y

theorem mem_edgesTo {x y z : String} :
    (x, y) ∈ d.edgesTo z ↔ d.Edge x y ∧ ReflTransGen d.Edge y z := by
  simp only [edgesTo, Finset.mem_filter, mem_edges]

/-- Along an edge there are more of them, the edge itself among others. -/
theorem edgesTo_ssubset (h : ∀ x, ¬ TransGen d.Edge x x) {x y : String} (hxy : d.Edge x y) :
    d.edgesTo x ⊂ d.edgesTo y := by
  have hsubset : d.edgesTo x ⊆ d.edgesTo y := by
    rintro ⟨a, b⟩ hab
    obtain ⟨hedge, hpath⟩ := mem_edgesTo.mp hab
    exact mem_edgesTo.mpr ⟨hedge, hpath.tail hxy⟩
  refine (Finset.ssubset_iff_of_subset hsubset).mpr ⟨(x, y), ?_, fun hmem => ?_⟩
  · exact mem_edgesTo.mpr ⟨hxy, ReflTransGen.refl⟩
  · exact h x (TransGen.head' hxy (mem_edgesTo.mp hmem).2)

/-- **Dependencies without a cycle are well-founded.** -/
theorem wellFounded_edge (h : ∀ x, ¬ TransGen d.Edge x x) : WellFounded d.Edge :=
  Subrelation.wf (fun hxy => Finset.card_lt_card (edgesTo_ssubset h hxy))
    (measure fun y => (d.edgesTo y).card).wf

end Dependencies

namespace Sheet

variable {s t : Sheet}

/-- **Cells under a name are equal** if the contents under all names that lead to it are. -/
theorem Consistent.getElem?_eq (hs : s.Consistent) (ht : t.Consistent) {name : String}
    (h : ∀ n, ReflTransGen s.dependencies.Edge n name →
      s.cells.contents n = t.cells.contents n) : s.cells[name]? = t.cells[name]? := by
  have hwf := Dependencies.wellFounded_edge hs.acyclic
  induction name using hwf.induction with
  | _ name ih =>
    have hsources : ∀ x, s.dependencies.Edge x name → s.cells[x]? = t.cells[x]? :=
      fun x hx => ih x hx fun n hn => h n (hn.tail hx)
    have hcontents : s.cells[name]?.map Cell.contents = t.cells[name]?.map Cell.contents :=
      h name ReflTransGen.refl
    cases hcell : s.cells[name]? with
    | none =>
      rw [hcell, Option.map_none, eq_comm, Option.map_eq_none_iff] at hcontents
      exact hcontents.symm
    | some cell =>
      rw [hcell, Option.map_some, eq_comm, Option.map_eq_some_iff] at hcontents
      obtain ⟨cell', hcell', hsame⟩ := hcontents
      have hvalues : s.cells.valueOf cell.contents = t.cells.valueOf cell.contents := by
        refine Cells.valueOf_congr fun v hv => hsources v ?_
        rw [hs.edge_iff, reads_iff]
        exact ⟨cell.contents, Cells.contents_eq_some hcell, hv⟩
      have hvalue : cell.value = cell'.value := by
        rw [hs.current name cell hcell, ht.current name cell' hcell', hsame, hvalues]
      rw [hcell', Option.some.injEq]
      cases cell
      cases cell'
      exact (Cell.mk.injEq ..).mpr ⟨hsame.symm, hvalue⟩

/-- **Contents determine the cells and the dependencies** of a consistent sheet. -/
theorem Consistent.eq_of_contents (hs : s.Consistent) (ht : t.Consistent)
    (h : s.cells.contents = t.cells.contents) :
    s.cells = t.cells ∧ s.dependencies = t.dependencies := by
  constructor
  · exact Std.ExtTreeMap.ext_getElem? fun name => hs.getElem?_eq ht fun n _ => congrFun h n
  · refine Dependencies.eq_of_edge_iff hs.wellFormed ht.wellFormed fun x y => ?_
    rw [hs.edge_iff, ht.edge_iff, h]

end Sheet

end Worksheet
