import Worksheet.Proofs.Sheet.Refresh
import Worksheet.Proofs.Sheet.Request

/-!
# Consistent sheets

A sheet is `Consistent` when its dependencies are what its formulas read, without a cycle, when it
stores only admitted contents under canonical names, and when every value is current. Putting
contents into a cell keeps this, and undoes its own edit where that would close a cycle.

* `Consistent.put_cases`: everything that putting contents into a cell can do.
* `Consistent.refreshed`: a sheet whose cells were refreshed is consistent again.
-/

namespace Worksheet

open Relation (ReflTransGen TransGen)
open Dependencies (UpdateOrder LeadsToCycle)

/-- Contents that may go into a cell: finite numbers, texts, and formulas over canonical names. -/
structure Contents.Admitted (policy : NamePolicy) (k : Contents) : Prop where
  finite : ∀ x, k = .number x → x.isFinite = true
  canonical : ∀ v ∈ k.variableNames, policy.Canonical v

theorem Contents.admitted_text (policy : NamePolicy) (t : String) :
    (Contents.text t).Admitted policy :=
  ⟨fun _ h => by contradiction, fun _ h => absurd h Std.ExtTreeSet.not_mem_empty⟩

theorem Contents.admitted_number {policy : NamePolicy} {x : Number.Binary64}
    (hx : x.isFinite = true) : (Contents.number x).Admitted policy :=
  ⟨fun _ h => Contents.number.inj h ▸ hx, fun _ h => absurd h Std.ExtTreeSet.not_mem_empty⟩

namespace Sheet

/-- The dependencies are what the formulas read, the contents are admitted, the values current. -/
structure Consistent (s : Sheet) : Prop where
  wellFormed : s.dependencies.WellFormed
  edge_iff : ∀ x y, s.dependencies.Edge x y ↔ Reads s.cells.contents y x
  acyclic : ∀ x, ¬ TransGen s.dependencies.Edge x x
  canonical : ∀ name k, s.cells.contents name = some k → s.policy.Canonical name
  nonempty : ∀ name k, s.cells.contents name = some k → k.isEmpty = false
  admitted : ∀ name k, s.cells.contents name = some k → k.Admitted s.policy
  current : ∀ name, s.cells.CurrentAt name

variable {s : Sheet} {name : String} {k : Contents}

/-- Both ends of an edge are canonical names. -/
theorem Consistent.canonical_of_edge (h : s.Consistent) {x y : String}
    (hxy : s.dependencies.Edge x y) : s.policy.Canonical x ∧ s.policy.Canonical y := by
  obtain ⟨k, hk, hx⟩ := reads_iff.mp ((h.edge_iff x y).mp hxy)
  exact ⟨(h.admitted y k hk).canonical x hx, h.canonical y k hk⟩

/-- A sheet without cells is consistent. -/
theorem consistent_of_empty (hcells : s.cells = ∅) (hdependencies : s.dependencies = .empty) :
    s.Consistent := by
  have hnone : ∀ n, s.cells[n]? = none := fun n => by rw [hcells, Std.ExtTreeMap.getElem?_empty]
  have hcontents : ∀ n k, s.cells.contents n ≠ some k := fun n k h => by
    rw [Cells.contents, hnone] at h
    contradiction
  have hedge : ∀ x y, ¬ s.dependencies.Edge x y := fun x y => by
    rw [hdependencies]
    exact Dependencies.not_edge_empty
  refine ⟨?_, fun x y => ?_, fun x hx => ?_, fun n k h => ?_, fun n k h => ?_, fun n k h => ?_,
    fun n cell h => ?_⟩
  · rw [hdependencies]
    exact Dependencies.wellFormed_empty
  · refine iff_of_false (hedge x y) ?_
    rintro ⟨f, hf, -⟩
    exact hcontents y _ hf
  · obtain ⟨y, -, hyx⟩ := TransGen.tail'_iff.mp hx
    exact hedge y x hyx
  · exact absurd h (hcontents n k)
  · exact absurd h (hcontents n k)
  · exact absurd h (hcontents n k)
  · rw [hnone] at h
    contradiction

/-! ## What an entry asks for -/

theorem admitted_of_interpretFormula {text : String} (h : s.interpretFormula text = .ok k) :
    k.Admitted s.policy := by
  unfold interpretFormula at h
  split at h
  · rename_i f hf
    obtain rfl := Except.ok.inj h
    exact ⟨fun _ h => by contradiction, fun _ hv => Formula.exists_canonical?_of_parse hf hv⟩
  · contradiction

theorem admitted_of_interpret {input : String} (h : s.interpret input = .ok k) :
    k.Admitted s.policy := by
  unfold interpret at h
  split at h
  · exact admitted_of_interpretFormula h
  · split at h
    · obtain rfl := Except.ok.inj h
      split
      · rename_i hx
        exact Contents.admitted_number hx
      · exact Contents.admitted_text _ _
    · obtain rfl := Except.ok.inj h
      exact Contents.admitted_text _ _

theorem admitted_of_contentsOf {entry : Entry} (h : s.contentsOf entry = .ok k) :
    k.Admitted s.policy := by
  cases entry with
  | input raw input => exact admitted_of_interpret h
  | optional raw input =>
    cases input with
    | none => contradiction
    | some input => exact admitted_of_interpret h
  | number raw x =>
    simp only [contentsOf] at h
    split at h
    · rename_i hx
      obtain rfl := Except.ok.inj h
      exact Contents.admitted_number hx
    · contradiction
  | text raw t =>
    obtain rfl := Except.ok.inj h
    exact Contents.admitted_text _ _
  | formula raw f => exact admitted_of_interpretFormula h

/-- An entry that passes its checks asks for admitted contents under a canonical name. -/
theorem requested_admitted {entry : Entry} (h : s.requested entry = .ok (name, k)) :
    s.policy.Canonical name ∧ k.Admitted s.policy := by
  obtain ⟨⟨raw, -, hname⟩, hk⟩ := requested_eq_ok_iff.mp h
  exact ⟨canonical_of_resolve hname, admitted_of_contentsOf hk⟩

/-! ## Editing and undoing -/

/-- **Undoing an edit** gives the sheet back, whatever the edit did to the cell and its sources. -/
theorem undo_snapshot {cells : Cells} {sources : List String} (hd : s.dependencies.WellFormed)
    (hnames : "" ∉ name :: s.dependencies.sourcesOf name)
    (hcells : ∀ n, n ≠ name → cells[n]? = s.cells[n]?) :
    undo { s with cells, dependencies := s.dependencies.withSources name sources }
      (s.snapshot name) = s := by
  unfold undo snapshot
  simp only [Dependencies.perform_setSources, if_neg hnames, hd.withSources_back,
    Cells.putBack_eq hcells]

/-! ## Putting contents into a cell -/

/-- The dependencies `d` are those of `s` after `k` is put under `name`. -/
structure Rewired (s : Sheet) (name : String) (k : Contents) (d : Dependencies) : Prop where
  wellFormed : d.WellFormed
  edge_iff : ∀ x y, d.Edge x y ↔ if y = name then x ∈ k.variableNames else s.dependencies.Edge x y

variable {d : Dependencies}

/-- They are what the formulas read once the contents are stored. -/
theorem Rewired.edge_iff_reads (hd : s.Rewired name k d) (h : s.Consistent) (x y : String) :
    d.Edge x y ↔ Reads (s.cells.store name k).contents y x := by
  rw [hd.edge_iff, reads_iff, Cells.contents_store]
  by_cases hy : y = name
  · subst hy
    rw [if_pos rfl, Function.update_self]
    cases k with
    | number v => simp [Contents.variableNames]
    | text t => simp [Contents.variableNames]
    | formula f => simp [Contents.variableNames, Contents.isEmpty]
  · rw [if_neg hy, Function.update_of_ne hy, h.edge_iff, reads_iff]

/-- What leads from one name to another after the edit did so before, or does so through the edited
name. -/
theorem Rewired.transGen_cases (hd : s.Rewired name k d) {x y : String}
    (hxy : TransGen d.Edge x y) :
    TransGen s.dependencies.Edge x y ∨ ReflTransGen d.Edge x name ∧ ReflTransGen d.Edge name y := by
  induction hxy with
  | @single b hedge =>
    by_cases hb : b = name
    · subst hb
      exact Or.inr ⟨ReflTransGen.single hedge, ReflTransGen.refl⟩
    · rw [hd.edge_iff, if_neg hb] at hedge
      exact Or.inl (TransGen.single hedge)
  | @tail b c hpath hedge ih =>
    by_cases hc : c = name
    · subst hc
      exact Or.inr ⟨(hpath.tail hedge).to_reflTransGen, ReflTransGen.refl⟩
    · rcases ih with hold | ⟨hto, hfrom⟩
      · rw [hd.edge_iff, if_neg hc] at hedge
        exact Or.inl (hold.tail hedge)
      · exact Or.inr ⟨hto, hfrom.tail hedge⟩

/-- **A new cycle goes through the edited name**, as there was none before. -/
theorem Rewired.reaches_name (hd : s.Rewired name k d) (h : s.Consistent) {x : String}
    (hxx : TransGen d.Edge x x) : ReflTransGen d.Edge x name ∧ ReflTransGen d.Edge name x := by
  rcases hd.transGen_cases hxx with hold | hnew
  · exact absurd hold (h.acyclic x)
  · exact hnew

/-- **What putting contents into a cell can do**: it closes a cycle and changes nothing, or it
refreshes the cells of an update order. -/
theorem Consistent.put_cases (h : s.Consistent) (hname : s.policy.Canonical name)
    (hk : k.Admitted s.policy) : ∃ d, s.Rewired name k d ∧
      ((∃ c, d.updateOrder name = .error c ∧ s.put name k = ⟨s, .error (.closesCycle name c)⟩) ∨
        ∃ order, UpdateOrder d name order ∧ s.put name k =
          ⟨{ s with
              cells := (s.cells.store name k).refreshAll order
              dependencies := d
              modified := true }, .ok order⟩) := by
  have hsources : "" ∉ name :: k.variableNames.toList := by
    rw [List.mem_cons, Std.ExtTreeSet.mem_toList, not_or]
    exact ⟨hname.ne_empty.symm, fun he => (hk.canonical "" he).ne_empty rfl⟩
  have hbefore : "" ∉ name :: s.dependencies.sourcesOf name := by
    rw [List.mem_cons, h.wellFormed.mem_sourcesOf, not_or]
    exact ⟨hname.ne_empty.symm, fun he => (h.canonical_of_edge he).1.ne_empty rfl⟩
  have hd : s.Rewired name k (s.dependencies.withSources name k.variableNames.toList) :=
    ⟨h.wellFormed.withSources, fun x y => by
      rw [Dependencies.edge_withSources h.wellFormed, Std.ExtTreeSet.mem_toList]⟩
  refine ⟨_, hd, ?_⟩
  unfold put
  simp only [Dependencies.perform_setSources, if_neg hsources]
  cases hresult : (s.dependencies.withSources name k.variableNames.toList).updateOrder name with
  | error c =>
    refine Or.inl ⟨c, rfl, ?_⟩
    have hothers : ∀ n, n ≠ name → (s.cells.store name k)[n]? = s.cells[n]? := fun n hn => by
      rw [Cells.getElem?_store, if_neg (Ne.symm hn)]
    simp only [undo_snapshot h.wellFormed hbefore hothers]
  | ok order => exact Or.inr ⟨order, Dependencies.updateOrder_eq_ok hd.wellFormed hresult, rfl⟩

/-- Once an update order is found and its cells are refreshed, the sheet is consistent again. -/
theorem Consistent.refreshed (h : s.Consistent) (hname : s.policy.Canonical name)
    (hk : k.Admitted s.policy) (hd : s.Rewired name k d) {order : List String}
    (horder : UpdateOrder d name order) :
    Consistent { s with
      cells := (s.cells.store name k).refreshAll order
      dependencies := d
      modified := true } := by
  have hcontents : ((s.cells.store name k).refreshAll order).contents =
      (s.cells.store name k).contents := Cells.contents_refreshAll order
  have hstored : ∀ n c, (s.cells.store name k).contents n = some c →
      (n = name ∧ c = k ∧ k.isEmpty = false) ∨ (n ≠ name ∧ s.cells.contents n = some c) := by
    intro n c hc
    rw [Cells.contents_store] at hc
    by_cases hn : n = name
    · subst hn
      rw [Function.update_self] at hc
      split at hc
      · contradiction
      · rename_i hempty
        exact Or.inl ⟨rfl, (Option.some.inj hc).symm, by simpa using hempty⟩
    · rw [Function.update_of_ne hn] at hc
      exact Or.inr ⟨hn, hc⟩
  refine ⟨hd.wellFormed, fun x y => ?_, fun x hxx => ?_, fun n c hc => ?_, fun n c hc => ?_,
    fun n c hc => ?_, fun n => ?_⟩
  · simp only [hcontents]
    exact hd.edge_iff_reads h x y
  · exact horder.not_transGen_self (horder.mem_iff.mpr (hd.reaches_name h hxx).2) hxx
  · simp only [hcontents] at hc
    rcases hstored n c hc with ⟨rfl, -, -⟩ | ⟨-, hc⟩
    · exact hname
    · exact h.canonical n c hc
  · simp only [hcontents] at hc
    rcases hstored n c hc with ⟨-, rfl, hempty⟩ | ⟨-, hc⟩
    · exact hempty
    · exact h.nonempty n c hc
  · simp only [hcontents] at hc
    rcases hstored n c hc with ⟨-, rfl, -⟩ | ⟨-, hc⟩
    · exact hk
    · exact h.admitted n c hc
  · refine Cells.currentAt_refreshAll horder.nodup horder.topological
      (fun x y hxy => (hd.edge_iff_reads h x y).mpr hxy) (fun m hm => ?_) n
    -- A cell outside the order reads nothing that was stored, so it is current as before.
    have hne : name ≠ m := fun he => hm (he ▸ horder.start_mem)
    intro cell hcell
    rw [Cells.getElem?_store, if_neg hne] at hcell
    rw [h.current m cell hcell]
    refine Cells.valueOf_congr fun v hv => ?_
    rw [Cells.getElem?_store, if_neg]
    rintro rfl
    refine hm (horder.topological.mem_of_edge horder.start_mem ?_)
    rw [hd.edge_iff, if_neg (Ne.symm hne), h.edge_iff, reads_iff]
    exact ⟨cell.contents, Cells.contents_eq_some hcell, hv⟩

end Sheet

end Worksheet
