import Worksheet.Proofs.Sheet.History

/-!
# What an entry does

An entry that passes its checks puts contents under a name. What comes of it can be told from the
contents alone, without the dependencies that are kept for them: whether that closes a cycle, which
cells are refreshed, and what the sheet holds in the end.

* `enter_as_contents_call_for`: the three of them, for every entry to a reachable sheet.
-/

namespace Worksheet

open Relation (ReflTransGen TransGen)
open Dependencies (UpdateOrder)

/-- A variable of `k` is the name that `k` is put under, or reads it, directly or not. -/
def ClosesCycle (contents : String → Option Contents) (name : String) (k : Contents) : Prop :=
  ∃ f, k = .formula f ∧ ∃ v ∈ f.variableNames, v = name ∨ TransGen (Reads contents) v name

/-- The order starts with `name` and lists it and the cells that read it, directly or not, each of
them once and after every listed cell that it reads. -/
structure RefreshOrder (contents : String → Option Contents) (name : String)
    (order : List String) : Prop where
  head : order.head? = some name
  nodup : order.Nodup
  mem_iff : ∀ y, y ∈ order ↔ y = name ∨ TransGen (Reads contents) y name
  idxOf_lt : ∀ x ∈ order, ∀ y ∈ order, Reads contents y x → order.idxOf x < order.idxOf y

theorem Contents.isEmpty_iff {k : Contents} : k.isEmpty = true ↔ k = .text "" := by
  cases k with
  | number x => simp [isEmpty]
  | text t => simp [isEmpty]
  | formula f => simp [isEmpty]

namespace Sheet

/-- The contents of all cells once `k` is put under `name`; the empty text takes the cell away. -/
def contentsAfter (s : Sheet) (name : String) (k : Contents) : String → Option Contents :=
  Function.update s.cells.contents name (if k = .text "" then none else some k)

/-- What filling the cell `name` with `k` makes of a sheet, when the cells of `order` are
refreshed. -/
structure Filled (s : Sheet) (name : String) (k : Contents) (order : List String) (t : Sheet) :
    Prop where
  contents : t.cells.contents = s.contentsAfter name k
  modified : t.modified = true
  others : ∀ n, n ∉ order → t.cells[n]? = s.cells[n]?

variable {s : Sheet} {name : String} {k : Contents} {d : Dependencies}

theorem contents_store_eq (s : Sheet) (name : String) (k : Contents) :
    (s.cells.store name k).contents = s.contentsAfter name k := by
  rw [Cells.contents_store, contentsAfter]
  by_cases hk : k = .text ""
  · rw [if_pos (Contents.isEmpty_iff.mpr hk), if_pos hk]
  · rw [if_neg (mt Contents.isEmpty_iff.mp hk), if_neg hk]

/-! ## From dependencies to contents -/

theorem Rewired.edge_eq (hd : s.Rewired name k d) (h : s.Consistent) :
    d.Edge = Function.swap (Reads (s.contentsAfter name k)) := by
  funext x y
  rw [← contents_store_eq]
  exact propext (hd.edge_iff_reads h x y)

theorem Rewired.transGen_iff (hd : s.Rewired name k d) (h : s.Consistent) {x y : String} :
    TransGen d.Edge x y ↔ TransGen (Reads (s.contentsAfter name k)) y x := by
  rw [hd.edge_eq h]
  exact Relation.transGen_swap

/-- The search meets a cycle if and only if a variable of the new contents is the edited name or
reads it: what cycle there is goes through that name. -/
theorem Rewired.closes_iff (hd : s.Rewired name k d) (h : s.Consistent) :
    (∃ c, d.updateOrder name = .error c) ↔ ClosesCycle (s.contentsAfter name k) name k := by
  rw [Dependencies.updateOrder_eq_error_iff hd.wellFormed]
  constructor
  · rintro ⟨x, -, hxx⟩
    obtain ⟨hto, hfrom⟩ := hd.reaches_name h hxx
    have hself : TransGen d.Edge name name := (hxx.trans_right hfrom).trans_left hto
    obtain ⟨v, hpath, hlast⟩ := TransGen.tail'_iff.mp hself
    rw [hd.edge_iff, if_pos rfl] at hlast
    obtain ⟨f, rfl, hv⟩ := mem_variableNames_iff.mp hlast
    refine ⟨f, rfl, v, hv, ?_⟩
    rw [← hd.transGen_iff h]
    exact Relation.reflTransGen_iff_eq_or_transGen.mp hpath
  · rintro ⟨f, rfl, v, hv, hreads⟩
    rw [← hd.transGen_iff h] at hreads
    have hpath : ReflTransGen d.Edge name v :=
      Relation.reflTransGen_iff_eq_or_transGen.mpr hreads
    have hlast : d.Edge v name := by
      rw [hd.edge_iff, if_pos rfl]
      exact hv
    exact ⟨name, ReflTransGen.refl, TransGen.tail' hpath hlast⟩

/-- An update order of the new dependencies refreshes what the new contents call for. -/
theorem Rewired.refreshOrder (hd : s.Rewired name k d) (h : s.Consistent) {order : List String}
    (horder : UpdateOrder d name order) : RefreshOrder (s.contentsAfter name k) name order where
  head := horder.head
  nodup := horder.nodup
  mem_iff y := by
    rw [horder.mem_iff, Relation.reflTransGen_iff_eq_or_transGen, hd.transGen_iff h]
  idxOf_lt x hx y _ hxy := by
    refine horder.idxOf_lt hx ?_
    rw [hd.edge_eq h]
    exact hxy

/-- Storing contents and refreshing an order that has their name fills the cell. -/
theorem filled_refreshAll {order : List String} (hname : name ∈ order) (d : Dependencies) :
    s.Filled name k order { s with
      cells := (s.cells.store name k).refreshAll order
      dependencies := d
      modified := true } where
  contents := by
    rw [← contents_store_eq]
    exact Cells.contents_refreshAll order
  modified := rfl
  others n hn := by
    have hne : name ≠ n := fun he => hn (he ▸ hname)
    show ((s.cells.store name k).refreshAll order)[n]? = s.cells[n]?
    rw [Cells.getElem?_refreshAll_of_notMem hn, Cells.getElem?_store, if_neg hne]

/-! ## Entries -/

/-- **An entry does what its contents call for.** It is refused for a cycle if and only if a
variable of its formula is its name or reads it, and never for the names of its dependencies.
Otherwise it refreshes its name and all that reads it, in order, and leaves all other cells as they
were. -/
theorem enter_as_contents_call_for (h : s.Reachable) {entry : Entry}
    (hreq : s.requested entry = .ok (name, k)) :
    ((∃ cell cycle, (s.enter entry).result = .error (.closesCycle cell cycle)) ↔
        ClosesCycle (s.contentsAfter name k) name k) ∧
      (∀ e, (s.enter entry).result ≠ .error (.dependency e)) ∧
      (¬ ClosesCycle (s.contentsAfter name k) name k →
        ∃ order, (s.enter entry).result = .ok order ∧
          RefreshOrder (s.contentsAfter name k) name order ∧
          s.Filled name k order (s.enter entry).sheet) := by
  obtain ⟨hname, hk⟩ := requested_admitted hreq
  obtain ⟨d, hd, hcases⟩ := h.consistent.put_cases hname hk
  have hcloses := hd.closes_iff h.consistent
  rw [enter_of_ok hreq]
  obtain ⟨c, hc, hput⟩ | ⟨order, horder, hput⟩ := hcases
  · rw [hput]
    have hcycle := hcloses.mp ⟨c, hc⟩
    refine ⟨iff_of_true ⟨name, c, rfl⟩ hcycle, fun e he => ?_, fun hno => absurd hcycle hno⟩
    have hrefusals := Except.error.inj he
    contradiction
  · rw [hput]
    have hno : ¬ ClosesCycle (s.contentsAfter name k) name k := by
      intro hcycle
      obtain ⟨x, hreach, hxx⟩ :=
        (Dependencies.updateOrder_eq_error_iff hd.wellFormed).mp (hcloses.mpr hcycle)
      exact horder.not_transGen_self (horder.mem_iff.mpr hreach) hxx
    refine ⟨iff_of_false ?_ hno, fun e he => ?_, fun _ => ⟨order, rfl, ?_, ?_⟩⟩
    · rintro ⟨cell, cycle, he⟩
      contradiction
    · contradiction
    · exact hd.refreshOrder h.consistent horder
    · exact filled_refreshAll horder.start_mem d

theorem clearing_refreshes_readers :
    demo.requested (.text "a" "") = .ok ("a", .text "") ∧
      ∃ order, (demo.enter (.text "a" "")).result = .ok order ∧
        RefreshOrder (demo.contentsAfter "a" (.text "")) "a" order ∧
        demo.Filled "a" (.text "") order (demo.enter (.text "a" "")).sheet := by
  have hreq : demo.requested (.text "a" "") = .ok ("a", .text "") := by decide +kernel
  obtain ⟨-, -, hfilled⟩ := enter_as_contents_call_for reachable_demo hreq
  refine ⟨hreq, hfilled ?_⟩
  rintro ⟨f, hf, -⟩
  contradiction

end Sheet

end Worksheet
