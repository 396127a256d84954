import Worksheet.Proofs.Dependencies.Changes
import Worksheet.Proofs.Dependencies.Search

/-!
# Update orders and cycles

What follows from an `UpdateOrder` and from a cycle, in terms of the edges alone.

* `UpdateOrder.mem_iff`: an update order lists exactly the names that its start leads to.
* `UpdateOrder.idxOf_lt`: a name stands before each of its readers.
* `updateOrder_eq_error_iff`: there is no update order exactly when the start leads to a cycle.
* `cycles_are_detected`, `update_order_is_complete`: the two for all dependencies that changes make.
-/

namespace Worksheet.Dependencies

open Relation (ReflTransGen TransGen)

variable {d : Dependencies} {start : String} {order : List String}

theorem Topological.mem_of_edge {l : List String} (h : d.Topological l) {x y : String}
    (hx : x ∈ l) (hxy : d.Edge x y) : y ∈ l := by
  induction l with
  | nil => exact absurd hx List.not_mem_nil
  | cons z l ih =>
    rcases List.mem_cons.mp hx with rfl | hx
    · exact List.mem_cons_of_mem _ (h.1 y hxy)
    · exact List.mem_cons_of_mem _ (ih h.2 hx)

theorem Topological.mem_of_reflTransGen {l : List String} (h : d.Topological l) {x y : String}
    (hx : x ∈ l) (hxy : ReflTransGen d.Edge x y) : y ∈ l := by
  induction hxy with
  | refl => exact hx
  | tail _ hedge ih => exact h.mem_of_edge ih hedge

theorem Topological.idxOf_lt {l : List String} (h : d.Topological l) (hl : l.Nodup)
    {x y : String} (hx : x ∈ l) (hxy : d.Edge x y) : l.idxOf x < l.idxOf y := by
  induction l with
  | nil => exact absurd hx List.not_mem_nil
  | cons z l ih =>
    obtain ⟨hz, hl⟩ := List.nodup_cons.mp hl
    have hy : y ∈ l := by
      rcases List.mem_cons.mp hx with rfl | hx
      · exact h.1 y hxy
      · exact h.2.mem_of_edge hx hxy
    have hyz : z ≠ y := fun he => hz (he ▸ hy)
    rw [List.idxOf_cons_ne l hyz]
    rcases List.mem_cons.mp hx with rfl | hx
    · rw [List.idxOf_cons_self]
      exact Nat.succ_pos _
    · have hxz : z ≠ x := fun he => hz (he ▸ hx)
      rw [List.idxOf_cons_ne l hxz]
      exact Nat.succ_lt_succ (ih h.2 hl hx)

namespace UpdateOrder

theorem start_mem (h : UpdateOrder d start order) : start ∈ order :=
  List.mem_of_mem_head? h.head

/-- **An update order is complete**: it lists exactly the names that its start leads to. -/
theorem mem_iff (h : UpdateOrder d start order) {x : String} :
    x ∈ order ↔ ReflTransGen d.Edge start x :=
  ⟨h.reachable x, h.topological.mem_of_reflTransGen h.start_mem⟩

theorem idxOf_lt (h : UpdateOrder d start order) {x y : String} (hx : x ∈ order)
    (hxy : d.Edge x y) : order.idxOf x < order.idxOf y :=
  h.topological.idxOf_lt h.nodup hx hxy

/-- Along edges the place in the order grows, so no name of the order leads back to itself. -/
theorem not_transGen_self (h : UpdateOrder d start order) {x : String} (hx : x ∈ order) :
    ¬ TransGen d.Edge x x := by
  have hlt : ∀ {y}, TransGen d.Edge x y → order.idxOf x < order.idxOf y := by
    intro y hxy
    induction hxy with
    | single hedge => exact h.idxOf_lt hx hedge
    | tail hpath hedge ih =>
      have hmem := h.topological.mem_of_reflTransGen hx hpath.to_reflTransGen
      exact ih.trans (h.idxOf_lt hmem hedge)
  exact fun hxx => Nat.lt_irrefl _ (hlt hxx)

end UpdateOrder

/-- Along a closed chain a name leads back to itself. -/
theorem transGen_of_isChain {r : String → String → Prop} {x : String} {rest : List String}
    (h : (x :: rest ++ [x]).IsChain r) : TransGen r x x := by
  cases rest with
  | nil => exact TransGen.single (List.isChain_pair.mp h)
  | cons y rest =>
    rw [List.cons_append, List.cons_append, List.isChain_cons_cons, ← List.cons_append] at h
    exact TransGen.head' h.1 (List.relationReflTransGen_of_exists_isChain_cons _ h.2 (by simp))

theorem LeadsToCycle.exists_transGen_self {c : Cycle} (h : LeadsToCycle d start c) :
    ∃ x, ReflTransGen d.Edge start x ∧ TransGen d.Edge x x := by
  obtain ⟨x, rest, hpath, -⟩ := h.closed
  have hchain := h.chain
  rw [hpath] at hchain
  exact ⟨x, h.reachable x (by rw [hpath]; exact List.mem_cons_self), transGen_of_isChain hchain⟩

/-- **Cycle detection is exact**: no update order is found exactly when the start leads to a name
that leads back to itself. -/
theorem updateOrder_eq_error_iff (hd : d.WellFormed) :
    (∃ c, d.updateOrder start = .error c) ↔
      ∃ x, ReflTransGen d.Edge start x ∧ TransGen d.Edge x x := by
  have hfound := found_updateOrder hd start
  constructor
  · rintro ⟨c, hc⟩
    rw [hc] at hfound
    exact LeadsToCycle.exists_transGen_self hfound
  · rintro ⟨x, hx, hcycle⟩
    cases hresult : d.updateOrder start with
    | error c => exact ⟨c, rfl⟩
    | ok order =>
      rw [hresult] at hfound
      have horder : UpdateOrder d start order := hfound
      exact absurd hcycle (horder.not_transGen_self (horder.mem_iff.mpr hx))

theorem updateOrder_eq_ok (hd : d.WellFormed) (h : d.updateOrder start = .ok order) :
    UpdateOrder d start order := by
  have hfound := found_updateOrder hd start
  rw [h] at hfound
  exact hfound

theorem updateOrder_eq_error (hd : d.WellFormed) {c : Cycle} (h : d.updateOrder start = .error c) :
    LeadsToCycle d start c ∧ (start ∈ c.path → c.path.head? = some start) := by
  have hends := ends_updateOrder hd start
  have hfound := found_updateOrder hd start
  rw [h] at hends hfound
  exact ⟨hfound, hends.head?_path (Search.inv_begin d start)⟩

/-! ## Dependencies that changes make -/

/-- **Cycles are detected**: the search ends by itself, with a cycle exactly when the start leads to
a name that leads back to itself, and what it ends with is a simple loop that the start leads to. -/
theorem cycles_are_detected (h : d.Reachable) (start : String) :
    Search.Ends d (Search.descend d start {}) (d.updateOrder start) ∧
      ((∃ c, d.updateOrder start = .error c) ↔
        ∃ x, ReflTransGen d.Edge start x ∧ TransGen d.Edge x x) ∧
      ∀ c, d.updateOrder start = .error c → LeadsToCycle d start c := by
  refine ⟨ends_updateOrder h.wellFormed start, updateOrder_eq_error_iff h.wellFormed, ?_⟩
  intro c hc
  have hfound := found_updateOrder h.wellFormed start
  rw [hc] at hfound
  exact hfound

/-- A loop of three names, and a name outside it that leads there. -/
def deepLoop : Dependencies :=
  ofChanges [.connect "a" "b", .setReaders "b" ["c"], .setSources "d" ["c"], .connect "d" "b"]

theorem deepLoop_is_detected :
    deepLoop.Reachable ∧ deepLoop.updateOrder "a" = .error ⟨["b", "c", "d", "b"]⟩ ∧
      LeadsToCycle deepLoop "a" ⟨["b", "c", "d", "b"]⟩ := by
  have hreachable : deepLoop.Reachable := reachable_ofChanges _
  have hresult : deepLoop.updateOrder "a" = .error ⟨["b", "c", "d", "b"]⟩ := by decide +kernel
  obtain ⟨-, -, hcycle⟩ := cycles_are_detected hreachable "a"
  exact ⟨hreachable, hresult, hcycle _ hresult⟩

/-- **An update order is complete**: it begins with its start, lists the names that the start leads
to, each of them once, and each before its readers, which are all listed. -/
theorem update_order_is_complete (h : d.Reachable) (hok : d.updateOrder start = .ok order) :
    order.head? = some start ∧ order.Nodup ∧
      (∀ x, x ∈ order ↔ ReflTransGen d.Edge start x) ∧
      ∀ x ∈ order, ∀ y, d.Edge x y → y ∈ order ∧ order.idxOf x < order.idxOf y := by
  have horder := updateOrder_eq_ok h.wellFormed hok
  refine ⟨horder.head, horder.nodup, fun x => horder.mem_iff, fun x hx y hxy => ⟨?_, ?_⟩⟩
  · exact horder.topological.mem_of_edge hx hxy
  · exact horder.idxOf_lt hx hxy

/-- Two names read the first and are read by the last. -/
def diamond : Dependencies :=
  ofChanges [.setReaders "a" ["c", "b"], .setSources "d" ["b", "c"], .connect "x" "a"]

theorem diamond_order_is_complete :
    diamond.Reachable ∧ diamond.updateOrder "a" = .ok ["a", "c", "b", "d"] ∧
      (∀ x, x ∈ ["a", "c", "b", "d"] ↔ ReflTransGen diamond.Edge "a" x) ∧
      ∀ x ∈ ["a", "c", "b", "d"], ∀ y, diamond.Edge x y → y ∈ ["a", "c", "b", "d"] ∧
        ["a", "c", "b", "d"].idxOf x < ["a", "c", "b", "d"].idxOf y := by
  have hreachable : diamond.Reachable := reachable_ofChanges _
  have hok : diamond.updateOrder "a" = .ok ["a", "c", "b", "d"] := by decide +kernel
  obtain ⟨-, -, hmem, htopological⟩ := update_order_is_complete hreachable hok
  exact ⟨hreachable, hok, hmem, htopological⟩

end Worksheet.Dependencies
