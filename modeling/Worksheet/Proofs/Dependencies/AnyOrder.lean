import Worksheet.Proofs.Dependencies.Changes
import Worksheet.Proofs.Dependencies.Search
import Worksheet.Proofs.Sorting

/-!
# Sets of names in any order

The readers of a name are a set, and a set may list its names in any order. A search that sorts what
it is given (`updateOrderBy`) does not see that order, and taking edges out does not depend on it
either. So dependencies are as good as their edges, however they came about.

* `updateOrderBy_eq`: the search over readers in any order is the search for an update order.
* `eq_iff_edges_eq`: well-formed dependencies are equal exactly when their edges are.
* `equal_with_same_edges`: the two for all dependencies that changes make.
-/

namespace Worksheet.Dependencies

/-- Gives the readers of each name, each of them once, in any order. -/
structure Lists (d : Dependencies) (list : String → List String) : Prop where
  nodup : ∀ x, (list x).Nodup
  mem_iff : ∀ x y, y ∈ list x ↔ d.Edge x y

namespace Search

/-- Names in ascending order. -/
def sorted (names : List String) : List String := names.mergeSort fun a b => (compare a b).isLE

/-- Lengthens the path by a name, whose readers come in the order of a listing. -/
def descendBy (list : String → List String) (node : String) (s : Search) : Search :=
  { s with frames := (node, sorted (list node)) :: s.frames, onPath := s.onPath.insert node }

/-- Searches on, like `run`, where the readers of a name come in the order of a listing. -/
def runBy (list : String → List String) : Nat → Search → Except Cycle (List String)
  | 0, s => .ok s.order
  | fuel + 1, s =>
    match s.frames with
    | [] => .ok s.order
    | (node, []) :: frames => runBy list fuel (s.ascend node frames)
    | (node, next :: others) :: frames =>
      let rest := { s with frames := (node, others) :: frames }
      if s.onPath.contains next then .error (rest.cycleAt next)
      else if s.complete.contains next then runBy list fuel rest
      else runBy list fuel (rest.descendBy list next)

end Search

/-- The names to compute again when `start` changes, or a cycle, where the readers of a name come in
the order of a listing. -/
def updateOrderBy (d : Dependencies) (list : String → List String) (start : String) :
    Except Cycle (List String) :=
  Search.runBy list (2 * d.size + 3) (Search.descendBy list start {})

variable {d e : Dependencies} {list : String → List String}

/-! ## The search -/

/-- A set of names has one ascending list. -/
theorem Lists.sorted_eq (h : d.Lists list) (x : String) :
    Search.sorted (list x) = d.readersOf x := by
  have hordered : (d.readersOf x).Pairwise fun a b => (compare a b).isLE = true :=
    Std.ExtTreeSet.ordered_toList.imp fun hab => by rw [hab]; rfl
  have hperm : (list x).Perm (d.readersOf x) := by
    rw [List.perm_ext_iff_of_nodup (h.nodup x) (Search.nodup_readersOf x)]
    exact fun y => (h.mem_iff x y).trans mem_readersOf.symm
  have hsort := List.mergeSort_perm (list x) fun a b => (compare a b).isLE
  have hnodup : ((Search.sorted (list x)).map id).Nodup := by
    rw [List.map_id, Search.sorted, hsort.nodup_iff]
    exact h.nodup x
  exact eq_of_ascending hnodup (hsort.trans hperm) (pairwise_sorted _) hordered

theorem Lists.descendBy_eq (h : d.Lists list) (node : String) (s : Search) :
    s.descendBy list node = s.descend d node := by
  rw [Search.descendBy, Search.descend, h.sorted_eq]

theorem Lists.runBy_eq (h : d.Lists list) (fuel : Nat) (s : Search) :
    Search.runBy list fuel s = Search.run d fuel s := by
  induction fuel generalizing s with
  | zero => rfl
  | succ fuel ih =>
    unfold Search.runBy Search.run
    rcases s.frames with _ | ⟨⟨node, _ | ⟨next, others⟩⟩, frames⟩
    · rfl
    · exact ih _
    · dsimp only
      rw [h.descendBy_eq, ih, ih]

/-- **The order of the readers is not seen** by the search. -/
theorem Lists.updateOrderBy_eq (h : d.Lists list) (start : String) :
    d.updateOrderBy list start = d.updateOrder start := by
  rw [updateOrderBy, updateOrder, h.runBy_eq, h.descendBy_eq]

/-! ## The edges -/

/-- **Well-formed dependencies are equal** exactly when their edges are. -/
theorem eq_iff_edges_eq (hd : d.WellFormed) (he : e.WellFormed) : d = e ↔ d.edges = e.edges := by
  refine ⟨congrArg edges, fun h => eq_of_edge_iff hd he fun x y => ?_⟩
  rw [← mem_edges, ← mem_edges, h]

/-- Taking out edges leaves the same, whatever the order in which they are taken. -/
theorem WellFormed.foldl_erase_perm (hd : d.WellFormed) {taken taken' : List (String × String)}
    (h : taken.Perm taken') :
    taken.foldl (fun d edge => d.erase edge.1 edge.2) d =
      taken'.foldl (fun d edge => d.erase edge.1 edge.2) d := by
  refine eq_of_edge_iff hd.foldl_erase hd.foldl_erase fun x y => ?_
  simp only [edge_foldl_erase, h.mem_iff]

/-- **Equal with the same edges**: dependencies that any changes make are equal exactly when they
have the same edges. Then a search from any start returns the same order or the same cycle for both,
whatever the order in which either lists the readers of a name, and taking edges out in any two
orders leaves the same of both. -/
theorem equal_with_same_edges (changes changes' : List Change) :
    ((ofChanges changes == ofChanges changes') = true ↔
        (ofChanges changes).edges = (ofChanges changes').edges) ∧
      ((ofChanges changes).edges = (ofChanges changes').edges →
        (∀ list list', (ofChanges changes).Lists list → (ofChanges changes').Lists list' →
          ∀ start, (ofChanges changes).updateOrderBy list start =
              (ofChanges changes').updateOrderBy list' start ∧
            (ofChanges changes).updateOrderBy list start =
              (ofChanges changes).updateOrder start) ∧
        ∀ taken taken' : List (String × String), taken.Perm taken' →
          taken.foldl (fun d edge => d.erase edge.1 edge.2) (ofChanges changes) =
            taken'.foldl (fun d edge => d.erase edge.1 edge.2) (ofChanges changes')) := by
  have hd := (reachable_ofChanges changes).wellFormed
  have he := (reachable_ofChanges changes').wellFormed
  refine ⟨beq_iff_eq.trans (eq_iff_edges_eq hd he), fun h => ?_⟩
  have hsame := (eq_iff_edges_eq hd he).mpr h
  refine ⟨fun list list' hlist hlist' start => ⟨?_, hlist.updateOrderBy_eq start⟩, ?_⟩
  · rw [hlist.updateOrderBy_eq, hlist'.updateOrderBy_eq, hsame]
  · intro taken taken' hperm
    rw [hd.foldl_erase_perm hperm, hsame]

end Worksheet.Dependencies
