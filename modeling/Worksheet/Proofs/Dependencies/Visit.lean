import Worksheet.Proofs.Dependencies.UpdateOrder

/-!
# The search for an update order is a recursive visit

`visit` is depth-first search as a recursion: its path is an argument, and the frames of `Search`
are the calls that wait. It ends without fuel, because a name that comes onto the path takes the
edges from it out of `edgesOff`. A call that returns corresponds to a search that has the frames
again which it had before the call (`Search.Visits`).

* `Search.visits_next`: what the search does with the next reader of the innermost name is a visit.
* `search_is_recursive`: an update order is the names in the reverse of the order in which visits
  finish them, and a cycle is the one that the visits meet.
-/

namespace Worksheet.Dependencies

variable {d : Dependencies} {start : String}

/-! ## The recursive visit -/

/-- The edges from names that are not on the path. -/
def edgesOff (d : Dependencies) (path : List String) : Finset (String × String) :=
  d.edges.filter fun e => e.1 ∉ path

theorem edgesOff_ssubset {path : List String} {node next : String} (hnode : node ∉ path)
    (hnext : next ∈ d.readersOf node) : d.edgesOff (path ++ [node]) ⊂ d.edgesOff path := by
  have hsubset : d.edgesOff (path ++ [node]) ⊆ d.edgesOff path := by
    intro e he
    simp only [edgesOff, Finset.mem_filter, List.mem_append, not_or] at he ⊢
    exact ⟨he.1, he.2.1⟩
  refine (Finset.ssubset_iff_of_subset hsubset).mpr ⟨(node, next), ?_, fun hmem => ?_⟩
  · exact Finset.mem_filter.mpr ⟨mem_edges.mpr (mem_readersOf.mp hnext), hnode⟩
  · exact (Finset.mem_filter.mp hmem).2 (by simp)

/-- Visits a name to which `path` leads, after these names were finished in this order. A name on
the path closes a cycle: the path from that name on, and the name again. A finished name is passed
over. Any other name is finished after its readers, which are visited in order. -/
def visit (d : Dependencies) (path finished : List String) (node : String) :
    Except Cycle (List String) :=
  if node ∈ path then .error ⟨path.dropWhile (· ≠ node) ++ [node]⟩
  else if node ∈ finished then .ok finished
  else do
    let finished ← (d.readersOf node).attach.foldlM
      (fun finished next => d.visit (path ++ [node]) finished next.1) finished
    return finished ++ [node]
termination_by (d.edgesOff path).card
decreasing_by exact Finset.card_lt_card (edgesOff_ssubset ‹_› next.2)

theorem visit_of_notMem {path finished : List String} {node : String} (hpath : node ∉ path)
    (hfinished : node ∉ finished) : d.visit path finished node =
      (d.readersOf node).foldlM (d.visit (path ++ [node])) finished >>=
        fun finished => pure (finished ++ [node]) := by
  rw [visit, if_neg hpath, if_neg hfinished, List.foldlM_subtype, List.unattach_attach]
  exact fun _ _ _ => rfl

/-- The readers of a name are listed in strictly ascending order. -/
theorem pairwise_readersOf (x : String) : (d.readersOf x).Pairwise (· < ·) := by
  have hordered : (d.readersOf x).Pairwise fun a b => compare a b = .lt :=
    Std.ExtTreeSet.ordered_toList
  exact hordered.imp fun h => compareOfLessAndEq_eq_lt.mp h

namespace Search

variable {s t : Search} {result : Except Cycle (List String)}
  {frames frames' : List (String × List String)}

/-! ## Searches and visits -/

/-- A search that ends takes its next step. -/
theorem Ends.next (h : Ends d s result) :
    match s.frames with
    | [] => result = .ok s.order
    | (node, []) :: frames => Ends d (s.ascend node frames) result
    | (node, next :: others) :: frames =>
      if next ∈ s.onPath then
        result = .error (cycleAt next { s with frames := (node, others) :: frames })
      else if next ∈ s.complete then Ends d { s with frames := (node, others) :: frames } result
      else Ends d (Search.descend d next { s with frames := (node, others) :: frames }) result := by
  cases h with
  | finish hf => rw [hf]
  | ascend hf h =>
    rw [hf]
    exact h
  | cycle hf hpath =>
    rw [hf]
    exact (if_pos hpath).mpr rfl
  | skip hf hpath hcomplete h =>
    rw [hf]
    simp only [if_neg hpath, if_pos hcomplete]
    exact h
  | descend hf hpath hcomplete h =>
    rw [hf]
    simp only [if_neg hpath, if_neg hcomplete]
    exact h

/-- What the search does from `s` on is a visit with this outcome: it ends with the cycle of the
visit, or it comes to have these frames, with the names complete that the visit finished. -/
def Visits (d : Dependencies) (start : String) (s : Search)
    (frames : List (String × List String)) : Except Cycle (List String) → Prop
  | .error c => ∀ result, Ends d s result → result = .error c
  | .ok finished => ∃ t, Inv d start t ∧ t.frames = frames ∧ t.order.reverse = finished ∧
      ∀ result, Ends d s result → Ends d t result

theorem Visits.of_ends {outcome : Except Cycle (List String)}
    (h : Visits d start t frames outcome)
    (hends : ∀ result, Ends d s result → Ends d t result) : Visits d start s frames outcome := by
  cases outcome with
  | error c => exact fun result hs => h result (hends result hs)
  | ok finished =>
    obtain ⟨u, hu, hframes, horder, hrest⟩ := h
    exact ⟨u, hu, hframes, horder, fun result hs => hrest result (hends result hs)⟩

/-- One visit after another; a cycle in the first ends both. -/
theorem Visits.bind {outcome : Except Cycle (List String)}
    {more : List String → Except Cycle (List String)} (h : Visits d start s frames outcome)
    (hmore : ∀ t, Inv d start t → t.frames = frames →
      Visits d start t frames' (more t.order.reverse)) :
    Visits d start s frames' (outcome >>= more) := by
  cases outcome with
  | error c => exact h
  | ok finished =>
    obtain ⟨t, ht, hframes, rfl, hends⟩ := h
    exact (hmore t ht hframes).of_ends hends

/-- The cycle that the path closes is the path from the name on. -/
theorem cycleAt_eq (hnodup : s.path.Nodup) {node : String} (hnode : node ∈ s.path) :
    cycleAt node s = ⟨s.path.dropWhile (· ≠ node) ++ [node]⟩ := by
  obtain ⟨before, after, hpath, hcycle⟩ := path_eq_of_mem hnode
  have hbefore : ∀ x ∈ before, x ≠ node := by
    rintro x hx rfl
    rw [hpath] at hnodup
    exact (List.nodup_append.mp hnodup).2.2 x hx x List.mem_cons_self rfl
  rw [hcycle, hpath, List.dropWhile_append_of_pos fun x hx => decide_eq_true (hbefore x hx)]
  simp

section Step

variable {path : List String} {node : String}

/-- Looking at all readers of the innermost name visits them in order, if looking at each of them
visits it. -/
theorem visits_readers {readers : List String}
    (hvisit : ∀ next ∈ d.readersOf node, ∀ t : Search, Inv d start t → t.path = path →
      ∀ others frames, t.frames = (node, next :: others) :: frames →
        Visits d start t ((node, others) :: frames) (d.visit path t.order.reverse next))
    (h : Inv d start s) (hpath : s.path = path) (hf : s.frames = (node, readers) :: frames) :
    Visits d start s ((node, []) :: frames) (readers.foldlM (d.visit path) s.order.reverse) := by
  induction readers generalizing s with
  | nil => exact ⟨s, h, hf, rfl, fun _ hs => hs⟩
  | cons next readers ih =>
    rw [List.foldlM_cons]
    have hnext := mem_readersOf.mpr (h.edge_next hf)
    refine (hvisit next hnext s h hpath readers frames hf).bind fun t ht htf => ?_
    exact ih ht (by rw [path_eq htf, ← path_eq hf, hpath]) htf

/-- **Looking at the next reader of the innermost name visits it.** -/
theorem visits_next {finished others : List String} {next : String} (h : Inv d start s)
    (hpath : s.path = path) (hfinished : s.order.reverse = finished)
    (hf : s.frames = (node, next :: others) :: frames) :
    Visits d start s ((node, others) :: frames) (d.visit path finished next) := by
  induction path, finished, next using visit.induct (d := d)
    generalizing s node others frames with
  | case1 path finished next hmem =>
    subst hpath
    rw [visit, if_pos hmem]
    intro result hs
    have hstep := hs.next
    rw [hf] at hstep
    simp only [if_pos ((h.mem_onPath next).mpr hmem)] at hstep
    have hnodup := (List.nodup_append.mp h.nodup).1
    rw [hstep, cycleAt_skip hf, cycleAt_eq hnodup hmem]
  | case2 path finished next hmem hdone =>
    subst hpath hfinished
    have hpath := mt (h.mem_onPath next).mp hmem
    have horder := List.mem_reverse.mp hdone
    rw [visit, if_neg hmem, if_pos hdone]
    refine ⟨_, h.skip hf horder, rfl, rfl, fun result hs => ?_⟩
    have hstep := hs.next
    rw [hf] at hstep
    simpa only [if_neg hpath, if_pos ((h.mem_complete next).mpr horder)] using hstep
  | case3 path finished next hmem hdone ih =>
    subst hpath hfinished
    have hpath := mt (h.mem_onPath next).mp hmem
    have hcomplete := mt (h.mem_complete next).mp (mt List.mem_reverse.mpr hdone)
    have hdown := h.descend hf (h.notMem_met hpath hcomplete)
    rw [visit_of_notMem hmem hdone]
    -- The call for each reader is a visit by induction, as the path has grown by the name.
    have hreaders := visits_readers (fun x hx t ht hpath others frames hf =>
      ih t.order.reverse ⟨x, hx⟩ ht hpath rfl hf) hdown (path_descend hf) rfl
    refine (hreaders.bind fun t ht htf => ?_).of_ends fun result hs => ?_
    · refine ⟨_, ht.ascend htf, rfl, List.reverse_cons, fun result hs => ?_⟩
      have hstep := hs.next
      rwa [htf] at hstep
    · have hstep := hs.next
      rw [hf] at hstep
      simpa only [if_neg hpath, if_neg hcomplete] using hstep

end Step

end Search

/-- The search from a name is a visit of it, where nothing is on the path or finished yet. -/
theorem updateOrder_eq_visit (hd : d.WellFormed) (start : String) :
    d.updateOrder start = (d.visit [] [] start).map List.reverse := by
  have hbegin : (Search.descend d start {}).path = [start] := rfl
  have hreaders : Search.Visits d start (Search.descend d start {}) [(start, [])]
      ((d.readersOf start).foldlM (d.visit [start]) []) :=
    Search.visits_readers (fun _ _ _ ht hpath _ _ hf => Search.visits_next ht hpath rfl hf)
      (Search.inv_begin d start) hbegin rfl
  have hends := ends_updateOrder hd start
  rw [visit_of_notMem List.not_mem_nil List.not_mem_nil, List.nil_append]
  generalize (d.readersOf start).foldlM (d.visit [start]) [] = outcome at hreaders ⊢
  cases outcome with
  | error c => exact hreaders _ hends
  | ok finished =>
    obtain ⟨t, -, hframes, rfl, hrest⟩ := hreaders
    -- What is left is to complete the start itself, and to end.
    have hstart := (hrest _ hends).next
    rw [hframes] at hstart
    have hdone : d.updateOrder start = .ok (start :: t.order) := hstart.next
    rw [hdone]
    show _ = Except.ok (t.order.reverse ++ [start]).reverse
    rw [List.reverse_append, List.reverse_reverse, List.reverse_singleton, List.singleton_append]

/-- **The search is recursive**: readers are visited in ascending order, the update order is the
reverse of the order in which the visits finish names, and the search ends with a cycle exactly
when the visits do, with the same. -/
theorem search_is_recursive (h : d.Reachable) (start : String) :
    (∀ x, (d.readersOf x).Pairwise (· < ·) ∧ ∀ y, y ∈ d.readersOf x ↔ d.Edge x y) ∧
      d.updateOrder start = (d.visit [] [] start).map List.reverse :=
  ⟨fun x => ⟨pairwise_readersOf x, fun _ => mem_readersOf⟩, updateOrder_eq_visit h.wellFormed start⟩

/-- Of the readers of `a`, `c` closes two loops: one through `a`, and one by itself. -/
def twoLoops : Dependencies :=
  ofChanges [.setReaders "a" ["c", "b"], .connect "b" "d", .setReaders "c" ["d", "c", "a"]]

theorem twoLoops_is_recursive :
    twoLoops.Reachable ∧ twoLoops.updateOrder "b" = .ok ["b", "d"] ∧
      twoLoops.visit [] [] "a" = .error ⟨["a", "c", "a"]⟩ := by
  have hreachable : twoLoops.Reachable := reachable_ofChanges _
  have hsearch : twoLoops.updateOrder "a" = .error ⟨["a", "c", "a"]⟩ := by decide +kernel
  obtain ⟨-, hvisit⟩ := search_is_recursive hreachable "a"
  rw [hsearch] at hvisit
  refine ⟨hreachable, by decide +kernel, ?_⟩
  cases houtcome : twoLoops.visit [] [] "a" with
  | error c =>
    rw [houtcome] at hvisit
    exact hvisit.symm
  | ok finished =>
    rw [houtcome] at hvisit
    contradiction

end Worksheet.Dependencies
