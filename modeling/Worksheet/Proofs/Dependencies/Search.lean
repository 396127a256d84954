import Mathlib.Algebra.BigOperators.Group.Finset.Basic
import Mathlib.Algebra.GroupWithZero.Nat
import Mathlib.Algebra.Order.BigOperators.Group.Finset
import Mathlib.Data.List.Chain
import Mathlib.Logic.Relation
import Worksheet.Dependencies.UpdateOrder
import Worksheet.Proofs.Dependencies.Edges

/-!
# What the search for an update order finds

The search from `start` keeps the invariant `Inv`: its path leads from `start` along edges, the
readers of a name on the path are still to be looked at, complete, or the next name of the path,
and every complete name comes before its readers in the order. Each step takes one unit off `work`,
the edges and completions that are left, so the search ends before its fuel does (`work_begin`).

* `ends_updateOrder`: the search ends by itself, without a bound on its steps.
* `found_updateOrder`: it ends with an `UpdateOrder` or with a cycle that `start` leads to.
-/

namespace Worksheet.Dependencies

open Relation (ReflTransGen TransGen)

/-- Every name comes before its readers, and they are all listed. -/
def Topological (d : Dependencies) : List String → Prop
  | [] => True
  | x :: xs => (∀ y, d.Edge x y → y ∈ xs) ∧ d.Topological xs

/-- The names to compute again when `start` changes: each name that `start` leads to, once, itself
first, and each before its readers. -/
structure UpdateOrder (d : Dependencies) (start : String) (order : List String) : Prop where
  head : order.head? = some start
  nodup : order.Nodup
  topological : d.Topological order
  reachable : ∀ x ∈ order, ReflTransGen d.Edge start x

/-- A simple loop along edges that `start` leads to. -/
structure LeadsToCycle (d : Dependencies) (start : String) (c : Cycle) : Prop where
  closed : ∃ x rest, c.path = x :: rest ++ [x] ∧ (x :: rest).Nodup
  chain : c.path.IsChain d.Edge
  reachable : ∀ x ∈ c.path, ReflTransGen d.Edge start x

/-- What a search from `start` may return. -/
def Found (d : Dependencies) (start : String) : Except Cycle (List String) → Prop
  | .ok order => UpdateOrder d start order
  | .error c => LeadsToCycle d start c

namespace Search

variable {d : Dependencies} {start : String} {s : Search}

/-- The names on the current path, `start` first. -/
def path (s : Search) : List String := (s.frames.map Prod.fst).reverse

/-- The names that were met: the path, and then the complete names. -/
def met (s : Search) : List String := s.path ++ s.order

/-! ## The invariant -/

/-- The readers of each name on the path are to be looked at, complete, or the name above. -/
def Covered (d : Dependencies) (order : List String) :
    Option String → List (String × List String) → Prop
  | _, [] => True
  | above, (node, others) :: frames =>
    (∀ y, d.Edge node y → y ∈ others ∨ y ∈ order ∨ above = some y) ∧
      Covered d order (some node) frames

/-- What holds at each step of the search from `start`. -/
structure Inv (d : Dependencies) (start : String) (s : Search) : Prop where
  mem_onPath : ∀ x, x ∈ s.onPath ↔ x ∈ s.path
  mem_complete : ∀ x, x ∈ s.complete ↔ x ∈ s.order
  nodup : s.met.Nodup
  head : s.met.head? = some start
  chain : s.path.IsChain d.Edge
  readers : ∀ f ∈ s.frames, ∀ y ∈ f.2, d.Edge f.1 y
  covered : Covered d s.order none s.frames
  topological : d.Topological s.order
  reachable : ∀ x ∈ s.met, ReflTransGen d.Edge start x

theorem Covered.mono {order : List String} {x : String} :
    ∀ {above : Option String} {frames : List (String × List String)},
      Covered d order above frames → Covered d (x :: order) above frames
  | _, [], _ => trivial
  | _, _ :: _, ⟨hhead, htail⟩ =>
    ⟨fun y hy => (hhead y hy).imp_right (Or.imp_left (List.mem_cons_of_mem x)), htail.mono⟩

/-- When the name above is complete, it counts among the complete names. -/
theorem Covered.complete {order : List String} {x : String} :
    ∀ {frames : List (String × List String)},
      Covered d order (some x) frames → Covered d (x :: order) none frames
  | [], _ => trivial
  | _ :: _, ⟨hhead, htail⟩ => by
    refine ⟨fun y hy => ?_, htail.mono⟩
    rcases hhead y hy with h | h | h
    · exact Or.inl h
    · exact Or.inr (Or.inl (List.mem_cons_of_mem x h))
    · obtain rfl := Option.some.inj h
      exact Or.inr (Or.inl List.mem_cons_self)

/-- A reader is passed over when it is complete or comes onto the path above. -/
theorem Covered.pass {order others : List String} {above : Option String} {node next : String}
    {frames : List (String × List String)}
    (h : Covered d order none ((node, next :: others) :: frames))
    (hnext : next ∈ order ∨ above = some next) :
    Covered d order above ((node, others) :: frames) := by
  refine ⟨fun y hy => ?_, h.2⟩
  rcases h.1 y hy with hmem | hmem | habove
  · rcases List.mem_cons.mp hmem with rfl | hmem
    · exact Or.inr hnext
    · exact Or.inl hmem
  · exact Or.inr (Or.inl hmem)
  · contradiction

theorem path_eq {node : String} {others : List String} {frames : List (String × List String)}
    (hf : s.frames = (node, others) :: frames) :
    s.path = (frames.map Prod.fst).reverse ++ [node] := by
  simp [path, hf]

section Met

variable {node next : String} {others : List String} {frames : List (String × List String)}

theorem path_skip (hf : s.frames = (node, next :: others) :: frames) :
    path { s with frames := (node, others) :: frames } = s.path := by
  simp [path, hf]

theorem path_descend (hf : s.frames = (node, next :: others) :: frames) :
    path (descend d next { s with frames := (node, others) :: frames }) = s.path ++ [next] := by
  simp [path, descend, hf]

theorem cycleAt_skip (hf : s.frames = (node, next :: others) :: frames) (x : String) :
    cycleAt x { s with frames := (node, others) :: frames } = cycleAt x s := by
  simp [cycleAt, hf]

theorem met_skip (hf : s.frames = (node, next :: others) :: frames) :
    met { s with frames := (node, others) :: frames } = s.met := by
  rw [met, path_skip hf, met]

theorem met_descend (hf : s.frames = (node, next :: others) :: frames) :
    met (descend d next { s with frames := (node, others) :: frames }) =
      s.path ++ next :: s.order := by
  rw [met, path_descend hf, List.append_assoc]
  rfl

theorem met_ascend (hf : s.frames = (node, []) :: frames) :
    met (s.ascend node frames) = s.met := by
  simp [met, path, ascend, hf]

end Met

theorem inv_begin (d : Dependencies) (start : String) : Inv d start (descend d start {}) where
  mem_onPath x := by
    rw [descend, path, Std.ExtTreeSet.mem_insert, Std.LawfulEqCmp.compare_eq_iff_eq]
    simp [eq_comm]
  mem_complete x := by simp [descend]
  nodup := by simp [descend, met, path]
  head := by simp [descend, met, path]
  chain := by simp [descend, path]
  readers f hf y hy := by
    obtain rfl : f = (start, d.readersOf start) := by simpa [descend] using hf
    exact mem_readersOf.mp hy
  covered := ⟨fun y hy => Or.inl (mem_readersOf.mpr hy), trivial⟩
  topological := trivial
  reachable x hx := by
    obtain rfl : x = start := by simpa [descend, met, path] using hx
    exact ReflTransGen.refl

section Step

variable {node next : String} {others : List String} {frames : List (String × List String)}

theorem Inv.edge_next (h : Inv d start s) (hf : s.frames = (node, next :: others) :: frames) :
    d.Edge node next :=
  h.readers (node, next :: others) (by simp [hf]) next List.mem_cons_self

theorem Inv.readers_pass (h : Inv d start s) (hf : s.frames = (node, next :: others) :: frames) :
    ∀ f ∈ (node, others) :: frames, ∀ y ∈ f.2, d.Edge f.1 y := by
  intro f hmem y hy
  rcases List.mem_cons.mp hmem with rfl | hmem
  · exact h.readers (node, next :: others) (by simp [hf]) y (List.mem_cons_of_mem next hy)
  · exact h.readers f (by simp [hf, hmem]) y hy

/-- Passing over a reader that is complete. -/
theorem Inv.skip (h : Inv d start s) (hf : s.frames = (node, next :: others) :: frames)
    (hnext : next ∈ s.order) : Inv d start { s with frames := (node, others) :: frames } := by
  have hcov := h.covered
  rw [hf] at hcov
  refine ⟨fun x => ?_, h.mem_complete, ?_, ?_, ?_, h.readers_pass hf, hcov.pass (Or.inl hnext),
    h.topological, ?_⟩
  · rw [path_skip hf]
    exact h.mem_onPath x
  · rw [met_skip hf]
    exact h.nodup
  · rw [met_skip hf]
    exact h.head
  · rw [path_skip hf]
    exact h.chain
  · rw [met_skip hf]
    exact h.reachable

/-- Going down to a reader that was not met yet. -/
theorem Inv.descend (h : Inv d start s) (hf : s.frames = (node, next :: others) :: frames)
    (hnext : next ∉ s.met) :
    Inv d start (Search.descend d next { s with frames := (node, others) :: frames }) := by
  have hedge := h.edge_next hf
  have hnode : node ∈ s.met := by simp [met, path_eq hf]
  have hcov := h.covered
  rw [hf] at hcov
  refine ⟨fun x => ?_, h.mem_complete, ?_, ?_, ?_, fun f hmem => ?_,
    ⟨fun y hy => Or.inl (mem_readersOf.mpr hy), hcov.pass (Or.inr rfl)⟩, h.topological,
    fun x hx => ?_⟩
  · rw [path_descend hf, List.mem_append, ← h.mem_onPath, List.mem_singleton]
    simp only [Search.descend, Std.ExtTreeSet.mem_insert, Std.LawfulEqCmp.compare_eq_iff_eq]
    rw [or_comm, eq_comm]
  · rw [met_descend hf]
    exact List.nodup_middle.mpr (List.nodup_cons.mpr ⟨hnext, h.nodup⟩)
  · have hhead := h.head
    rw [met, path_eq hf, List.append_assoc] at hhead
    rw [met_descend hf, path_eq hf, List.append_assoc]
    cases hrev : (frames.map Prod.fst).reverse <;> simpa [hrev] using hhead
  · rw [path_descend hf, List.isChain_append]
    refine ⟨h.chain, List.IsChain.singleton next, ?_⟩
    simpa [path_eq hf] using hedge
  · rcases List.mem_cons.mp hmem with rfl | hmem
    · exact fun y hy => mem_readersOf.mp hy
    · exact h.readers_pass hf f hmem
  · rw [met_descend hf] at hx
    rcases List.mem_cons.mp (List.perm_middle.mem_iff.mp hx) with rfl | hx
    · exact (h.reachable node hnode).tail hedge
    · exact h.reachable x hx

/-- Completing a name all of whose readers are complete. -/
theorem Inv.ascend (h : Inv d start s) (hf : s.frames = (node, []) :: frames) :
    Inv d start (s.ascend node frames) := by
  have hnodup := h.nodup
  rw [met, path_eq hf, List.append_assoc] at hnodup
  have hfresh : node ∉ (frames.map Prod.fst).reverse ∧ node ∉ s.order := by
    have := List.nodup_middle.mp hnodup
    rw [List.nodup_cons, List.mem_append, not_or] at this
    exact this.1
  have hcov := h.covered
  rw [hf] at hcov
  refine ⟨fun x => ?_, fun x => ?_, ?_, ?_, ?_, fun f hmem => ?_, hcov.2.complete,
    ⟨fun y hy => ?_, h.topological⟩, ?_⟩
  · have hx := h.mem_onPath x
    rw [path_eq hf, List.mem_append, List.mem_singleton] at hx
    simp only [Search.ascend, path, Std.ExtTreeSet.mem_erase, ne_eq,
      Std.LawfulEqCmp.compare_eq_iff_eq]
    rw [hx]
    constructor
    · rintro ⟨hne, hmem | rfl⟩
      · exact hmem
      · exact absurd rfl hne
    · intro hmem
      exact ⟨fun he => hfresh.1 (he ▸ hmem), Or.inl hmem⟩
  · simp only [Search.ascend, Std.ExtTreeSet.mem_insert, Std.LawfulEqCmp.compare_eq_iff_eq,
      List.mem_cons]
    rw [h.mem_complete, eq_comm]
  · rw [met_ascend hf]
    exact h.nodup
  · rw [met_ascend hf]
    exact h.head
  · have hchain := h.chain
    rw [path_eq hf] at hchain
    exact hchain.left_of_append
  · exact h.readers f (by rw [hf]; exact List.mem_cons_of_mem _ hmem)
  · rcases hcov.1 y hy with hmem | hmem | habove
    · exact absurd hmem List.not_mem_nil
    · exact hmem
    · contradiction
  · rw [met_ascend hf]
    exact h.reachable

end Step

/-! ## The work that is left -/

/-- The names that are read by nobody met yet. -/
def unmet (d : Dependencies) (s : Search) : Finset String :=
  (d.edges.image Prod.snd).filter fun x => x ∉ s.met

/-- The edges to look at and the names to complete that are left. -/
def work (d : Dependencies) (s : Search) : Nat :=
  (s.frames.map fun f => f.2.length + 1).sum + ∑ x ∈ unmet d s, ((d.readersOf x).length + 1)

theorem mem_unmet {x : String} : x ∈ unmet d s ↔ (∃ y, d.Edge y x) ∧ x ∉ s.met := by
  simp only [unmet, Finset.mem_filter, Finset.mem_image, Prod.exists, mem_edges]
  refine and_congr_left fun _ => ⟨?_, ?_⟩
  · rintro ⟨y, _, h, rfl⟩
    exact ⟨y, h⟩
  · rintro ⟨y, h⟩
    exact ⟨y, x, h, rfl⟩

theorem unmet_congr {t : Search} (h : s.met = t.met) : unmet d s = unmet d t := by
  ext x
  rw [mem_unmet, mem_unmet, h]

theorem nodup_readersOf (x : String) : (d.readersOf x).Nodup :=
  Std.ExtTreeSet.distinct_toList.imp fun h he => h (Std.LawfulEqCmp.compare_eq_iff_eq.mpr he)

/-- The readers of a name are as many as the edges from it. -/
theorem length_readersOf (x : String) :
    (d.readersOf x).length = (d.edges.filter fun e => e.1 = x).card := by
  have hedges : d.edges.filter (fun e => e.1 = x) =
      (d.readersOf x).toFinset.image fun y => (x, y) := by
    ext ⟨a, b⟩
    simp only [Finset.mem_filter, mem_edges, Finset.mem_image, List.mem_toFinset, mem_readersOf,
      Prod.mk.injEq]
    constructor
    · rintro ⟨h, rfl⟩
      exact ⟨b, h, rfl, rfl⟩
    · rintro ⟨y, h, rfl, rfl⟩
      exact ⟨h, rfl⟩
  rw [hedges, Finset.card_image_of_injective _ fun a b h => (Prod.mk.inj h).2,
    List.toFinset_card_of_nodup (nodup_readersOf x)]

theorem sum_length_readersOf_le (names : Finset String) :
    ∑ x ∈ names, (d.readersOf x).length ≤ d.edges.card := by
  have hmaps : ∀ e ∈ d.edges, e.1 ∈ names ∪ d.edges.image Prod.fst := fun e he =>
    Finset.mem_union_right _ (Finset.mem_image_of_mem _ he)
  calc ∑ x ∈ names, (d.readersOf x).length
      ≤ ∑ x ∈ names ∪ d.edges.image Prod.fst, (d.readersOf x).length :=
        Finset.sum_le_sum_of_subset Finset.subset_union_left
    _ = d.edges.card := by
        simp only [length_readersOf]
        exact (Finset.card_eq_sum_card_fiberwise hmaps).symm

/-- At the start there is less work than the fuel. -/
theorem work_begin (hd : d.WellFormed) (start : String) :
    work d (descend d start {}) < 2 * d.size + 3 := by
  have hunmet : start ∉ unmet d (descend d start {}) := by simp [unmet, met, path, descend]
  have hcard : (Insert.insert start (unmet d (descend d start {}))).card ≤ d.edges.card + 1 :=
    calc (Insert.insert start (unmet d (descend d start {}))).card
        ≤ (unmet d (descend d start {})).card + 1 := Finset.card_insert_le _ _
      _ ≤ (d.edges.image Prod.snd).card + 1 := by
        have := Finset.card_filter_le (d.edges.image Prod.snd)
          fun x => x ∉ met (descend d start {})
        exact Nat.add_le_add_right this 1
      _ ≤ d.edges.card + 1 := Nat.add_le_add_right Finset.card_image_le 1
  have hsum := sum_length_readersOf_le (d := d) (Insert.insert start (unmet d (descend d start {})))
  have hwork : work d (descend d start {}) =
      ∑ x ∈ Insert.insert start (unmet d (descend d start {})), ((d.readersOf x).length + 1) := by
    rw [Finset.sum_insert hunmet, work]
    simp [descend]
  rw [hwork, Finset.sum_add_distrib, ← Finset.card_eq_sum_ones, hd.size_eq]
  omega

section Step

variable {node next : String} {others : List String} {frames : List (String × List String)}

theorem work_skip (hf : s.frames = (node, next :: others) :: frames) :
    work d { s with frames := (node, others) :: frames } + 1 = work d s := by
  simp only [work, unmet_congr (met_skip hf), hf, List.map_cons, List.sum_cons, List.length_cons]
  omega

theorem work_ascend (hf : s.frames = (node, []) :: frames) :
    work d (s.ascend node frames) + 1 = work d s := by
  rw [work, work, unmet_congr (met_ascend hf)]
  simp only [ascend, hf, List.map_cons, List.sum_cons, List.length_nil]
  omega

theorem work_descend (hf : s.frames = (node, next :: others) :: frames)
    (hedge : d.Edge node next) (hnext : next ∉ s.met) :
    work d (descend d next { s with frames := (node, others) :: frames }) + 1 = work d s := by
  have hmem : next ∈ unmet d s := mem_unmet.mpr ⟨⟨node, hedge⟩, hnext⟩
  have hunmet : unmet d (descend d next { s with frames := (node, others) :: frames }) =
      (unmet d s).erase next := by
    ext x
    rw [mem_unmet, Finset.mem_erase, mem_unmet, met_descend hf, List.perm_middle.mem_iff,
      List.mem_cons, not_or, met]
    exact and_left_comm
  rw [work, work, hunmet, ← Finset.add_sum_erase _ _ hmem]
  simp only [descend, hf, List.map_cons, List.sum_cons, List.length_cons]
  omega

end Step

/-! ## The result -/

/-- The search with no frames left has an update order. -/
theorem Inv.updateOrder (h : Inv d start s) (hf : s.frames = []) :
    UpdateOrder d start s.order := by
  have hmet : s.met = s.order := by simp [met, path, hf]
  exact ⟨hmet ▸ h.head, hmet ▸ h.nodup, h.topological, hmet ▸ h.reachable⟩

/-- The cycle at a name on the path is the path from there on, and the name again. -/
theorem path_eq_of_mem {x : String} (hx : x ∈ s.path) :
    ∃ before after, s.path = before ++ x :: after ∧ cycleAt x s = ⟨x :: after ++ [x]⟩ := by
  rw [path, List.mem_reverse] at hx
  obtain ⟨inner, outer, hsplit, hinner⟩ := List.eq_append_cons_of_mem hx
  refine ⟨outer.reverse, inner.reverse, by simp [path, hsplit], ?_⟩
  have htake : (inner ++ x :: outer).takeWhile (· ≠ x) = inner := by
    rw [List.takeWhile_append_of_pos]
    · simp
    · intro y hy
      exact decide_eq_true fun he => hinner (he ▸ hy)
  rw [cycleAt, hsplit, htake]

/-- Coming back to a name on the path closes a cycle. -/
theorem Inv.leadsToCycle (h : Inv d start s) {node next : String} {others : List String}
    {frames : List (String × List String)} (hf : s.frames = (node, next :: others) :: frames)
    (hnext : next ∈ s.path) :
    LeadsToCycle d start (cycleAt next { s with frames := (node, others) :: frames }) := by
  have hedge := h.edge_next hf
  obtain ⟨before, after, hpath, hcycle⟩ := path_eq_of_mem hnext
  rw [cycleAt_skip hf, hcycle]
  have hlast : (next :: after).getLast? = some node := by
    have := congrArg List.getLast? (path_eq hf)
    rw [hpath, List.getLast?_append_of_ne_nil _ (List.cons_ne_nil _ _)] at this
    simpa using this
  have hnodup := (List.nodup_append.mp h.nodup).1
  rw [hpath] at hnodup
  have hchain := h.chain
  rw [hpath] at hchain
  refine ⟨⟨next, after, rfl, (List.nodup_append.mp hnodup).2.1⟩, ?_, fun x hx => ?_⟩
  · refine List.isChain_append.mpr ⟨hchain.right_of_append, List.IsChain.singleton next, ?_⟩
    intro a ha b hb
    rw [hlast] at ha
    obtain rfl := Option.some.inj ha
    obtain rfl := Option.some.inj hb
    exact hedge
  · have hmem : x ∈ next :: after := by
      rcases List.mem_append.mp hx with hx | hx
      · exact hx
      · exact List.mem_singleton.mp hx ▸ List.mem_cons_self
    refine h.reachable x (List.mem_append_left _ ?_)
    rw [hpath]
    exact List.mem_append_right _ hmem

/-! ## How the search ends -/

/-- How a search ends that is not bounded in its steps: with its order when no frame is left, or
with the cycle that it meets. -/
inductive Ends (d : Dependencies) : Search → Except Cycle (List String) → Prop
  | finish {s : Search} (hf : s.frames = []) : Ends d s (.ok s.order)
  | ascend {s : Search} {node : String} {frames : List (String × List String)}
      {result : Except Cycle (List String)} (hf : s.frames = (node, []) :: frames)
      (h : Ends d (s.ascend node frames) result) : Ends d s result
  | cycle {s : Search} {node next : String} {others : List String}
      {frames : List (String × List String)} (hf : s.frames = (node, next :: others) :: frames)
      (hpath : next ∈ s.onPath) :
      Ends d s (.error (cycleAt next { s with frames := (node, others) :: frames }))
  | skip {s : Search} {node next : String} {others : List String}
      {frames : List (String × List String)} {result : Except Cycle (List String)}
      (hf : s.frames = (node, next :: others) :: frames) (hpath : next ∉ s.onPath)
      (hcomplete : next ∈ s.complete)
      (h : Ends d { s with frames := (node, others) :: frames } result) : Ends d s result
  | descend {s : Search} {node next : String} {others : List String}
      {frames : List (String × List String)} {result : Except Cycle (List String)}
      (hf : s.frames = (node, next :: others) :: frames) (hpath : next ∉ s.onPath)
      (hcomplete : next ∉ s.complete)
      (h : Ends d (descend d next { s with frames := (node, others) :: frames }) result) :
      Ends d s result

theorem Inv.notMem_met (h : Inv d start s) {x : String} (hpath : x ∉ s.onPath)
    (hcomplete : x ∉ s.complete) : x ∉ s.met := by
  rw [met, List.mem_append, ← h.mem_onPath, ← h.mem_complete, not_or]
  exact ⟨hpath, hcomplete⟩

/-- **The search ends before its fuel does**, if that is enough for the work that is left. -/
theorem ends_run {fuel : Nat} (h : Inv d start s) (hfuel : work d s < fuel) :
    Ends d s (run d fuel s) := by
  induction fuel generalizing s with
  | zero => exact absurd hfuel (Nat.not_lt_zero _)
  | succ fuel ih =>
    unfold run
    split
    · rename_i hf
      exact Ends.finish hf
    · rename_i node frames hf
      have hwork := work_ascend (d := d) hf
      exact Ends.ascend hf (ih (h.ascend hf) (by omega))
    · rename_i node next others frames hf
      simp only [Std.ExtTreeSet.contains_iff_mem]
      by_cases hpath : next ∈ s.onPath
      · rw [if_pos hpath]
        exact Ends.cycle hf hpath
      rw [if_neg hpath]
      by_cases hcomplete : next ∈ s.complete
      · rw [if_pos hcomplete]
        have hwork := work_skip (d := d) hf
        have hnext := (h.mem_complete next).mp hcomplete
        exact Ends.skip hf hpath hcomplete (ih (h.skip hf hnext) (by omega))
      rw [if_neg hcomplete]
      have hnext := h.notMem_met hpath hcomplete
      have hwork := work_descend hf (h.edge_next hf) hnext
      exact Ends.descend hf hpath hcomplete (ih (h.descend hf hnext) (by omega))

/-- **What a search with the invariant ends with.** -/
theorem Ends.found {result : Except Cycle (List String)} (h : Ends d s result)
    (hinv : Inv d start s) : Found d start result := by
  induction h with
  | finish hf => exact hinv.updateOrder hf
  | ascend hf _ ih => exact ih (hinv.ascend hf)
  | cycle hf hpath => exact hinv.leadsToCycle hf ((hinv.mem_onPath _).mp hpath)
  | skip hf _ hcomplete _ ih => exact ih (hinv.skip hf ((hinv.mem_complete _).mp hcomplete))
  | descend hf hpath hcomplete _ ih => exact ih (hinv.descend hf (hinv.notMem_met hpath hcomplete))

/-- A cycle with the start on it is found where the search comes back to the start: the start stands
first on the path, and nowhere else. -/
theorem Inv.eq_of_mem_cycleAt (h : Inv d start s) {node next : String} {others : List String}
    {frames : List (String × List String)} (hf : s.frames = (node, next :: others) :: frames)
    (hnext : next ∈ s.path)
    (hstart : start ∈ (cycleAt next { s with frames := (node, others) :: frames }).path) :
    next = start := by
  obtain ⟨before, after, hpath, hcycle⟩ := path_eq_of_mem hnext
  rw [cycleAt_skip hf, hcycle] at hstart
  have hmem : start ∈ next :: after := by simpa [or_comm] using hstart
  have hnodup := (List.nodup_append.mp h.nodup).1
  have hhead := h.head
  rw [hpath] at hnodup
  rw [met, hpath] at hhead
  cases before with
  | nil => exact Option.some.inj hhead
  | cons x before =>
    obtain rfl : x = start := Option.some.inj hhead
    exact absurd rfl ((List.nodup_append.mp hnodup).2.2 x List.mem_cons_self x hmem)

/-- A cycle with the start on it begins there. -/
theorem Ends.head?_path {c : Cycle} (h : Ends d s (.error c)) (hinv : Inv d start s)
    (hstart : start ∈ c.path) : c.path.head? = some start := by
  generalize hresult : Except.error c = result at h
  induction h with
  | finish hf => contradiction
  | ascend hf _ ih => exact ih (hinv.ascend hf) hresult
  | cycle hf hpath =>
    obtain rfl := Except.error.inj hresult
    rw [← hinv.eq_of_mem_cycleAt hf ((hinv.mem_onPath _).mp hpath) hstart]
    rfl
  | skip hf _ hcomplete _ ih =>
    exact ih (hinv.skip hf ((hinv.mem_complete _).mp hcomplete)) hresult
  | descend hf hpath hcomplete _ ih =>
    exact ih (hinv.descend hf (hinv.notMem_met hpath hcomplete)) hresult

end Search

/-- **The search ends by itself** with what `updateOrder` returns, whatever its fuel. -/
theorem ends_updateOrder {d : Dependencies} (hd : d.WellFormed) (start : String) :
    Search.Ends d (Search.descend d start {}) (d.updateOrder start) :=
  Search.ends_run (Search.inv_begin d start) (Search.work_begin hd start)

/-- **What `updateOrder` returns**: an update order, or a cycle that the name leads to. -/
theorem found_updateOrder {d : Dependencies} (hd : d.WellFormed) (start : String) :
    Found d start (d.updateOrder start) :=
  (ends_updateOrder hd start).found (Search.inv_begin d start)

end Worksheet.Dependencies
