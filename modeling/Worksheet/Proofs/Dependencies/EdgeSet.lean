import Worksheet.Proofs.Dependencies.Changes

/-!
# Dependencies as a set of pairs

Each change of dependencies is a plain operation on the set of their edges (`Change.onEdges`), and
what is asked about dependencies is answered from that set (`Implements`). An edge is counted as
long as it is there, so taking edges out never brings the count below zero.

* `WellFormed.changed?_cases`: a change is refused for an empty name, or changes the edges.
* `edges_ofChanges`: what changes make of no dependencies has the edges that they make of none.
* `changes_implement_set_operations`: the two together, for all changes.
-/

namespace Worksheet.Dependencies

variable {d : Dependencies}

/-! ## Changes of a set of pairs -/

/-- The pairs after a change. -/
def Change.onEdges (edges : Finset (String × String)) : Change → Finset (String × String)
  | .connect source reader => Insert.insert (source, reader) edges
  | .disconnect source reader => edges.erase (source, reader)
  | .setReaders source readers =>
    edges.filter (fun e => e.1 ≠ source) ∪ (readers.map fun reader => (source, reader)).toFinset
  | .setSources reader sources =>
    edges.filter (fun e => e.2 ≠ reader) ∪ (sources.map fun source => (source, reader)).toFinset

/-- The pairs that changes make of none, where a change with an empty name is passed over. -/
def edgesOfChanges (changes : List Change) : Finset (String × String) :=
  changes.foldl (fun edges c => if "" ∈ c.names then edges else c.onEdges edges) ∅

/-! ## What is asked about dependencies -/

/-- What is asked about the dependencies is answered from the pairs. -/
structure Implements (d : Dependencies) (edges : Finset (String × String)) : Prop where
  readers : ∀ x y, y ∈ d.readersOf x ↔ (x, y) ∈ edges
  sources : ∀ x y, x ∈ d.sourcesOf y ↔ (x, y) ∈ edges
  isRead : ∀ x, d.isRead x = true ↔ ∃ y, (x, y) ∈ edges
  isReader : ∀ y, d.isReader y = true ↔ ∃ x, (x, y) ∈ edges
  /-- No name is kept with an empty set. -/
  readers_kept : ∀ (x : String) (names : Std.ExtTreeSet String),
    d.readers[x]? = some names → names ≠ ∅
  sources_kept : ∀ (y : String) (names : Std.ExtTreeSet String),
    d.sources[y]? = some names → names ≠ ∅
  sourceCount : ∀ y, d.sourceCount y = (edges.filter fun e => e.2 = y).card
  size : d.size = edges.card
  /-- Where an edge is taken out, after any others, it is counted. A change takes edges out before
  it puts any in, so these are all the places where it does. -/
  counted : ∀ (taken : List (String × String)) (x y : String),
    let rest := taken.foldl (fun d e => d.erase e.1 e.2) d
    rest.hasEdge x y = true → 0 < rest.size

/-- The sources of a name are as many as the edges to it. -/
theorem WellFormed.sourceCount_eq (hd : d.WellFormed) (y : String) :
    d.sourceCount y = (d.edges.filter fun e => e.2 = y).card := by
  have hedges : d.edges.filter (fun e => e.2 = y) =
      (d.sourcesOf y).toFinset.image fun x => (x, y) := by
    ext ⟨a, b⟩
    simp only [Finset.mem_filter, mem_edges, Finset.mem_image, List.mem_toFinset, hd.mem_sourcesOf,
      Prod.mk.injEq]
    constructor
    · rintro ⟨h, rfl⟩
      exact ⟨a, h, rfl, rfl⟩
    · rintro ⟨x, h, rfl, rfl⟩
      exact ⟨h, rfl⟩
  have hnodup : (d.sourcesOf y).Nodup :=
    Std.ExtTreeSet.distinct_toList.imp fun h he => h (Std.LawfulEqCmp.compare_eq_iff_eq.mpr he)
  rw [hedges, Finset.card_image_of_injective _ fun a b h => (Prod.mk.inj h).1,
    List.toFinset_card_of_nodup hnodup, sourcesOf, Std.ExtTreeSet.length_toList, sourceCount]

theorem WellFormed.size_pos (hd : d.WellFormed) {x y : String} (h : d.hasEdge x y = true) :
    0 < d.size := by
  rw [hd.size_eq]
  exact Finset.card_pos.mpr ⟨(x, y), mem_edges.mpr (hasEdge_iff.mp h)⟩

/-- **Well-formed dependencies implement the set of their edges.** -/
theorem WellFormed.implements (hd : d.WellFormed) : d.Implements d.edges where
  readers x y := mem_readersOf.trans mem_edges.symm
  sources x y := hd.mem_sourcesOf.trans mem_edges.symm
  isRead x := by simp only [hd.isRead_iff, mem_edges]
  isReader y := by simp only [hd.isReader_iff, mem_edges]
  readers_kept x names h := hd.readers_tidy.ne_empty h
  sources_kept y names h := hd.sources_tidy.ne_empty h
  sourceCount := hd.sourceCount_eq
  size := hd.size_eq
  counted taken x y h := (hd.foldl_erase (l := taken)).size_pos h

/-! ## One change -/

/-- **What a change makes** of the edges, as pairs. -/
theorem WellFormed.edges_made (hd : d.WellFormed) (c : Change) :
    (d.made c).edges = c.onEdges d.edges := by
  cases c with
  | connect source reader => exact edges_insert
  | disconnect source reader => exact edges_erase
  | setReaders source readers =>
    ext ⟨a, b⟩
    simp only [Change.onEdges, Finset.mem_union, Finset.mem_filter, List.mem_toFinset, List.mem_map,
      mem_edges, Dependencies.made, edge_withReaders, Prod.mk.injEq]
    split
    · subst a
      simp
    · rename_i ha
      simp [ha, Ne.symm ha]
  | setSources reader sources =>
    ext ⟨a, b⟩
    simp only [Change.onEdges, Finset.mem_union, Finset.mem_filter, List.mem_toFinset, List.mem_map,
      mem_edges, Dependencies.made, edge_withSources hd, Prod.mk.injEq]
    split
    · subst b
      simp
    · rename_i hb
      simp [hb, Ne.symm hb]

/-- **What a change can do**: with an empty name among its names it is refused, and without one it
changes the edges. -/
theorem WellFormed.changed?_cases (hd : d.WellFormed) (c : Change) :
    ("" ∈ c.names ∧ d.changed? c = .error .emptyName ∧ d.change c = d) ∨
      ("" ∉ c.names ∧ ∃ e, d.changed? c = .ok e ∧ d.change c = e ∧ e.WellFormed ∧
        e.edges = c.onEdges d.edges) := by
  by_cases h : "" ∈ c.names
  · exact Or.inl ⟨h, changed?_of_empty h, change_of_empty h⟩
  · exact Or.inr ⟨h, _, changed?_of_nonempty h, change_of_nonempty h, hd.made c, hd.edges_made c⟩

/-! ## All changes -/

theorem WellFormed.edges_foldl_change (hd : d.WellFormed) (changes : List Change) :
    (changes.foldl Dependencies.change d).edges =
      changes.foldl (fun edges c => if "" ∈ c.names then edges else c.onEdges edges) d.edges := by
  induction changes generalizing d with
  | nil => rfl
  | cons c changes ih =>
    rw [List.foldl_cons, List.foldl_cons, ih (hd.change c)]
    obtain ⟨hname, -, hsame⟩ | ⟨hname, e, -, hchange, -, hedges⟩ := hd.changed?_cases c
    · rw [if_pos hname, hsame]
    · rw [if_neg hname, hchange, hedges]

/-- **The edges after changes** are the pairs that the changes make of none. -/
theorem edges_ofChanges (changes : List Change) :
    (ofChanges changes).edges = edgesOfChanges changes := by
  have hempty : empty.edges = ∅ :=
    Finset.eq_empty_of_forall_notMem fun e he => not_edge_empty (mem_edges.mp he)
  rw [ofChanges, wellFormed_empty.edges_foldl_change, hempty, edgesOfChanges]

/-- **Changes implement set operations**: whatever changes were made, what is asked about the
dependencies is answered from the pairs that the changes make of none. The next change is refused,
and then changes nothing, exactly for an empty name anywhere among its names; if it is not, it makes
of the pairs what it makes of a set. -/
theorem changes_implement_set_operations (changes : List Change) :
    (ofChanges changes).Implements (edgesOfChanges changes) ∧
      ∀ c : Change,
        ("" ∈ c.names → (ofChanges changes).changed? c = .error .emptyName ∧
          (ofChanges changes).change c = ofChanges changes) ∧
        ("" ∉ c.names → ∃ e, (ofChanges changes).changed? c = .ok e ∧
          (ofChanges changes).change c = e ∧
            e.Implements (c.onEdges (edgesOfChanges changes))) := by
  have hd := (reachable_ofChanges changes).wellFormed
  rw [← edges_ofChanges]
  refine ⟨hd.implements, fun c => ?_⟩
  obtain ⟨hname, hrefused⟩ | ⟨hname, e, he, hchange, hwell, hedges⟩ := hd.changed?_cases c
  · exact ⟨fun _ => hrefused, fun h => absurd hname h⟩
  · refine ⟨fun h => absurd h hname, fun _ => ⟨e, he, hchange, ?_⟩⟩
    rw [← hedges]
    exact hwell.implements

end Worksheet.Dependencies
