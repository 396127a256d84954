import Mathlib.Data.Finset.Card
import Mathlib.Data.Finset.Image
import Mathlib.Data.Finset.Dedup
import Worksheet.Dependencies.Basic

/-!
# The edges of dependencies

`Edge d x y` says that `y` reads `x`, and `edges` is the finite set of these pairs. Dependencies
are `WellFormed` when both directions hold the same edges, no name is kept without an edge, and
`size` counts the edges. Inserting and erasing keep this.

* `eq_of_edge_iff`: well-formed dependencies with the same edges are equal.
* `perform_forM_checkName_bind`: an edit is refused for an empty name before it changes anything.
* `perform_setReaders`, `perform_setSources`: what replacing the edges of a name does.
-/

namespace Worksheet

namespace Adjacency

/-- Only names with a name next to them are kept. -/
def Tidy (a : Adjacency) : Prop := ∀ x, x ∈ a → a.next x ≠ ∅

theorem mem_of_mem_next {a : Adjacency} {x y : String} (h : y ∈ a.next x) : x ∈ a := by
  by_contra hx
  rw [next, Std.ExtTreeMap.getD_eq_fallback hx] at h
  exact Std.ExtTreeSet.not_mem_empty h

theorem Tidy.mem_iff {a : Adjacency} (h : a.Tidy) {x : String} : x ∈ a ↔ ∃ y, y ∈ a.next x := by
  constructor
  · intro hx
    by_contra hnone
    exact h x hx (Std.ExtTreeSet.eq_empty_iff_forall_not_mem.mpr (not_exists.mp hnone))
  · rintro ⟨y, hy⟩
    exact mem_of_mem_next hy

theorem Tidy.ne_empty {a : Adjacency} (h : a.Tidy) {x : String} {names : Std.ExtTreeSet String}
    (hx : a[x]? = some names) : names ≠ ∅ := by
  have hne := h x (Std.ExtTreeMap.mem_iff_isSome_getElem?.mpr (by simp [hx]))
  rw [next, Std.ExtTreeMap.getD_eq_getD_getElem?, hx] at hne
  exact hne

theorem Tidy.link {a : Adjacency} (h : a.Tidy) (x y : String) : (a.link x y).Tidy := by
  intro z hz
  have hy : y ∈ (a.link x y).next x := mem_next_link.mpr (Or.inl ⟨rfl, rfl⟩)
  by_cases hxz : x = z
  · subst hxz
    intro he
    rw [he] at hy
    exact Std.ExtTreeSet.not_mem_empty hy
  · rw [Adjacency.link, next_insert, if_neg hxz]
    refine h z ?_
    simpa [Adjacency.link, Std.ExtTreeMap.mem_insert, hxz] using hz

theorem Tidy.cut {a : Adjacency} (h : a.Tidy) (x y : String) : (a.cut x y).Tidy := by
  intro z hz
  unfold Adjacency.cut at hz ⊢
  dsimp only at hz ⊢
  split at hz
  · rename_i hempty
    rw [Std.ExtTreeMap.mem_erase] at hz
    have hxz : x ≠ z := by simpa using hz.1
    rw [if_pos hempty, next_erase, if_neg hxz]
    exact h z hz.2
  · rename_i hempty
    rw [if_neg hempty, next_insert]
    split
    · intro he
      exact hempty (Std.ExtTreeSet.isEmpty_iff.mpr he)
    · rename_i hxz
      refine h z ?_
      simpa [Std.ExtTreeMap.mem_insert, hxz] using hz

/-- Adjacencies that keep no bare names are equal when the same names stand next to the same. -/
theorem eq_of_mem_next_iff {a b : Adjacency} (ha : a.Tidy) (hb : b.Tidy)
    (h : ∀ x y, y ∈ a.next x ↔ y ∈ b.next x) : a = b := by
  have hnext : ∀ x, a.next x = b.next x := fun x => Std.ExtTreeSet.ext_mem (h x)
  have hkept : ∀ {adj : Adjacency}, adj.Tidy → ∀ x, adj[x]? =
      if adj.next x = ∅ then none else some (adj.next x) := by
    intro adj hadj x
    unfold next
    rw [Std.ExtTreeMap.getD_eq_getD_getElem?]
    cases hx : adj[x]? with
    | none => simp
    | some ys =>
      rw [Option.getD_some, if_neg (hadj.ne_empty hx)]
  refine Std.ExtTreeMap.ext_getElem? fun x => ?_
  rw [hkept ha, hkept hb, hnext]

end Adjacency

namespace Dependencies

/-- `y` reads `x`. -/
def Edge (d : Dependencies) (x y : String) : Prop := y ∈ d.readers.next x

theorem hasEdge_iff {d : Dependencies} {x y : String} : d.hasEdge x y = true ↔ d.Edge x y :=
  Std.ExtTreeSet.contains_iff_mem

theorem mem_readersOf {d : Dependencies} {x y : String} : y ∈ d.readersOf x ↔ d.Edge x y :=
  Std.ExtTreeSet.mem_toList

/-- All edges. -/
def edges (d : Dependencies) : Finset (String × String) :=
  (d.readers.keys.flatMap fun x => (d.readersOf x).map fun y => (x, y)).toFinset

theorem mem_edges {d : Dependencies} {x y : String} : (x, y) ∈ d.edges ↔ d.Edge x y := by
  simp only [edges, List.mem_toFinset, List.mem_flatMap, List.mem_map, Prod.mk.injEq,
    Std.ExtTreeMap.mem_keys, mem_readersOf]
  constructor
  · rintro ⟨_, _, _, h, rfl, rfl⟩
    exact h
  · intro h
    exact ⟨x, Adjacency.mem_of_mem_next h, y, h, rfl, rfl⟩

/-- Both directions hold the same edges, no name is kept without an edge, and the edges are
counted. -/
structure WellFormed (d : Dependencies) : Prop where
  transposed : ∀ x y, x ∈ d.sources.next y ↔ d.Edge x y
  readers_tidy : d.readers.Tidy
  sources_tidy : d.sources.Tidy
  size_eq : d.size = d.edges.card

theorem WellFormed.mem_sourcesOf {d : Dependencies} (h : d.WellFormed) {x y : String} :
    x ∈ d.sourcesOf y ↔ d.Edge x y :=
  Std.ExtTreeSet.mem_toList.trans (h.transposed x y)

theorem WellFormed.isRead_iff {d : Dependencies} (h : d.WellFormed) {x : String} :
    d.isRead x = true ↔ ∃ y, d.Edge x y :=
  Std.ExtTreeMap.contains_iff_mem.trans h.readers_tidy.mem_iff

theorem WellFormed.isReader_iff {d : Dependencies} (h : d.WellFormed) {y : String} :
    d.isReader y = true ↔ ∃ x, d.Edge x y := by
  rw [isReader, Std.ExtTreeMap.contains_iff_mem, h.sources_tidy.mem_iff]
  exact exists_congr fun x => h.transposed x y

/-- **The edges are all there is**: well-formed dependencies with the same edges are equal. -/
theorem eq_of_edge_iff {d e : Dependencies} (hd : d.WellFormed) (he : e.WellFormed)
    (h : ∀ x y, d.Edge x y ↔ e.Edge x y) : d = e := by
  have hreaders : d.readers = e.readers :=
    Adjacency.eq_of_mem_next_iff hd.readers_tidy he.readers_tidy h
  have hsources : d.sources = e.sources :=
    Adjacency.eq_of_mem_next_iff hd.sources_tidy he.sources_tidy fun y x => by
      rw [hd.transposed, he.transposed, h]
  have hsize : d.size = e.size := by
    have hedges : d.edges = e.edges := by
      ext ⟨x, y⟩
      rw [mem_edges, mem_edges, h]
    rw [hd.size_eq, he.size_eq, hedges]
  cases d
  cases e
  simp only at hreaders hsources hsize
  rw [hreaders, hsources, hsize]

theorem not_edge_empty {x y : String} : ¬ empty.Edge x y := by
  simp [Edge, empty, Adjacency.next]

theorem wellFormed_empty : empty.WellFormed where
  transposed x y := by simp [Edge, empty, Adjacency.next]
  readers_tidy x hx := by simp [empty] at hx
  sources_tidy x hx := by simp [empty] at hx
  size_eq := by
    have hedges : empty.edges = ∅ :=
      Finset.eq_empty_of_forall_notMem fun e he => not_edge_empty (mem_edges.mp he)
    rw [hedges]
    rfl

/-! ## Inserting and erasing one edge -/

theorem edge_insert {d : Dependencies} {x y a b : String} :
    (d.insert x y).Edge a b ↔ (x = a ∧ y = b) ∨ d.Edge a b := by
  unfold insert
  split
  · rename_i h
    refine ⟨Or.inr, ?_⟩
    rintro (⟨rfl, rfl⟩ | hab)
    · exact hasEdge_iff.mp h
    · exact hab
  · exact Adjacency.mem_next_link

theorem edge_erase {d : Dependencies} {x y a b : String} :
    (d.erase x y).Edge a b ↔ d.Edge a b ∧ ¬(x = a ∧ y = b) := by
  unfold erase
  split
  · exact Adjacency.mem_next_cut
  · rename_i h
    refine ⟨fun hab => ⟨hab, ?_⟩, And.left⟩
    rintro ⟨rfl, rfl⟩
    exact h (hasEdge_iff.mpr hab)

theorem edges_insert {d : Dependencies} {x y : String} :
    (d.insert x y).edges = Insert.insert (x, y) d.edges := by
  ext ⟨a, b⟩
  rw [mem_edges, edge_insert, Finset.mem_insert, mem_edges, Prod.mk.injEq]
  exact or_congr_left (and_congr eq_comm eq_comm)

theorem edges_erase {d : Dependencies} {x y : String} :
    (d.erase x y).edges = d.edges.erase (x, y) := by
  ext ⟨a, b⟩
  rw [mem_edges, edge_erase, Finset.mem_erase, mem_edges, and_comm, ne_eq, Prod.mk.injEq,
    @eq_comm _ x, @eq_comm _ y]

theorem WellFormed.insert {d : Dependencies} (h : d.WellFormed) (x y : String) :
    (d.insert x y).WellFormed := by
  have hcard := congrArg Finset.card (edges_insert (d := d) (x := x) (y := y))
  by_cases hxy : d.hasEdge x y = true
  · rw [Dependencies.insert, if_pos hxy]
    exact h
  · rw [Finset.card_insert_of_notMem fun he => hxy (hasEdge_iff.mpr (mem_edges.mp he))] at hcard
    have hedge := fun a b => edge_insert (d := d) (x := x) (y := y) (a := a) (b := b)
    rw [Dependencies.insert, if_neg hxy] at hcard hedge ⊢
    refine ⟨fun a b => ?_, h.readers_tidy.link x y, h.sources_tidy.link y x, ?_⟩
    · rw [Adjacency.mem_next_link, h.transposed, hedge, and_comm]
    · rw [hcard, h.size_eq]

theorem WellFormed.erase {d : Dependencies} (h : d.WellFormed) (x y : String) :
    (d.erase x y).WellFormed := by
  have hcard := congrArg Finset.card (edges_erase (d := d) (x := x) (y := y))
  by_cases hxy : d.hasEdge x y = true
  · rw [Finset.card_erase_of_mem (mem_edges.mpr (hasEdge_iff.mp hxy))] at hcard
    have hedge := fun a b => edge_erase (d := d) (x := x) (y := y) (a := a) (b := b)
    rw [Dependencies.erase, if_pos hxy] at hcard hedge ⊢
    refine ⟨fun a b => ?_, h.readers_tidy.cut x y, h.sources_tidy.cut y x, ?_⟩
    · rw [Adjacency.mem_next_cut, h.transposed, hedge, and_comm (a := y = b)]
    · rw [hcard, h.size_eq]
  · rw [Dependencies.erase, if_neg hxy]
    exact h

/-! ## Inserting and erasing many edges -/

section Fold

variable {α : Type} {p q : α → String}

theorem edge_foldl_insert : ∀ {l : List α} {d : Dependencies} {a b : String},
    (l.foldl (fun d z => d.insert (p z) (q z)) d).Edge a b ↔
      (∃ z ∈ l, p z = a ∧ q z = b) ∨ d.Edge a b
  | [], d, a, b => by simp
  | z :: l, d, a, b => by
    rw [List.foldl_cons, edge_foldl_insert, edge_insert, List.exists_mem_cons_iff, ← or_assoc,
      or_comm (b := p z = a ∧ q z = b)]

theorem edge_foldl_erase : ∀ {l : List α} {d : Dependencies} {a b : String},
    (l.foldl (fun d z => d.erase (p z) (q z)) d).Edge a b ↔
      d.Edge a b ∧ ¬ ∃ z ∈ l, p z = a ∧ q z = b
  | [], d, a, b => by simp
  | z :: l, d, a, b => by
    rw [List.foldl_cons, edge_foldl_erase, edge_erase, List.exists_mem_cons_iff, not_or, and_assoc]

theorem WellFormed.foldl_insert {l : List α} {d : Dependencies} (h : d.WellFormed) :
    (l.foldl (fun d z => d.insert (p z) (q z)) d).WellFormed := by
  induction l generalizing d with
  | nil => exact h
  | cons z l ih => exact ih (h.insert (p z) (q z))

theorem WellFormed.foldl_erase {l : List α} {d : Dependencies} (h : d.WellFormed) :
    (l.foldl (fun d z => d.erase (p z) (q z)) d).WellFormed := by
  induction l generalizing d with
  | nil => exact h
  | cons z l ih => exact ih (h.erase (p z) (q z))

end Fold

/-! ## Edits, step by step -/

section Perform

variable {α β : Type} {d e : Dependencies}

/-- After a step that is not refused, the edit goes on from what the step leaves. -/
theorem perform_bind_ok {first : Edit α} {a : α} (h : d.perform first = (.ok a, e))
    (next : α → Edit β) : d.perform (first >>= next) = e.perform (next a) := by
  unfold perform at h ⊢
  rw [ExceptT.run_bind, StateT.run_bind, h]
  rfl

/-- After a step that is refused, the edit is refused and leaves what the step leaves. -/
theorem perform_bind_error {first : Edit α} {error : DependencyError}
    (h : d.perform first = (.error error, e)) (next : α → Edit β) :
    d.perform (first >>= next) = (.error error, e) := by
  unfold perform at h ⊢
  rw [ExceptT.run_bind, StateT.run_bind, h]
  rfl

theorem ite_empty_cons {γ : Type} (a b : γ) (name : String) (names : List String) :
    (if name = "" then a else if "" ∈ names then a else b) =
      if "" ∈ name :: names then a else b := by
  by_cases hname : name = ""
  · subst name
    rw [if_pos rfl, if_pos List.mem_cons_self]
  · have hmem : "" ∈ name :: names ↔ "" ∈ names := by simp [Ne.symm hname]
    rw [if_neg hname]
    simp only [hmem]

/-- A name is looked at before anything is changed. -/
theorem perform_checkName_bind (name : String) (next : Unit → Edit α) :
    d.perform (checkName name >>= next) =
      if name = "" then (.error .emptyName, d) else d.perform (next ()) := by
  split
  · subst name
    exact perform_bind_error rfl next
  · rename_i hname
    refine perform_bind_ok ?_ next
    rw [checkName, if_neg (by simpa using hname)]
    rfl

/-- **All names are looked at** before anything is changed. -/
theorem perform_forM_checkName_bind (names : List String) (next : Unit → Edit α) :
    d.perform (names.forM checkName >>= next) =
      if "" ∈ names then (.error .emptyName, d) else d.perform (next ()) := by
  induction names with
  | nil => exact perform_bind_ok rfl next
  | cons name names ih =>
    have hforM : (name :: names).forM checkName >>= next =
        checkName name >>= fun _ => names.forM checkName >>= next :=
      bind_assoc _ _ _
    rw [hforM, perform_checkName_bind, ih, ite_empty_cons]

theorem perform_checkTwo_bind (first second : String) (next : Unit → Edit α) :
    d.perform (checkName first >>= fun _ => checkName second >>= next) =
      if "" ∈ [first, second] then (.error .emptyName, d) else d.perform (next ()) := by
  rw [perform_checkName_bind, perform_checkName_bind, ← ite_empty_cons, ← ite_empty_cons,
    if_neg List.not_mem_nil]

theorem perform_checkAll_bind (name : String) (names : List String) (next : Unit → Edit α) :
    d.perform (checkName name >>= fun _ => names.forM checkName >>= next) =
      if "" ∈ name :: names then (.error .emptyName, d) else d.perform (next ()) := by
  rw [perform_checkName_bind, perform_forM_checkName_bind, ite_empty_cons]

/-- Steps that cannot be refused are taken one after the other. -/
theorem perform_forM_modify (step : α → Dependencies → Dependencies) (l : List α)
    (d : Dependencies) :
    d.perform (l.forM fun z => modify (step z)) = (.ok (), l.foldl (fun d z => step z d) d) := by
  induction l generalizing d with
  | nil => rfl
  | cons z l ih => exact (perform_bind_ok rfl _).trans (ih (step z d))

/-- Edges are taken out and others put in without a refusal. -/
theorem perform_replace (old new : List α) (out putIn : α → Dependencies → Dependencies)
    (d : Dependencies) :
    d.perform (do
      old.forM fun z => modify (out z)
      new.forM fun z => modify (putIn z)) =
    (.ok (), new.foldl (fun d z => putIn z d) (old.foldl (fun d z => out z d) d)) :=
  (perform_bind_ok (perform_forM_modify out old d) _).trans (perform_forM_modify putIn new _)

end Perform

/-! ## Replacing the edges of a name -/

section Replace

variable {d : Dependencies} {source reader : String} {sources readers : List String}

/-- The dependencies with exactly these readers of a source. -/
def withReaders (d : Dependencies) (source : String) (readers : List String) : Dependencies :=
  readers.foldl (fun d reader => d.insert source reader)
    ((d.readersOf source).foldl (fun d reader => d.erase source reader) d)

/-- The dependencies with exactly these sources of a reader. -/
def withSources (d : Dependencies) (reader : String) (sources : List String) : Dependencies :=
  sources.foldl (fun d source => d.insert source reader)
    ((d.sourcesOf reader).foldl (fun d source => d.erase source reader) d)

/-- **Setting readers** is refused for an empty name, and changes nothing then. -/
theorem perform_setReaders (d : Dependencies) (source : String) (readers : List String) :
    d.perform (setReaders source readers) =
      if "" ∈ source :: readers then (.error .emptyName, d)
      else (.ok (), d.withReaders source readers) := by
  rw [setReaders, perform_checkAll_bind]
  congr 1
  exact (perform_bind_ok rfl _).trans (perform_replace _ _ _ _ d)

/-- **Setting sources** is refused for an empty name, and changes nothing then. -/
theorem perform_setSources (d : Dependencies) (reader : String) (sources : List String) :
    d.perform (setSources reader sources) =
      if "" ∈ reader :: sources then (.error .emptyName, d)
      else (.ok (), d.withSources reader sources) := by
  rw [setSources, perform_checkAll_bind]
  congr 1
  exact (perform_bind_ok rfl _).trans (perform_replace _ _ _ _ d)

theorem WellFormed.withReaders (hd : d.WellFormed) : (d.withReaders source readers).WellFormed :=
  (hd.foldl_erase (p := fun _ => source) (q := fun z => z)).foldl_insert

theorem WellFormed.withSources (hd : d.WellFormed) : (d.withSources reader sources).WellFormed :=
  hd.foldl_erase.foldl_insert

/-- **With its readers set**, the source has exactly these, and the others have what they had. -/
theorem edge_withReaders {x y : String} :
    (d.withReaders source readers).Edge x y ↔ if x = source then y ∈ readers else d.Edge x y := by
  rw [Dependencies.withReaders, edge_foldl_insert (p := fun _ => source) (q := fun z => z),
    edge_foldl_erase (p := fun _ => source) (q := fun z => z)]
  simp only [mem_readersOf]
  split
  · subst x
    simp
  · rename_i hx
    simp [Ne.symm hx]

/-- **With its sources set**, the reader reads exactly these, and the others read what they did. -/
theorem edge_withSources (hd : d.WellFormed) {x y : String} :
    (d.withSources reader sources).Edge x y ↔ if y = reader then x ∈ sources else d.Edge x y := by
  rw [Dependencies.withSources, edge_foldl_insert (p := fun z => z) (q := fun _ => reader),
    edge_foldl_erase (p := fun z => z) (q := fun _ => reader)]
  simp only [hd.mem_sourcesOf]
  split
  · subst y
    simp
  · rename_i hy
    simp [Ne.symm hy]

/-- **Setting back** the sources that a reader had gives back what there was. -/
theorem WellFormed.withSources_back (hd : d.WellFormed) :
    (d.withSources reader sources).withSources reader (d.sourcesOf reader) = d := by
  have hset : (d.withSources reader sources).WellFormed := hd.withSources
  refine eq_of_edge_iff hset.withSources hd fun x y => ?_
  rw [edge_withSources hset, edge_withSources hd]
  split
  · rename_i hy
    rw [hy, hd.mem_sourcesOf]
  · rfl

end Replace

end Dependencies

end Worksheet
