import Worksheet.Proofs.Sheet.Entering

/-!
# A value depends only on what its cell reads

Whatever calls made two sheets, a cell has the same value in both if they hold the same contents
under its name and under all names that it reads, directly or not. So a sheet that was changed
again and again has the values of a fresh one into which its contents were entered once.

* `value_depends_on_what_is_read`: the two of them, for all reachable sheets.
-/

namespace Worksheet.Sheet

open Relation (ReflTransGen)

variable {s t : Sheet}

/-- A cell reads a name, directly or not, if and only if edges lead from the name to the cell. -/
theorem Consistent.reflTransGen_edge_iff (hs : s.Consistent) {x y : String} :
    ReflTransGen s.dependencies.Edge x y ↔ ReflTransGen (Reads s.cells.contents) y x := by
  have hedge : s.dependencies.Edge = Function.swap (Reads s.cells.contents) := by
    funext x y
    exact propext (hs.edge_iff x y)
  rw [hedge]
  exact Relation.reflTransGen_swap

/-- **Entries that ask for the contents of a sheet**, in whatever order, fill a fresh sheet with the
same cells. -/
theorem Consistent.exists_enterAll_eq (hs : s.Consistent) {policy : NamePolicy} {version : String}
    {entries : List Entry}
    (h : (entries.map (requested { policy, version })).Perm (s.contentsList.map .ok)) :
    ∃ u, enterAll { policy, version } entries = some u ∧ u.cells = s.cells := by
  have hasks : ∀ {entry : Entry} {name : String} {k : Contents},
      requested { policy, version } entry = .ok (name, k) → Asks policy entry name k :=
    (requested_iff_asks (s := { policy, version })).mp
  have hkept : ∀ entry ∈ entries, s.Keeps policy entry := by
    intro entry hentry
    obtain ⟨⟨name, k⟩, hk, hreq⟩ := List.mem_map.mp (h.mem_iff.mp (List.mem_map_of_mem hentry))
    exact hs.keeps_of_asks (mem_contentsList.mp hk) (hasks hreq.symm)
  have hnames : ∀ n k, s.cells.contents n = some k → ∃ entry ∈ entries, Names policy entry n := by
    intro n k hk
    have hmem := List.mem_map_of_mem (f := (.ok : _ → Except Refusal _)) (mem_contentsList.mpr hk)
    obtain ⟨entry, hentry, hreq⟩ := List.mem_map.mp (h.mem_iff.mpr hmem)
    exact ⟨entry, hentry, k, hasks hreq⟩
  have hblank : Blank { policy, version } := ⟨rfl, rfl⟩
  obtain ⟨u, henter, hcells, -⟩ := hs.enterAll_eq hblank hkept hnames
  exact ⟨u, henter, hcells⟩

/-- **A value depends only on what its cell reads.** Sheets that hold the same under a name and
under all names that are read from there have the same value under it; and entries that ask for just
what a sheet holds, in whatever order, are all accepted by a fresh sheet and give it the same
cells. -/
theorem value_depends_on_what_is_read (hs : s.Reachable) (ht : t.Reachable) :
    (∀ name : String,
      (∀ n, ReflTransGen (Reads s.cells.contents) name n →
        s.cells.contents n = t.cells.contents n) →
      s.cells[name]?.map Cell.value = t.cells[name]?.map Cell.value) ∧
    ∀ (policy : NamePolicy) (version : String) (entries : List Entry),
      (entries.map (requested { policy, version })).Perm (s.contentsList.map .ok) →
        ∃ u, enterAll { policy, version } entries = some u ∧ u.cells = s.cells := by
  refine ⟨fun name h => ?_, fun _ _ _ h => hs.consistent.exists_enterAll_eq h⟩
  have hcells := hs.consistent.getElem?_eq ht.consistent fun n hn =>
    h n (hs.consistent.reflTransGen_edge_iff.mp hn)
  rw [hcells]

/-- A sheet with the cells of `demo` and one more, after another value of `a` and a refused loop. -/
def detour : Sheet :=
  performAll { version := "other" }
    [.enter (.input "a" "7"), .enter (.text "z" "=b"), .enter (.input "b" "=a+1"),
      .enter (.input "a" "=b"), .enter (.input "a" "2")]

theorem reachable_detour : detour.Reachable :=
  Reachable.performAll (Reachable.blank .plain "other") _

/-- The contents of `demo`, in the other order. -/
def demoEntries : List Entry := [.input "a" " 2.0 ", .input "b" "=a+1"]

theorem detour_has_value_of_demo :
    (∀ n, ReflTransGen (Reads demo.cells.contents) "b" n →
      demo.cells.contents n = detour.cells.contents n) ∧
    demo.cells["b"]?.map Cell.value = detour.cells["b"]?.map Cell.value ∧
    (demoEntries.map (requested {})).Perm (demo.contentsList.map .ok) ∧
    ∃ u, enterAll {} demoEntries = some u ∧ u.cells = demo.cells := by
  obtain ⟨hvalue, hfresh⟩ := value_depends_on_what_is_read reachable_demo reachable_detour
  have hdemo := reachable_demo.consistent
  have hsources : ∀ x y, Reads demo.cells.contents y x → x ∈ demo.dependencies.sourcesOf y :=
    fun x y hxy => hdemo.wellFormed.mem_sourcesOf.mpr ((hdemo.edge_iff x y).mpr hxy)
  have hb : demo.dependencies.sourcesOf "b" = ["a"] := by decide +kernel
  have ha : demo.dependencies.sourcesOf "a" = [] := by decide +kernel
  have hread : ∀ n, ReflTransGen (Reads demo.cells.contents) "b" n → n = "b" ∨ n = "a" := by
    intro n hn
    induction hn with
    | refl => exact Or.inl rfl
    | tail _ hlast ih =>
      have hmem := hsources _ _ hlast
      rcases ih with rfl | rfl
      · rw [hb] at hmem
        exact Or.inr (List.mem_singleton.mp hmem)
      · rw [ha] at hmem
        exact absurd hmem List.not_mem_nil
  have hsame : ∀ n, ReflTransGen (Reads demo.cells.contents) "b" n →
      demo.cells.contents n = detour.cells.contents n := by
    intro n hn
    rcases hread n hn with rfl | rfl
    · decide +kernel
    · decide +kernel
  have hperm : (demoEntries.map (requested {})).Perm (demo.contentsList.map .ok) := by
    decide +kernel
  exact ⟨hsame, hvalue "b" hsame, hperm, hfresh .plain "default" demoEntries hperm⟩

end Worksheet.Sheet
