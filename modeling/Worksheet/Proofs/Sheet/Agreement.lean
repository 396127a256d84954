import Worksheet.Proofs.Settings.LetterCase
import Worksheet.Proofs.Sheet.History

/-!
# Cells and dependencies agree

The cells of a sheet and the dependencies between its names are stored separately, and every entry
changes both. On every reachable sheet they `Agree`: the edges are what the stored formulas read,
without a cycle, and all names are canonical. A canonical name is found again under itself if the
policy is idempotent, which the policies of all settings are.
-/

namespace Worksheet.Sheet

open Relation (TransGen)

/-- A cell is stored under the name, or an edge starts or ends there. -/
def Uses (s : Sheet) (name : String) : Prop :=
  name ∈ s.cells ∨ s.dependencies.isRead name = true ∨ s.dependencies.isReader name = true

/-- The cells and the dependencies agree, and both use canonical names only. -/
structure Agree (s : Sheet) : Prop where
  nonempty : ∀ (name : String) (cell : Cell), s.cells[name]? = some cell →
    cell.contents ≠ .text ""
  finite : ∀ (name : String) (cell : Cell) x, s.cells[name]? = some cell →
    cell.contents = .number x → x.isFinite = true
  readers_iff : ∀ source reader, reader ∈ s.dependencies.readersOf source ↔
    Reads s.cells.contents reader source
  sources_iff : ∀ source reader, source ∈ s.dependencies.sourcesOf reader ↔
    Reads s.cells.contents reader source
  /-- No name is reached from itself, in one step or more. -/
  acyclic : ∀ name,
    ¬ TransGen (fun source reader => reader ∈ s.dependencies.readersOf source) name name
  spelt : ∀ name, s.Uses name → ∃ raw, s.policy.normalize raw = name
  identifier : ∀ name, s.Uses name → Name.isIdentifier name = true
  accepted : ∀ name, s.Uses name → s.policy.accepts name = true
  resolved : s.policy.Idempotent → ∀ name, s.Uses name → s.resolve name = .ok name
  /-- What is asked about a stored name is answered from its own cell. -/
  found : s.policy.Idempotent → ∀ (name : String) (cell : Cell), s.cells[name]? = some cell →
    s.contentsAt name = .ok cell.contents ∧ s.valueAt name = .ok cell.value ∧
      s.readersAt name = .ok (s.dependencies.readersOf name)

variable {s : Sheet} {name : String}

theorem Consistent.canonical_of_uses (h : s.Consistent) (hname : s.Uses name) :
    s.policy.Canonical name := by
  obtain hcell | hread | hreader := hname
  · rw [Std.ExtTreeMap.mem_iff_isSome_getElem?, Option.isSome_iff_exists] at hcell
    obtain ⟨cell, hcell⟩ := hcell
    exact h.canonical name cell.contents (Cells.contents_eq_some hcell)
  · obtain ⟨y, hy⟩ := h.wellFormed.isRead_iff.mp hread
    exact (h.canonical_of_edge hy).1
  · obtain ⟨x, hx⟩ := h.wellFormed.isReader_iff.mp hreader
    exact (h.canonical_of_edge hx).2

theorem resolve_of_canonical (hpolicy : s.policy.Idempotent) (h : s.policy.Canonical name) :
    s.resolve name = .ok name := by
  unfold resolve
  rw [h.canonical?_eq hpolicy]

/-- The operations that resolve a name find the cell that is stored under it. -/
theorem found_of_resolve {cell : Cell} (h : s.resolve name = .ok name)
    (hcell : s.cells[name]? = some cell) :
    s.contentsAt name = .ok cell.contents ∧ s.valueAt name = .ok cell.value ∧
      s.readersAt name = .ok (s.dependencies.readersOf name) := by
  unfold contentsAt valueAt readersAt
  rw [h]
  refine ⟨?_, ?_, rfl⟩
  · show Except.ok ((s.cells[name]?.map Cell.contents).getD .empty) = _
    rw [hcell]
    rfl
  · show Except.ok ((s.cells[name]?.map Cell.value).getD .empty) = _
    rw [hcell]
    rfl

theorem Consistent.agree (h : s.Consistent) : s.Agree := by
  have hedge : (fun source reader => reader ∈ s.dependencies.readersOf source) =
      s.dependencies.Edge := by
    funext x y
    exact propext Dependencies.mem_readersOf
  constructor
  case nonempty =>
    intro name cell hcell he
    have hfull := h.nonempty name _ (Cells.contents_eq_some hcell)
    rw [he] at hfull
    contradiction
  case finite =>
    intro name cell x hcell hx
    exact (h.admitted name _ (Cells.contents_eq_some hcell)).finite x hx
  case readers_iff =>
    intro source reader
    rw [Dependencies.mem_readersOf, h.edge_iff]
  case sources_iff =>
    intro source reader
    rw [h.wellFormed.mem_sourcesOf, h.edge_iff]
  case acyclic =>
    rw [hedge]
    exact h.acyclic
  case spelt =>
    intro name hname
    obtain ⟨raw, hraw⟩ := h.canonical_of_uses hname
    exact ⟨raw, (NamePolicy.canonical?_eq_some_iff.mp hraw).1⟩
  case identifier =>
    intro name hname
    obtain ⟨raw, hraw⟩ := h.canonical_of_uses hname
    exact NamePolicy.isIdentifier_of_canonical? hraw
  case accepted =>
    intro name hname
    obtain ⟨raw, hraw⟩ := h.canonical_of_uses hname
    exact (Bool.and_eq_true_iff.mp (NamePolicy.legal_of_canonical? hraw)).2
  case resolved =>
    intro hpolicy name hname
    exact resolve_of_canonical hpolicy (h.canonical_of_uses hname)
  case found =>
    intro hpolicy name cell hcell
    have hname := h.canonical name _ (Cells.contents_eq_some hcell)
    exact found_of_resolve (resolve_of_canonical hpolicy hname) hcell

/-- **The cells and the dependencies of a reachable sheet agree**, and under all settings a name
that is spelt anew is spelt the same. -/
theorem cells_and_dependencies_agree (h : s.Reachable) :
    s.Agree ∧ ∀ settings : Settings, settings.policy.Idempotent :=
  ⟨h.consistent.agree, Settings.policy_idempotent⟩

theorem demo_agrees : demo.Agree :=
  (cells_and_dependencies_agree reachable_demo).1

end Worksheet.Sheet
