import Worksheet.Proofs.Dependencies.Edges

/-!
# Changes of dependencies

Dependencies are `Reachable` when changes make them of none, each of which may be refused for an
empty name. There may be cycles among them, and names that read themselves.

* `perform_edit`: a change is refused and leaves what there was, or it makes what it is to make.
* `Reachable.wellFormed`: both directions of reachable dependencies hold the same edges, and the
  edges are counted.
-/

namespace Worksheet.Dependencies

/-- A change of dependencies. -/
inductive Change where
  | connect (source reader : String)
  | disconnect (source reader : String)
  | setReaders (source : String) (readers : List String)
  | setSources (reader : String) (sources : List String)

namespace Change

/-- The edit that a change is. -/
def edit : Change → Edit Unit
  | .connect source reader => Dependencies.connect source reader
  | .disconnect source reader => Dependencies.disconnect source reader
  | .setReaders source readers => Dependencies.setReaders source readers
  | .setSources reader sources => Dependencies.setSources reader sources

/-- The names that a change is given. -/
def names : Change → List String
  | .connect source reader => [source, reader]
  | .disconnect source reader => [source, reader]
  | .setReaders source readers => source :: readers
  | .setSources reader sources => reader :: sources

end Change

/-- The dependencies after a change, if it is not refused. -/
def changed? (d : Dependencies) (c : Change) : Except DependencyError Dependencies :=
  match d.perform c.edit with
  | (.ok (), e) => .ok e
  | (.error error, _) => .error error

/-- What a change leaves, whether it is refused or not. -/
def change (d : Dependencies) (c : Change) : Dependencies := (d.perform c.edit).2

/-- The dependencies that changes make of none. -/
inductive Reachable : Dependencies → Prop
  | empty : Reachable .empty
  | change {d : Dependencies} (h : Reachable d) (c : Change) : Reachable (d.change c)

variable {d e : Dependencies} {c : Change}

/-! ## One change -/

/-- What a change makes once its names are looked at. -/
def made (d : Dependencies) : Change → Dependencies
  | .connect source reader => d.insert source reader
  | .disconnect source reader => d.erase source reader
  | .setReaders source readers => d.withReaders source readers
  | .setSources reader sources => d.withSources reader sources

/-- **A change is refused for an empty name**, and leaves the dependencies as they are then. -/
theorem perform_edit (d : Dependencies) (c : Change) :
    d.perform c.edit =
      if "" ∈ c.names then (.error .emptyName, d) else (.ok (), d.made c) := by
  cases c with
  | connect source reader => exact perform_checkTwo_bind source reader _
  | disconnect source reader => exact perform_checkTwo_bind source reader _
  | setReaders source readers => exact perform_setReaders d source readers
  | setSources reader sources => exact perform_setSources d reader sources

theorem changed?_of_empty (h : "" ∈ c.names) : d.changed? c = .error .emptyName := by
  rw [changed?, perform_edit, if_pos h]

theorem changed?_of_nonempty (h : "" ∉ c.names) : d.changed? c = .ok (d.made c) := by
  rw [changed?, perform_edit, if_neg h]

theorem change_of_empty (h : "" ∈ c.names) : d.change c = d := by
  rw [change, perform_edit, if_pos h]

theorem change_of_nonempty (h : "" ∉ c.names) : d.change c = d.made c := by
  rw [change, perform_edit, if_neg h]

theorem WellFormed.made (hd : d.WellFormed) (c : Change) : (d.made c).WellFormed := by
  cases c with
  | connect source reader => exact hd.insert source reader
  | disconnect source reader => exact hd.erase source reader
  | setReaders source readers => exact hd.withReaders
  | setSources reader sources => exact hd.withSources

theorem WellFormed.change (hd : d.WellFormed) (c : Change) : (d.change c).WellFormed := by
  by_cases h : "" ∈ c.names
  · rw [change_of_empty h]
    exact hd
  · rw [change_of_nonempty h]
    exact hd.made c

/-! ## All changes -/

/-- **Reachable dependencies are well-formed.** -/
theorem Reachable.wellFormed (h : d.Reachable) : d.WellFormed := by
  induction h with
  | empty => exact wellFormed_empty
  | change _ c ih => exact ih.change c

/-- What changes make of no dependencies, one after the other. -/
def ofChanges (changes : List Change) : Dependencies := changes.foldl change .empty

theorem Reachable.foldl_change (h : d.Reachable) (changes : List Change) :
    (changes.foldl Dependencies.change d).Reachable := by
  induction changes generalizing d with
  | nil => exact h
  | cons c changes ih => exact ih (h.change c)

theorem reachable_ofChanges (changes : List Change) : (ofChanges changes).Reachable :=
  Reachable.empty.foldl_change changes

end Worksheet.Dependencies
