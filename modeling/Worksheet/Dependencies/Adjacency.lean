import Std.Data.ExtTreeMap
import Std.Data.ExtTreeSet

/-!
# Adjacency

For each name the set of names next to it, where a name with nothing next to it has no entry. So
two adjacencies are equal exactly when the same names stand next to the same names.

* `mem_next_link`, `mem_next_cut`: what linking and cutting do to the sets.
-/

namespace Worksheet

/-- A set of names for each name that has any next to it. -/
abbrev Adjacency := Std.ExtTreeMap String (Std.ExtTreeSet String)

namespace Adjacency

/-- The names next to a name. -/
def next (a : Adjacency) (x : String) : Std.ExtTreeSet String := a.getD x ∅

/-- Puts `y` next to `x`. -/
def link (a : Adjacency) (x y : String) : Adjacency := a.insert x ((a.next x).insert y)

/-- Takes `y` away from next to `x`. -/
def cut (a : Adjacency) (x y : String) : Adjacency :=
  let rest := (a.next x).erase y
  if rest.isEmpty then a.erase x else a.insert x rest

theorem next_insert (a : Adjacency) (x z : String) (ys : Std.ExtTreeSet String) :
    next (a.insert x ys) z = if x = z then ys else a.next z := by
  simp [next, Std.ExtTreeMap.getD_insert]

theorem next_erase (a : Adjacency) (x z : String) :
    next (a.erase x) z = if x = z then ∅ else a.next z := by
  simp [next, Std.ExtTreeMap.getD_erase]

theorem mem_next_link {a : Adjacency} {x y z w : String} :
    w ∈ (a.link x y).next z ↔ (x = z ∧ y = w) ∨ w ∈ a.next z := by
  rw [link, next_insert]
  split
  · subst z
    simp [Std.ExtTreeSet.mem_insert]
  · simp_all

theorem mem_next_cut {a : Adjacency} {x y z w : String} :
    w ∈ (a.cut x y).next z ↔ w ∈ a.next z ∧ ¬(x = z ∧ y = w) := by
  have erased : w ∈ (a.next x).erase y ↔ w ∈ a.next x ∧ y ≠ w := by
    simp [Std.ExtTreeSet.mem_erase, and_comm]
  unfold cut
  dsimp only
  split
  · rename_i h
    rw [next_erase]
    split
    · subst z
      have : (a.next x).erase y = ∅ := Std.ExtTreeSet.isEmpty_iff.1 h
      rw [this] at erased
      simp only [Std.ExtTreeSet.not_mem_empty, false_iff, true_and] at erased ⊢
      exact erased
    · simp_all
  · rw [next_insert]
    split
    · subst z
      simpa using erased
    · simp_all

end Adjacency

end Worksheet
