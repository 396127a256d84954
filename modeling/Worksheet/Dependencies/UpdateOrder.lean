import Worksheet.Dependencies.Basic

/-!
# The order of updates

When a name changes, every name that reads it, directly or not, must be computed again, each after
the names it reads. `updateOrder` searches depth first through the readers, in the order of their
names, and returns the names in the reverse of the order in which they are completed. Meeting a
name that is still on the current path closes a cycle, and the search ends there.

The search keeps its path as a list of frames, so a long chain of readers needs no deep recursion. A
name comes onto the path once and each of its edges is looked at once, so `2 * d.size + 3` steps
suffice: one for each edge, one to complete each of at most `d.size + 1` names, and one to end.
-/

namespace Worksheet

/-- A loop of names, each read by the next: the first and the last name are the same. -/
structure Cycle where
  path : List String
  deriving DecidableEq

/-- The wording of a cycle. -/
def Cycle.message (c : Cycle) : String := " -> ".intercalate c.path

namespace Dependencies

/-- The state of a depth-first search. -/
structure Search where
  /-- The names on the current path, innermost first, each with its readers that are still to be
  looked at. -/
  frames : List (String × List String) := []
  /-- The names on the current path. -/
  onPath : Std.ExtTreeSet String := ∅
  /-- The names that are complete. -/
  complete : Std.ExtTreeSet String := ∅
  /-- The names that are complete, the last one first. -/
  order : List String := []

namespace Search

/-- Lengthens the path by a name. -/
def descend (d : Dependencies) (node : String) (s : Search) : Search :=
  { s with frames := (node, d.readersOf node) :: s.frames, onPath := s.onPath.insert node }

/-- Completes the innermost name, which leaves the path with the frames under it. -/
def ascend (node : String) (frames : List (String × List String)) (s : Search) : Search :=
  { frames, onPath := s.onPath.erase node, complete := s.complete.insert node,
    order := node :: s.order }

/-- The cycle that the path closes by coming back to `node`. -/
def cycleAt (node : String) (s : Search) : Cycle :=
  ⟨node :: ((s.frames.map Prod.fst).takeWhile (· ≠ node)).reverse ++ [node]⟩

/-- Searches on, for at most as many steps as there is fuel. -/
def run (d : Dependencies) : Nat → Search → Except Cycle (List String)
  | 0, s => .ok s.order
  | fuel + 1, s =>
    match s.frames with
    | [] => .ok s.order
    | (node, []) :: frames => run d fuel (s.ascend node frames)
    | (node, next :: others) :: frames =>
      let rest := { s with frames := (node, others) :: frames }
      if s.onPath.contains next then .error (rest.cycleAt next)
      else if s.complete.contains next then run d fuel rest
      else run d fuel (rest.descend d next)

end Search

/-- The names to compute again when `start` changes, itself first, each before the names that read
it; or a cycle. -/
def updateOrder (d : Dependencies) (start : String) : Except Cycle (List String) :=
  Search.run d (2 * d.size + 3) (Search.descend d start {})

end Dependencies

end Worksheet
