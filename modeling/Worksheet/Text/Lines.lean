/-!
# Lines of a text

A newline ends a line; a newline at the end of a text starts no further line.
-/

namespace Worksheet.Text

/-- The lines of a text, without their newlines. -/
def lines (text : List Char) : List (List Char) :=
  match text with
  | [] => []
  | first :: rest =>
    (first :: rest).takeWhile (· ≠ '\n') :: lines (((first :: rest).dropWhile (· ≠ '\n')).drop 1)
termination_by text.length
decreasing_by
  have := (List.dropWhile_sublist (fun c => decide (c ≠ '\n')) (l := first :: rest)).length_le
  simp only [List.length_drop, List.length_cons] at *
  omega

/-- The lines with their numbers, counted from one. -/
def numberedLines (text : List Char) : List (Nat × List Char) :=
  (lines text).zipIdx.map fun (line, index) => (index + 1, line)

end Worksheet.Text
