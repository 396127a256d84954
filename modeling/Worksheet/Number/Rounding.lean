/-!
# Rounding a quotient

`roundDiv num den` is the natural number nearest to `num / den`; a half goes to the even
neighbour. All inexact arithmetic of the library goes through it.

* `roundDiv_mul_right`: a quotient without remainder is returned as it is.
* `roundDiv_le`, `le_roundDiv`: the result is the floor of the quotient or the number after it.
-/

namespace Worksheet.Number

/-- The natural number nearest to `num / den`, the even one of two that are equally near. -/
def roundDiv (num den : Nat) : Nat :=
  let floor := num / den
  let twice := 2 * (num % den)
  if twice < den then floor
  else if den < twice then floor + 1
  else floor + floor % 2

theorem le_roundDiv (num den : Nat) : num / den ≤ roundDiv num den := by
  simp only [roundDiv]
  split
  · exact Nat.le_refl _
  · split <;> omega

theorem roundDiv_le (num den : Nat) : roundDiv num den ≤ num / den + 1 := by
  simp only [roundDiv]
  split
  · omega
  · split <;> omega

/-- A quotient without remainder is returned as it is. -/
theorem roundDiv_mul_right (n : Nat) {den : Nat} (h : 0 < den) : roundDiv (n * den) den = n := by
  simp [roundDiv, h]

end Worksheet.Number
