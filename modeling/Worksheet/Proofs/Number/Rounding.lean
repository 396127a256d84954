import Mathlib.Data.Nat.Log
import Mathlib.Tactic.Ring
import Worksheet.Number.Magnitude

/-!
# Rounding to magnitudes

Where rounding a quotient to a magnitude changes nothing, where it leaves nothing, how far it goes
and that it keeps the order.

* `two_mul_roundDiv_le`, `two_mul_le_roundDiv`: a rounded quotient is off by half at most.
* `roundDiv_mono`, `units_le_of_round?`: what is greater is not rounded to something less.
* `round?_units`: what is a magnitude already is returned as it is.
* `round?_eq_zero`: what is less than half the smallest unit becomes zero.
* `two_mul_le_of_round?`: what becomes something other than zero is at most half as much again.
-/

namespace Worksheet.Number

theorem roundDiv_eq_zero {num den : Nat} (h : 2 * num < den) : roundDiv num den = 0 := by
  have hlt : num < den := by omega
  simp only [roundDiv, Nat.mod_eq_of_lt hlt, if_pos h, Nat.div_eq_of_lt hlt]

/-! ## A rounded quotient -/

variable {num num' den : Nat}

/-- The result is at most half above the quotient. -/
theorem two_mul_roundDiv_le (hden : 0 < den) : 2 * (roundDiv num den * den) ≤ 2 * num + den := by
  have hfloor : num / den * den + num % den = num := Nat.div_add_mod' num den
  have hrest : num % den < den := Nat.mod_lt num hden
  unfold roundDiv
  dsimp only
  generalize num / den = floor at hfloor ⊢
  split
  · omega
  · split
    · rw [Nat.add_mul]
      omega
    · obtain heven | hodd := Nat.mod_two_eq_zero_or_one floor
      · rw [heven, Nat.add_zero]
        omega
      · rw [hodd, Nat.add_mul]
        omega

/-- The result is at most half below the quotient. -/
theorem two_mul_le_roundDiv (hden : 0 < den) : 2 * num ≤ 2 * (roundDiv num den * den) + den := by
  have hfloor : num / den * den + num % den = num := Nat.div_add_mod' num den
  have hrest : num % den < den := Nat.mod_lt num hden
  unfold roundDiv
  dsimp only
  generalize num / den = floor at hfloor ⊢
  split
  · omega
  · split
    · rw [Nat.add_mul]
      omega
    · rw [Nat.add_mul]
      omega

theorem roundDiv_mono (h : num ≤ num') (den : Nat) : roundDiv num den ≤ roundDiv num' den := by
  obtain hlt | heq := Nat.lt_or_eq_of_le (Nat.div_le_div_right (c := den) h)
  · calc roundDiv num den
        _ ≤ num / den + 1 := roundDiv_le num den
        _ ≤ num' / den := hlt
        _ ≤ roundDiv num' den := le_roundDiv num' den
  · -- Both quotients have the same floor, so the remainders are ordered as the numerators are.
    have hrest : num % den ≤ num' % den := by
      have hnum := Nat.div_add_mod' num den
      have hnum' := Nat.div_add_mod' num' den
      rw [← heq] at hnum'
      omega
    have hparity := Nat.mod_lt (num' / den) (show 0 < 2 by decide)
    unfold roundDiv
    dsimp only
    rw [heq]
    split_ifs <;> omega

/-! ## Rounding to a magnitude -/

namespace Magnitude

theorem eq_zero_of_coeff {m : Magnitude} (h : m.coeff = 0) : m = zero := by
  obtain ⟨coeff, exponent, hcanonical⟩ := m
  obtain rfl : coeff = 0 := h
  obtain ⟨-, -, rfl | hcoeff⟩ := hcanonical
  · rfl
  · exact absurd hcoeff (by decide)

theorem ofCoeff?_eq (m : Magnitude) : ofCoeff? m.coeff m.exponent = some m := by
  rw [ofCoeff?, dif_pos m.canonical]

/-- The number of binary digits of a magnitude beyond 53 is its exponent. -/
theorem log2_units_sub (m : Magnitude) : m.units.log2 - 52 = m.exponent := by
  obtain ⟨hcoeff, -, hexponent⟩ := m.canonical
  simp only [Nat.pow_eq] at hcoeff hexponent
  simp only [units, Nat.pow_eq]
  by_cases hzero : m.coeff = 0
  · rw [eq_zero_of_coeff hzero]
    rfl
  · obtain hsmall | hnormal := hexponent
    · have hlog : m.coeff.log2 < 53 := (Nat.log2_lt hzero).mpr hcoeff
      rw [hsmall, Nat.pow_zero, Nat.mul_one]
      omega
    · have hpos : 0 < 2 ^ m.exponent := Nat.two_pow_pos _
      have hlog : (m.coeff * 2 ^ m.exponent).log2 = 52 + m.exponent := by
        rw [Nat.log2_eq_iff (Nat.mul_ne_zero hzero hpos.ne'), Nat.pow_add, Nat.add_right_comm,
          Nat.pow_add]
        exact ⟨Nat.mul_le_mul_right _ hnormal, (Nat.mul_lt_mul_right hpos).mpr hcoeff⟩
      rw [hlog]
      omega

/-- **What is a magnitude already** is returned as it is. -/
theorem round?_units (m : Magnitude) {den : Nat} (hden : 0 < den) :
    round? (m.units * den) den = some m := by
  have hcoeff : roundDiv (m.units * den) (den * Nat.pow 2 m.exponent) = m.coeff := by
    rw [units, Nat.mul_assoc, Nat.mul_comm (Nat.pow _ _)]
    exact roundDiv_mul_right m.coeff (Nat.mul_pos hden (Nat.pow_pos (by decide)))
  rw [round?, Nat.mul_div_cancel _ hden, log2_units_sub, hcoeff, ofCoeff?_eq]

/-- **What is less than half a unit** becomes zero. -/
theorem round?_eq_zero {num den : Nat} (h : 2 * num < den) : round? num den = some zero := by
  have hfloor : num / den = 0 := Nat.div_eq_of_lt (by omega)
  have hround : roundDiv num (den * Nat.pow 2 0) = 0 := by
    rw [Nat.pow_eq, Nat.pow_zero, Nat.mul_one]
    exact roundDiv_eq_zero h
  rw [round?, hfloor]
  exact (congrArg (ofCoeff? · 0) hround).trans (ofCoeff?_eq zero)

theorem eq_of_units_eq {m n : Magnitude} (h : m.units = n.units) : m = n := by
  have hm := m.round?_units Nat.one_pos
  rw [h, n.round?_units Nat.one_pos] at hm
  exact (Option.some.inj hm).symm

theorem log2_mono {m n : Nat} (h : m ≤ n) : m.log2 ≤ n.log2 := by
  rw [Nat.log2_eq_log_two, Nat.log2_eq_log_two]
  exact Nat.log_mono_right h

/-- The number of binary digits of a quotient beyond 53, by which `round?` shortens it. -/
def excess (num den : Nat) : Nat := (num / den).log2 - 52

theorem excess_mono (h : num ≤ num') (den : Nat) : excess num den ≤ excess num' den :=
  Nat.sub_le_sub_right (log2_mono (Nat.div_le_div_right h)) 52

/-- Shortened by its excess, a quotient has at most 53 binary digits. -/
theorem div_excess_lt (num den : Nat) :
    num / (den * Nat.pow 2 (excess num den)) < Nat.pow 2 53 := by
  have hlog : num / den < 2 ^ ((num / den).log2 + 1) := Nat.lt_log2_self
  have hpower : 2 ^ ((num / den).log2 + 1) ≤ 2 ^ 53 * 2 ^ excess num den := by
    rw [← Nat.pow_add]
    exact Nat.pow_le_pow_right (by decide) (by unfold excess; omega)
  rw [← Nat.div_div_eq_div_mul, Nat.pow_eq, Nat.div_lt_iff_lt_mul (Nat.two_pow_pos _)]
  exact hlog.trans_le hpower

/-- With an excess, the shortened quotient has exactly 53 binary digits. -/
theorem le_div_excess (h : 0 < excess num den) :
    Nat.pow 2 52 ≤ num / (den * Nat.pow 2 (excess num den)) := by
  have hne : num / den ≠ 0 := by
    intro hzero
    rw [excess, hzero] at h
    exact absurd h (by decide)
  have hlog : 2 ^ (num / den).log2 ≤ num / den := Nat.log2_self_le hne
  have hpower : 2 ^ 52 * 2 ^ excess num den = 2 ^ (num / den).log2 := by
    rw [← Nat.pow_add]
    congr 1
    unfold excess at h ⊢
    omega
  rw [← Nat.div_div_eq_div_mul, Nat.pow_eq, Nat.pow_eq, Nat.le_div_iff_mul_le (Nat.two_pow_pos _)]
  exact hpower.trans_le hlog

/-- A coefficient of at most `2 ^ 53` keeps its value, also where it is carried. -/
theorem units_of_ofCoeff? {coeff exponent : Nat} {m : Magnitude} (hcoeff : coeff ≤ Nat.pow 2 53)
    (h : ofCoeff? coeff exponent = some m) : m.units = coeff * Nat.pow 2 exponent := by
  unfold ofCoeff? at h
  split at h
  · cases h
    rfl
  · rename_i hnot
    split at h
    · rename_i hcarried
      cases h
      -- Half the coefficient has 53 digits already, so the coefficient is `2 ^ 53` itself.
      have hfull : coeff = Nat.pow 2 53 := by
        unfold Canonical at hnot hcarried
        simp only [Nat.reducePow, Nat.pow_eq] at hnot hcarried hcoeff ⊢
        omega
      have heven : coeff / 2 * 2 = coeff := by rw [hfull]
      calc coeff / 2 * Nat.pow 2 (exponent + 1)
          _ = coeff / 2 * 2 * Nat.pow 2 exponent := by
            rw [Nat.pow_eq, Nat.pow_eq, Nat.pow_succ, Nat.mul_comm (2 ^ exponent) 2, Nat.mul_assoc]
          _ = coeff * Nat.pow 2 exponent := by rw [heven]
    · cases h

/-- The value of a rounded quotient. -/
theorem units_of_round? {m : Magnitude} (h : round? num den = some m) :
    m.units = roundDiv num (den * Nat.pow 2 (excess num den)) * Nat.pow 2 (excess num den) :=
  units_of_ofCoeff? ((roundDiv_le _ _).trans (div_excess_lt num den)) h

/-- **Rounding keeps the order.** -/
theorem units_le_of_round? {m n : Magnitude} (h : num ≤ num') (hm : round? num den = some m)
    (hn : round? num' den = some n) : m.units ≤ n.units := by
  rw [units_of_round? hm, units_of_round? hn]
  obtain hlt | heq := Nat.lt_or_eq_of_le (excess_mono h den)
  · -- The greater quotient is shortened more: a power of two lies between the two results.
    calc roundDiv num (den * Nat.pow 2 (excess num den)) * Nat.pow 2 (excess num den)
        _ ≤ Nat.pow 2 53 * Nat.pow 2 (excess num den) :=
          Nat.mul_le_mul_right _ ((roundDiv_le _ _).trans (div_excess_lt num den))
        _ = 2 ^ (53 + excess num den) := (Nat.pow_add 2 53 _).symm
        _ ≤ 2 ^ (52 + excess num' den) := Nat.pow_le_pow_right (by decide) (by omega)
        _ = Nat.pow 2 52 * Nat.pow 2 (excess num' den) := Nat.pow_add 2 52 _
        _ ≤ roundDiv num' (den * Nat.pow 2 (excess num' den)) * Nat.pow 2 (excess num' den) :=
          Nat.mul_le_mul_right _
            ((le_div_excess (Nat.zero_lt_of_lt hlt)).trans (le_roundDiv _ _))
  · rw [heq]
    exact Nat.mul_le_mul_right _ (roundDiv_mono h _)

/-- **What is rounded to something other than zero** is at most half as much again. -/
theorem two_mul_le_of_round? {m : Magnitude} (hden : 0 < den) (h : round? num den = some m)
    (hm : m.units ≠ 0) : 2 * num ≤ 3 * (m.units * den) := by
  have hunits := units_of_round? h
  have hpos : 0 < Nat.pow 2 (excess num den) := Nat.two_pow_pos _
  generalize Nat.pow 2 (excess num den) = power at hunits hpos
  have hround : 2 * num ≤ 2 * (roundDiv num (den * power) * (den * power)) + den * power :=
    two_mul_le_roundDiv (Nat.mul_pos hden hpos)
  generalize roundDiv num (den * power) = coeff at hunits hround
  have hpower : power ≤ m.units := by
    obtain rfl | hcoeff := Nat.eq_zero_or_pos coeff
    · rw [Nat.zero_mul] at hunits
      exact absurd hunits hm
    · rw [hunits]
      exact Nat.le_mul_of_pos_left power hcoeff
  calc 2 * num
      _ ≤ 2 * (coeff * (den * power)) + den * power := hround
      _ = 2 * (m.units * den) + power * den := by rw [hunits]; ring
      _ ≤ 2 * (m.units * den) + m.units * den :=
        Nat.add_le_add_left (Nat.mul_le_mul_right den hpower) _
      _ = 3 * (m.units * den) := by ring

end Magnitude

end Worksheet.Number
