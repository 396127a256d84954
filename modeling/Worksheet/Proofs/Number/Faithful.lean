import Mathlib.Algebra.Order.Field.Basic
import Mathlib.Data.Sign.Basic
import Mathlib.Tactic.Linarith
import Worksheet.Number.Display
import Worksheet.Proofs.Number.Writing

/-!
# What a sheet shows of a number

What a sheet shows of a number is one of three things (`Displays`): `0` of zero, the number in full
if six places would turn it into zero, and otherwise the number rounded to six places. An integer
that is shown as it is comes to the same (`Binary64.display_eq`). Each property of what is shown is
proved for the three, on whole numbers of atoms, `10 ^ -1074`, in which both the number and what is
shown of it are exact.

* `Displays.near`, `Displays.eq_zero_iff`, `Displays.exact`, `Displays.le_of_lt`: what is shown is
  near the number, zero for zero alone, the number itself where that is a multiple of the last
  place, and ordered as the numbers are.
* `Binary64.value?`: the rational number that a finite double is.
* `Binary64.display_faithful`: all of this for the text that a sheet shows.
-/

namespace Worksheet.Number

/-! ## The three ways to show a magnitude -/

/-- One in the last place that a sheet shows, in atoms. -/
def shownStep : Nat := Nat.pow 10 (1074 - shownPlaces)

theorem shownStep_pos : 0 < shownStep := Nat.pow_pos (by decide)

namespace Magnitude

variable {m n : Magnitude} {seen seen' : Nat}

/-- The decimal that a sheet shows of a magnitude. -/
def displayed (m : Magnitude) : Decimal :=
  if m.coeff = 0 then ⟨0, 0⟩ else if m.shown.digits = 0 then m.shortest else m.shown

/-- So many atoms are shown of a magnitude: none of zero, a number that reads back where six places
would leave zero, and otherwise the multiple of the last place shown that is nearest. -/
inductive Displays (m : Magnitude) : Nat → Prop
  | zero (is_zero : m.units = 0) : Displays m 0
  | inFull (seen : Nat) (ne_zero : m.units ≠ 0) (small : roundDiv m.atoms shownStep = 0)
      (back : ofAtoms? seen = some m) : Displays m seen
  | rounded (ne_zero : roundDiv m.atoms shownStep ≠ 0) :
      Displays m (roundDiv m.atoms shownStep * shownStep)

theorem units_eq_zero_iff : m.units = 0 ↔ m.coeff = 0 := by
  have hpower : Nat.pow 2 m.exponent ≠ 0 := (Nat.two_pow_pos m.exponent).ne'
  rw [units, Nat.mul_eq_zero, or_iff_left hpower]

theorem atoms_eq_zero_iff : m.atoms = 0 ↔ m.coeff = 0 := by
  rw [atoms, Nat.mul_eq_zero, or_iff_left atomsPerUnit_pos.ne', units_eq_zero_iff]

theorem places_displayed_le (m : Magnitude) : m.displayed.places ≤ 1074 := by
  unfold displayed
  split_ifs
  · exact Nat.zero_le _
  · exact m.shortest_spec.1
  · exact show 6 ≤ 1074 by decide

theorem digits_shown (m : Magnitude) : m.shown.digits = roundDiv m.atoms shownStep := by
  rw [shown, rounded, shownStep]

theorem atoms_shown (m : Magnitude) :
    m.shown.atoms = roundDiv m.atoms shownStep * shownStep := by
  rw [Decimal.atoms, digits_shown, shown, rounded, shownStep]

theorem displays_displayed (m : Magnitude) : m.Displays m.displayed.atoms := by
  unfold displayed
  rw [digits_shown]
  split_ifs with hzero hsmall
  · rw [Decimal.atoms, Nat.zero_mul]
    exact .zero (units_eq_zero_iff.mpr hzero)
  · exact .inFull _ (mt units_eq_zero_iff.mp hzero) hsmall (m.readsBack_iff.mp m.shortest_spec.2)
  · rw [atoms_shown]
    exact .rounded hsmall

theorem unitsPerOne_mul_atomsPerUnit : unitsPerOne * atomsPerUnit = Nat.pow 10 1074 := by
  have hpower : ∀ n, Nat.pow 2 n * Nat.pow 5 n = Nat.pow 10 n := fun n => (Nat.mul_pow 2 5 n).symm
  rw [unitsPerOne, atomsPerUnit, hpower]

/-- An integer is rounded to itself. -/
theorem rounded_of_integer {k places : Nat} (h : m.units = k * unitsPerOne)
    (hplaces : places ≤ 1074) : m.rounded places = ⟨k * Nat.pow 10 places, places⟩ := by
  have hpower : Nat.pow 10 1074 = Nat.pow 10 places * Nat.pow 10 (1074 - places) := by
    rw [Nat.pow_eq, Nat.pow_eq, Nat.pow_eq, ← Nat.pow_add, Nat.add_sub_cancel' hplaces]
  have hpos : 0 < Nat.pow 10 (1074 - places) := Nat.pow_pos (by decide)
  rw [rounded, atoms, h, Nat.mul_assoc, unitsPerOne_mul_atomsPerUnit, hpower, ← Nat.mul_assoc,
    roundDiv_mul_right _ hpos]

theorem atoms_le_iff : m.atoms ≤ n.atoms ↔ m.units ≤ n.units :=
  Nat.mul_le_mul_right_iff atomsPerUnit_pos

/-- A number shown in full is at most half of the last place that a sheet shows. -/
theorem two_mul_atoms_le_of_small (hsmall : roundDiv m.atoms shownStep = 0) :
    2 * m.atoms ≤ shownStep := by
  have hround : 2 * m.atoms ≤ 2 * (roundDiv m.atoms shownStep * shownStep) + shownStep :=
    two_mul_le_roundDiv shownStep_pos
  rw [hsmall, Nat.zero_mul, Nat.mul_zero, Nat.zero_add] at hround
  exact hround

/-- What reads back as a magnitude is at most half as much again. -/
theorem two_mul_le_of_back (hback : ofAtoms? seen = some m) (hne : m.units ≠ 0) :
    2 * seen ≤ 3 * m.atoms :=
  two_mul_le_of_round? atomsPerUnit_pos hback hne

/-- **What is shown is near the number**: off by half of the last place at most. -/
theorem Displays.near (h : m.Displays seen) :
    2 * seen ≤ 2 * m.atoms + shownStep ∧ 2 * m.atoms ≤ 2 * seen + shownStep := by
  cases h with
  | zero hzero => simp [atoms, hzero]
  | inFull _ hne hsmall hback =>
    have hatoms := two_mul_atoms_le_of_small hsmall
    have hseen := two_mul_le_of_back hback hne
    omega
  | rounded => exact ⟨two_mul_roundDiv_le shownStep_pos, two_mul_le_roundDiv shownStep_pos⟩

/-- **Only zero is shown as zero.** -/
theorem Displays.eq_zero_iff (h : m.Displays seen) : seen = 0 ↔ m.atoms = 0 := by
  rw [atoms_eq_zero_iff, ← units_eq_zero_iff]
  cases h with
  | zero hzero => simp [hzero]
  | inFull _ hne _ hback =>
    refine iff_of_false ?_ hne
    rintro rfl
    rw [ofAtoms?_zero] at hback
    cases hback
    exact hne (by decide)
  | rounded hne =>
    refine iff_of_false (Nat.mul_ne_zero hne shownStep_pos.ne') fun hzero => hne ?_
    rw [atoms, hzero, Nat.zero_mul]
    exact roundDiv_eq_zero shownStep_pos

/-- **A multiple of the last place is shown as it is.** -/
theorem Displays.exact (h : m.Displays seen) (hdvd : shownStep ∣ m.atoms) :
    seen = m.atoms := by
  obtain ⟨steps, hsteps⟩ := hdvd
  have hround : roundDiv m.atoms shownStep = steps := by
    rw [hsteps, Nat.mul_comm]
    exact roundDiv_mul_right steps shownStep_pos
  cases h with
  | zero hzero => rw [atoms, hzero, Nat.zero_mul]
  | inFull _ hne hsmall =>
    rw [hround] at hsmall
    rw [hsmall, Nat.mul_zero, atoms, Nat.mul_eq_zero] at hsteps
    exact absurd hsteps (not_or.mpr ⟨hne, atomsPerUnit_pos.ne'⟩)
  | rounded => rw [hround, hsteps, Nat.mul_comm]

/-- Of two numbers the greater is not shown as less. -/
theorem Displays.le_of_lt (h : m.Displays seen) (h' : n.Displays seen') (hlt : m.units < n.units) :
    seen ≤ seen' := by
  have hround : roundDiv m.atoms shownStep ≤ roundDiv n.atoms shownStep :=
    roundDiv_mono (atoms_le_iff.mpr hlt.le) shownStep
  cases h with
  | zero => exact Nat.zero_le _
  | inFull _ hne hsmall hback =>
    cases h' with
    | zero hzero => omega
    | inFull _ _ _ hback' =>
      -- Were more shown of the lesser number, reading both back would turn them around.
      by_contra hgt
      exact absurd (units_le_of_round? (Nat.le_of_not_le hgt) hback' hback) hlt.not_ge
    | rounded hne' =>
      have hstep : shownStep ≤ roundDiv n.atoms shownStep * shownStep :=
        Nat.le_mul_of_pos_left _ (Nat.pos_of_ne_zero hne')
      have hatoms := two_mul_atoms_le_of_small hsmall
      have hseen := two_mul_le_of_back hback hne
      omega
  | rounded hne =>
    cases h' with
    | zero hzero => omega
    | inFull _ _ hsmall' => omega
    | rounded => exact Nat.mul_le_mul_right _ hround

/-- **What is shown is ordered as the numbers are.** -/
theorem atoms_displayed_mono (h : m.atoms ≤ n.atoms) :
    m.displayed.atoms ≤ n.displayed.atoms := by
  obtain hlt | heq := Nat.lt_or_eq_of_le (atoms_le_iff.mp h)
  · exact m.displays_displayed.le_of_lt n.displays_displayed hlt
  · rw [eq_of_units_eq heq]

end Magnitude

/-! ## Numbers counted in atoms -/

/-- So many atoms, `10 ^ -1074`, as a number. -/
def fromAtoms (atoms : Nat) : ℚ := atoms / 10 ^ 1074

theorem atomsPerOne_pos : (0 : ℚ) < 10 ^ 1074 := pow_pos (by norm_num) _

variable {a b : Nat}

theorem fromAtoms_le_iff : fromAtoms a ≤ fromAtoms b ↔ a ≤ b := by
  rw [fromAtoms, fromAtoms, div_le_div_iff_of_pos_right atomsPerOne_pos, Nat.cast_le]

theorem fromAtoms_eq_zero_iff : fromAtoms a = 0 ↔ a = 0 := by
  rw [fromAtoms, div_eq_zero_iff, or_iff_left atomsPerOne_pos.ne', Nat.cast_eq_zero]

theorem fromAtoms_nonneg (a : Nat) : 0 ≤ fromAtoms a :=
  div_nonneg (Nat.cast_nonneg _) atomsPerOne_pos.le

theorem fromAtoms_shownStep : fromAtoms shownStep = 1 / 10 ^ shownPlaces := by
  have hpower : (10 : ℚ) ^ 1074 = 10 ^ (1074 - shownPlaces) * 10 ^ shownPlaces := by
    rw [← pow_add, Nat.sub_add_cancel (by decide)]
  have hne : (10 : ℚ) ^ (1074 - shownPlaces) ≠ 0 := pow_ne_zero _ (by norm_num)
  rw [fromAtoms, shownStep, Nat.pow_eq, Nat.cast_pow, Nat.cast_ofNat, hpower,
    div_mul_cancel_left₀ hne, one_div]

/-- Numbers of atoms that are half a step apart at most. -/
theorem abs_fromAtoms_sub_le {step : Nat} (habove : 2 * a ≤ 2 * b + step)
    (hbelow : 2 * b ≤ 2 * a + step) : |fromAtoms a - fromAtoms b| ≤ fromAtoms step / 2 := by
  have habove : (2 * a : ℚ) ≤ 2 * b + step := by exact_mod_cast habove
  have hbelow : (2 * b : ℚ) ≤ 2 * a + step := by exact_mod_cast hbelow
  rw [fromAtoms, fromAtoms, fromAtoms, div_right_comm, ← sub_div, abs_div,
    abs_of_pos atomsPerOne_pos, div_le_div_iff_of_pos_right atomsPerOne_pos, abs_le]
  constructor <;> linarith

/-- An integer is a multiple of the last place that a sheet shows. -/
theorem shownStep_dvd {k : ℤ} (h : fromAtoms a = k) : shownStep ∣ a := by
  have hatoms : (a : ℤ) = k * 10 ^ 1074 := by
    rw [fromAtoms, div_eq_iff atomsPerOne_pos.ne'] at h
    exact_mod_cast h
  have hdvd : (10 : ℤ) ^ (1074 - shownPlaces) ∣ a := by
    rw [hatoms]
    exact Dvd.dvd.mul_left (pow_dvd_pow 10 (Nat.sub_le _ _)) k
  unfold shownStep
  exact_mod_cast hdvd

theorem Decimal.value_eq_atoms {d : Decimal} (h : d.places ≤ 1074) :
    d.value = fromAtoms d.atoms := by
  have hpower : (10 : ℚ) ^ 1074 = 10 ^ (1074 - d.places) * 10 ^ d.places := by
    rw [← pow_add, Nat.sub_add_cancel h]
  have hne : (10 : ℚ) ^ (1074 - d.places) ≠ 0 := pow_ne_zero _ (by norm_num)
  rw [value, fromAtoms, atoms, hpower, Nat.pow_eq, Nat.cast_mul, Nat.cast_pow, Nat.cast_ofNat,
    mul_comm, mul_div_mul_left _ _ hne]

namespace Magnitude

/-- The number that a magnitude is. -/
def value (m : Magnitude) : ℚ := m.coeff * 2 ^ m.exponent / 2 ^ 1074

variable (m : Magnitude)

theorem value_eq_atoms : m.value = fromAtoms m.atoms := by
  have hten : (10 : ℚ) ^ 1074 = 2 ^ 1074 * 5 ^ 1074 := by
    rw [← mul_pow]
    norm_num
  have hfive : (5 : ℚ) ^ 1074 ≠ 0 := pow_ne_zero _ (by norm_num)
  rw [value, fromAtoms, atoms, units, atomsPerUnit, hten, Nat.pow_eq, Nat.pow_eq, Nat.cast_mul,
    Nat.cast_mul, Nat.cast_pow, Nat.cast_pow, Nat.cast_ofNat, Nat.cast_ofNat,
    mul_div_mul_right _ _ hfive]

theorem value_nonneg : 0 ≤ m.value := by
  rw [value_eq_atoms]
  exact fromAtoms_nonneg _

/-! ## The number that is shown -/

theorem value_displayed : m.displayed.value = fromAtoms m.displayed.atoms :=
  Decimal.value_eq_atoms m.places_displayed_le

theorem value_displayed_nonneg : 0 ≤ m.displayed.value := by
  rw [value_displayed]
  exact fromAtoms_nonneg _

theorem value_displayed_eq_zero_iff : m.displayed.value = 0 ↔ m.value = 0 := by
  rw [value_displayed, value_eq_atoms, fromAtoms_eq_zero_iff, fromAtoms_eq_zero_iff,
    m.displays_displayed.eq_zero_iff]

theorem abs_value_displayed_sub_le : |m.displayed.value - m.value| ≤ 5 / 10 ^ 7 := by
  obtain ⟨habove, hbelow⟩ := m.displays_displayed.near
  have hhalf : fromAtoms shownStep / 2 = 5 / 10 ^ 7 := by
    rw [fromAtoms_shownStep]
    norm_num [shownPlaces]
  rw [value_displayed, value_eq_atoms, ← hhalf]
  exact abs_fromAtoms_sub_le habove hbelow

theorem value_displayed_of_integer {k : ℤ} (h : m.value = k) : m.displayed.value = m.value := by
  rw [value_eq_atoms] at h
  rw [value_displayed, value_eq_atoms, m.displays_displayed.exact (shownStep_dvd h)]

theorem value_displayed_mono {m n : Magnitude} (h : m.value ≤ n.value) :
    m.displayed.value ≤ n.displayed.value := by
  rw [value_eq_atoms, value_eq_atoms, fromAtoms_le_iff] at h
  rw [value_displayed, value_displayed, fromAtoms_le_iff]
  exact atoms_displayed_mono h

end Magnitude

/-! ## The text that is shown -/

/-- A number with this sign. -/
def signed (negative : Bool) (q : ℚ) : ℚ := if negative then -q else q

section Signed

variable {p q : ℚ}

theorem abs_signed_sub (negative : Bool) (p q : ℚ) :
    |signed negative p - signed negative q| = |p - q| := by
  cases negative with
  | false => rfl
  | true =>
    unfold signed
    rw [if_pos rfl, if_pos rfl, neg_sub_neg, abs_sub_comm]

/-- Numbers that are both positive or both zero have one sign, whatever sign they are given. -/
theorem sign_signed_eq (negative : Bool) (hp : 0 ≤ p) (hq : 0 ≤ q) (h : p = 0 ↔ q = 0) :
    SignType.sign (signed negative p) = SignType.sign (signed negative q) := by
  have hsign : SignType.sign p = SignType.sign q := by
    by_cases hzero : p = 0
    · rw [hzero, h.mp hzero]
    · rw [sign_pos (hp.lt_of_ne' hzero), sign_pos (hq.lt_of_ne' (mt h.mpr hzero))]
  cases negative with
  | false => exact hsign
  | true =>
    unfold signed
    rw [if_pos rfl, if_pos rfl, Left.sign_neg, Left.sign_neg, hsign]

theorem signed_eq_intCast {negative : Bool} {k : ℤ} (h : signed negative q = k) :
    ∃ k' : ℤ, q = k' := by
  cases negative with
  | false => exact ⟨k, h⟩
  | true =>
    refine ⟨-k, ?_⟩
    rw [Int.cast_neg, ← h]
    exact (neg_neg q).symm

end Signed

/-- What is shown of two numbers with their signs is ordered as they are. -/
theorem signed_displayed_mono {negative negative' : Bool} {m n : Magnitude}
    (h : signed negative m.value ≤ signed negative' n.value) :
    signed negative m.displayed.value ≤ signed negative' n.displayed.value := by
  cases negative with
  | false =>
    cases negative' with
    | false => exact Magnitude.value_displayed_mono h
    | true =>
      -- A number that is not negative is below one that is not positive: both are zero.
      have h : m.value ≤ -n.value := h
      have hm : m.value = 0 := by linarith [m.value_nonneg, n.value_nonneg]
      have hn : n.value = 0 := by linarith [m.value_nonneg, n.value_nonneg]
      rw [m.value_displayed_eq_zero_iff.mpr hm, n.value_displayed_eq_zero_iff.mpr hn]
      exact neg_zero.ge
  | true =>
    cases negative' with
    | false =>
      have hm := m.value_displayed_nonneg
      have hn := n.value_displayed_nonneg
      exact (neg_nonpos.mpr hm).trans hn
    | true => exact neg_le_neg (Magnitude.value_displayed_mono (neg_le_neg_iff.mp h))

namespace Binary64

/-- The number that a finite double is; the zeros of both signs are zero. -/
def value? : Binary64 → Option ℚ
  | .finite negative m => some (signed negative m.value)
  | _ => none

theorem finite_of_value? {x : Binary64} {r : ℚ} (h : x.value? = some r) :
    ∃ negative m, x = .finite negative m ∧ r = signed negative m.value := by
  match x, h with
  | .finite negative m, rfl => exact ⟨negative, m, rfl, rfl⟩

/-- Integers need no way of their own: six places, without the zeros at the end, leave the
integer. -/
theorem display_eq (negative : Bool) {m : Magnitude} (h : m.coeff ≠ 0) :
    display (.finite negative m) = signText negative ++ m.displayed.text := by
  rw [display, Magnitude.displayed, if_neg h, if_neg h]
  split
  · rename_i hinteger
    rw [Magnitude.isShortInteger, Bool.and_eq_true, beq_iff_eq] at hinteger
    obtain ⟨k, hk⟩ := Nat.dvd_of_mod_eq_zero hinteger.1
    rw [Nat.mul_comm] at hk
    have hne : k ≠ 0 := by
      rintro rfl
      rw [Nat.zero_mul, Magnitude.units_eq_zero_iff] at hk
      exact h hk
    have hshown : m.shown = ⟨k * Nat.pow 10 shownPlaces, shownPlaces⟩ :=
      Magnitude.rounded_of_integer hk (by decide)
    have hdigits : m.shown.digits ≠ 0 := by
      rw [hshown]
      exact Nat.mul_ne_zero hne (Nat.pow_pos (by decide)).ne'
    rw [if_neg hdigits, hshown, Decimal.text, Decimal.trim_mul_pow,
      Magnitude.rounded_of_integer hk (Nat.zero_le _), Nat.pow_eq, Nat.pow_zero, Nat.mul_one]
  · split
    · rfl
    · rfl

/-- The text that a sheet shows of a finite number writes what is shown of its magnitude. -/
theorem writes_display (negative : Bool) (m : Magnitude) :
    Writes (display (.finite negative m)) (signed negative m.displayed.value) := by
  by_cases hzero : m.coeff = 0
  · have hdisplayed : m.displayed = ⟨0, 0⟩ := if_pos hzero
    have hvalue : signed negative (Decimal.value ⟨0, 0⟩) = Decimal.value ⟨0, 0⟩ := by
      cases negative with
      | false => rfl
      | true => norm_num [signed, Decimal.value]
    rw [display, if_pos hzero, hdisplayed, hvalue]
    exact Decimal.writes_text ⟨0, 0⟩
  · rw [display_eq negative hzero]
    cases negative with
    | false => exact m.displayed.writes_text
    | true =>
      have hne : m.displayed.value ≠ 0 := by
        rw [ne_eq, m.value_displayed_eq_zero_iff, m.value_eq_atoms, fromAtoms_eq_zero_iff,
          Magnitude.atoms_eq_zero_iff]
        exact hzero
      exact m.displayed.writes_minus_text hne

/-- **What a sheet shows of a finite number is faithful to six places.** The text writes a number
that is off by half of the sixth place at most, has the sign of the number, zero for zero alone, and
is the number where that is an integer; and the texts of two numbers write them in their order. -/
theorem display_faithful {x : Binary64} {r : ℚ} (hx : x.value? = some r) :
    (∃ q, Writes x.display q ∧ |q - r| ≤ 5 / 10 ^ 7 ∧ SignType.sign q = SignType.sign r ∧
      ∀ k : ℤ, r = k → q = r) ∧
    ∀ (y : Binary64) (s : ℚ), y.value? = some s → r ≤ s →
      ∀ p q, Writes x.display p → Writes y.display q → p ≤ q := by
  obtain ⟨negative, m, rfl, rfl⟩ := finite_of_value? hx
  constructor
  · refine ⟨_, writes_display negative m, ?_, ?_, ?_⟩
    · rw [abs_signed_sub]
      exact m.abs_value_displayed_sub_le
    · exact sign_signed_eq negative m.value_displayed_nonneg m.value_nonneg
        m.value_displayed_eq_zero_iff
    · intro k hk
      obtain ⟨k', hk'⟩ := signed_eq_intCast hk
      rw [m.value_displayed_of_integer hk']
  · intro y s hy hle p q hp hq
    obtain ⟨negative', n, rfl, rfl⟩ := finite_of_value? hy
    rw [hp.unique (writes_display negative m), hq.unique (writes_display negative' n)]
    exact signed_displayed_mono hle

/-- The magnitude nearest to four ten-millionths, of which six places would leave nothing. -/
def fourTenMillionths : Magnitude := ⟨7555786372591432, 1000, by decide +kernel⟩

/-- Below zero, it is shown in full, near the number and before zero. -/
theorem fourTenMillionths_display_faithful :
    display (.finite true fourTenMillionths) = ['-', '0', '.', '0', '0', '0', '0', '0', '0', '4'] ∧
    (∃ q, Writes (display (.finite true fourTenMillionths)) q ∧
      |q - -fourTenMillionths.value| ≤ 5 / 10 ^ 7 ∧
      SignType.sign q = SignType.sign (-fourTenMillionths.value) ∧
      ∀ k : ℤ, -fourTenMillionths.value = k → q = -fourTenMillionths.value) ∧
    ∀ p q, Writes (display (.finite true fourTenMillionths)) p → Writes zero.display q → p ≤ q := by
  have hle : -fourTenMillionths.value ≤ Magnitude.zero.value :=
    (neg_nonpos.mpr fourTenMillionths.value_nonneg).trans Magnitude.zero.value_nonneg
  obtain ⟨hnear, hordered⟩ := display_faithful (x := .finite true fourTenMillionths) rfl
  exact ⟨by decide +kernel, hnear, hordered zero _ rfl hle⟩

end Binary64

end Worksheet.Number
