import Mathlib.Algebra.Order.Field.Rat
import Mathlib.Tactic.NormNum
import Worksheet.Proofs.Number.Reading

/-!
# Numbers written plainly

A text `Writes` a rational number if it is the number as people write it: digits with an interior
point at most, no exponent, no needless zero at either end, and a minus sign before a number below
zero only. The text of a decimal writes its value.

* `Writes.unique`: a text writes one number at most.
* `Decimal.writes_text`, `Decimal.writes_minus_text`: the text of a decimal, also after a minus
  sign.
-/

namespace Worksheet.Number

namespace Numeral

/-- A plain numeral without needless zeros: none ends its decimals, and none comes before another
digit of its whole part. -/
structure Neat (n : Numeral) : Prop extends n.Plain where
  decimals_ne : ∀ front, n.decimals ≠ some (front ++ ['0'])
  whole_ne : ∀ c rest, n.whole ≠ '0' :: c :: rest

/-- The number that a numeral stands for. -/
def value (n : Numeral) : ℚ := n.digits * 10 ^ n.scale

end Numeral

/-- The text is this number, written plainly: digits with an interior point at most, no exponent and
no needless zero, and a minus sign before a number below zero only. -/
inductive Writes : List Char → ℚ → Prop
  | unsigned (n : Numeral) (neat : n.Neat) : Writes n.text n.value
  | minus (n : Numeral) (neat : n.Neat) (ne_zero : n.value ≠ 0) : Writes ('-' :: n.text) (-n.value)

theorem Numeral.Plain.eq_of_text_eq {n k : Numeral} (hn : n.Plain) (hk : k.Plain)
    (h : n.text = k.text) : n = k := by
  have hscan := hn.scan?_append ends_nil
  rw [h, hk.scan?_append ends_nil] at hscan
  simp only [Option.some.injEq, Prod.mk.injEq, and_true] at hscan
  exact hscan.symm

theorem Numeral.Plain.text_ne_minus {n : Numeral} (hn : n.Plain) (rest : List Char) :
    n.text ≠ '-' :: rest := by
  obtain ⟨c, hc, tail, htext⟩ := hn.text_eq
  rw [htext]
  rintro ⟨⟩
  exact absurd (hn.whole_digits _ hc) (by decide)

/-- **A text writes one number at most.** -/
theorem Writes.unique {text : List Char} {p q : ℚ} (hp : Writes text p) (hq : Writes text q) :
    p = q := by
  generalize htext : text = text' at hq
  cases hp with
  | unsigned n hn =>
    cases hq with
    | unsigned k hk => rw [hn.eq_of_text_eq hk.toPlain htext]
    | minus k hk hne => exact absurd htext (hn.text_ne_minus _)
  | minus n hn hne =>
    cases hq with
    | unsigned k hk => exact absurd htext.symm (hk.text_ne_minus _)
    | minus k hk hne => rw [hn.eq_of_text_eq hk.toPlain (List.cons.inj htext).2]

/-! ## The text of a decimal is neat -/

/-- No number has a needless zero before its digits. -/
theorem toDigits_ne (n : Nat) (c : Char) (rest : List Char) :
    Nat.toDigits 10 n ≠ '0' :: c :: rest := by
  induction n using Nat.strong_induction_on generalizing c rest with
  | _ n ih =>
    obtain hsmall | hlarge := Nat.lt_or_ge n 10
    · rw [Nat.toDigits_of_lt_base hsmall]
      simp
    · rw [Nat.toDigits_of_base_le (by decide) hlarge]
      have hlt : n / 10 < n := Nat.div_lt_self (by omega) (by decide)
      have hvalue := Nat.ofDigitChars_ten_toDigits (n := n / 10)
      intro heq
      match hdigits : Nat.toDigits 10 (n / 10) with
      | [] => exact Nat.toDigits_ne_nil hdigits
      | [d] =>
        rw [hdigits] at heq hvalue
        obtain ⟨rfl, -⟩ := List.cons.inj heq
        have hzero : Nat.ofDigitChars 10 ['0'] 0 = 0 := rfl
        omega
      | d :: e :: front =>
        rw [hdigits] at heq
        obtain ⟨rfl, -⟩ := List.cons.inj heq
        exact ih _ hlt e front hdigits

namespace Decimal

/-- The number that a decimal is. -/
def value (d : Decimal) : ℚ := d.digits / 10 ^ d.places

variable (d : Decimal)

theorem value_numeral : d.numeral.value = d.value := by
  rw [Numeral.value, value, d.digits_numeral, d.scale_numeral, zpow_neg, zpow_natCast,
    div_eq_mul_inv]

theorem value_trim (digits places : Nat) :
    (trim digits places).value = value ⟨digits, places⟩ := by
  induction places generalizing digits with
  | zero => rfl
  | succ places ih =>
    rw [trim]
    split
    · rename_i hzero
      have hdigits : (digits / 10 : Nat) * (10 : ℚ) = digits := by
        exact_mod_cast Nat.div_mul_cancel (Nat.dvd_of_mod_eq_zero hzero)
      rw [ih, value, value]
      dsimp only
      rw [← hdigits, pow_succ, mul_div_mul_right _ _ (by norm_num)]
    · rfl

/-- Of an integer all decimals are dropped. -/
theorem trim_mul_pow (n places : Nat) : trim (n * Nat.pow 10 places) places = ⟨n, 0⟩ := by
  induction places with
  | zero => rw [Nat.pow_eq, Nat.pow_zero, Nat.mul_one, trim]
  | succ places ih =>
    have hdigits : n * Nat.pow 10 (places + 1) = n * Nat.pow 10 places * 10 := by
      rw [Nat.pow_eq, Nat.pow_succ, Nat.mul_assoc, Nat.pow_eq]
    rw [trim, hdigits, if_pos (Nat.mul_mod_left _ _), Nat.mul_div_cancel _ (by decide), ih]

theorem trim_spec (digits places : Nat) :
    (trim digits places).places = 0 ∨ (trim digits places).digits % 10 ≠ 0 := by
  induction places generalizing digits with
  | zero => exact Or.inl rfl
  | succ places ih =>
    rw [trim]
    split
    · exact ih _
    · exact Or.inr ‹_›

theorem numeral_whole_ne (c : Char) (rest : List Char) : d.numeral.whole ≠ '0' :: c :: rest := by
  unfold numeral
  dsimp only
  split
  · rename_i hplaces
    have hpad : 1 ≤ (Nat.toDigits 10 d.digits).length := Nat.length_toDigits_pos
    rw [hplaces, List.leftpad, Nat.sub_eq_zero_of_le hpad]
    exact toDigits_ne d.digits c rest
  · intro heq
    dsimp only at heq
    have hlength := congrArg List.length heq
    rw [List.length_take, List.length_leftpad] at hlength
    simp only [List.length_cons] at hlength
    -- Two digits before the point leave no room for padding.
    have hpad : d.places + 1 - (Nat.toDigits 10 d.digits).length = 0 := by omega
    rw [List.leftpad, hpad, List.replicate_zero, List.nil_append] at heq
    have hdigits := List.take_append_drop ((Nat.toDigits 10 d.digits).length - d.places)
      (Nat.toDigits 10 d.digits)
    rw [heq] at hdigits
    exact toDigits_ne d.digits c _ hdigits.symm

theorem numeral_decimals_ne (h : d.places = 0 ∨ d.digits % 10 ≠ 0) (front : List Char) :
    d.numeral.decimals ≠ some (front ++ ['0']) := by
  intro heq
  have hplaces : d.places ≠ 0 := by
    intro hzero
    rw [numeral, if_pos hzero] at heq
    cases heq
  have hlast : d.numeral.digits = 10 * Nat.ofDigitChars 10 (d.numeral.whole ++ front) 0 := by
    rw [Numeral.digits, heq, Option.getD_some, ← List.append_assoc, Nat.ofDigitChars_append]
    rfl
  rw [d.digits_numeral] at hlast
  omega

theorem neat_numeral_trim (digits places : Nat) : (trim digits places).numeral.Neat where
  toPlain := plain_numeral _
  decimals_ne := numeral_decimals_ne _ (trim_spec digits places)
  whole_ne := numeral_whole_ne _

/-- **The text of a decimal** writes its value. -/
theorem writes_text : Writes d.text d.value := by
  have hwrites := Writes.unsigned _ (neat_numeral_trim d.digits d.places)
  rw [text_numeral, value_numeral, value_trim] at hwrites
  exact hwrites

theorem writes_minus_text (h : d.value ≠ 0) : Writes ('-' :: d.text) (-d.value) := by
  have hwrites := Writes.minus _ (neat_numeral_trim d.digits d.places)
  rw [text_numeral, value_numeral, value_trim] at hwrites
  exact hwrites h

end Decimal

end Worksheet.Number
