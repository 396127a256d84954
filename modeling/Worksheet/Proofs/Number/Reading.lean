import Mathlib.Algebra.Order.Ring.Nat
import Mathlib.Tactic.Ring
import Worksheet.Number.Numeral
import Worksheet.Number.Shortest
import Worksheet.Proofs.Number.Rounding
import Worksheet.Proofs.Text.Cut

/-!
# Numbers read back from their text

A magnitude is written as a `Plain` numeral: digits, with an interior point at most, and no
exponent. Scanning such a numeral takes all of it, up to a character that cannot go on with it, and
its value rounds to the magnitude, because the search for the shortest text tries each text out.

* `Magnitude.exists_numeral`: the text of a magnitude is a plain numeral of its value.
* `Binary64.read?_text`: a finite number read from its own text is the number.
-/

namespace Worksheet.Number

/-! ## Plain numerals -/

namespace Numeral

/-- Digits, with an interior point at most, and no exponent. -/
structure Plain (n : Numeral) : Prop where
  whole_ne_nil : n.whole ≠ []
  whole_digits : ∀ c ∈ n.whole, c.isDigit = true
  decimals_ne_nil : n.decimals ≠ some []
  decimals_digits : ∀ c ∈ n.decimals.getD [], c.isDigit = true
  exponent_eq : n.exponent = none

/-- A text with which no plain numeral before it goes on. -/
def Ends (rest : List Char) : Prop :=
  ∀ c ∈ rest.head?, c.isDigit = false ∧ c ≠ '.' ∧ c ≠ 'e' ∧ c ≠ 'E'

theorem ends_nil : Ends [] := by simp [Ends]

variable {n : Numeral} {rest : List Char}

theorem withExponent_of_ends (h : Ends rest) (whole : List Char) (decimals : Option (List Char)) :
    withExponent whole decimals rest = (⟨whole, decimals, none⟩, rest) := by
  have hnone : Exponent.scan? rest = none := by
    cases rest with
    | nil => rfl
    | cons c rest =>
      obtain ⟨-, -, he, hE⟩ := h c rfl
      simp [Exponent.scan?, he, hE]
  rw [withExponent, hnone]

/-- **A plain numeral is scanned as a whole.** -/
theorem Plain.scan?_append (h : n.Plain) (hrest : Ends rest) :
    scan? (n.text ++ rest) = some (n, rest) := by
  obtain ⟨whole, decimals, exponent⟩ := n
  obtain ⟨hne, hwhole, -, hdecimals, rfl : exponent = none⟩ := h
  have hdigit : ∀ c ∈ rest.head?, c.isDigit = false := fun c hc => (hrest c hc).1
  have hempty : whole.isEmpty = false := by simpa using hne
  cases decimals with
  | none =>
    have htext : text ⟨whole, none, none⟩ ++ rest = whole ++ rest := by simp [text, mantissaText]
    rw [htext, scan?, Text.takeWhile_append hwhole hdigit, Text.dropWhile_append hwhole hdigit]
    have hpoint : ∀ tail, rest ≠ '.' :: tail := by
      rintro tail rfl
      exact (hrest '.' rfl).2.1 rfl
    split
    · exact absurd rfl (hpoint _)
    · rw [hempty, withExponent_of_ends hrest]
      rfl
  | some decimals =>
    have hdecimals : ∀ c ∈ decimals, c.isDigit = true := hdecimals
    have htext : text ⟨whole, some decimals, none⟩ ++ rest =
        whole ++ '.' :: (decimals ++ rest) := by simp [text, mantissaText]
    have hpoint : ∀ c ∈ ('.' :: (decimals ++ rest)).head?, c.isDigit = false := by
      rintro c ⟨⟩
      rfl
    rw [htext, scan?, Text.takeWhile_append hwhole hpoint, Text.dropWhile_append hwhole hpoint]
    simp only [Text.takeWhile_append hdecimals hdigit, Text.dropWhile_append hdecimals hdigit,
      hempty, withExponent_of_ends hrest, Bool.false_and, Bool.false_eq_true, if_false]

theorem Plain.text_eq (h : n.Plain) : ∃ c ∈ n.whole, ∃ tail, n.text = c :: tail := by
  obtain ⟨c, whole, hwhole⟩ := List.exists_cons_of_ne_nil h.whole_ne_nil
  refine ⟨c, by simp [hwhole], ?_⟩
  rw [text, mantissaText, hwhole]
  exact ⟨_, rfl⟩

/-- A plain numeral consists of digits and points. -/
theorem Plain.isDigit_or_point (h : n.Plain) {c : Char} (hc : c ∈ n.text) :
    c.isDigit = true ∨ c = '.' := by
  obtain ⟨whole, decimals, exponent⟩ := n
  obtain ⟨-, hwhole, -, hdecimals, rfl : exponent = none⟩ := h
  cases decimals with
  | none =>
    simp only [text, mantissaText, List.append_nil] at hc
    exact Or.inl (hwhole c hc)
  | some decimals =>
    simp only [text, mantissaText, List.append_nil, List.mem_append, List.mem_cons] at hc
    obtain hc | rfl | hc := hc
    · exact Or.inl (hwhole c hc)
    · exact Or.inr rfl
    · exact Or.inl (hdecimals c hc)

end Numeral

/-! ## The text of a decimal -/

namespace Decimal

/-- The decimal in units of `10 ^ -1074`, if it has no more places than that. -/
def atoms (d : Decimal) : Nat := d.digits * Nat.pow 10 (1074 - d.places)

theorem places_trim_le (digits places : Nat) : (trim digits places).places ≤ places := by
  induction places generalizing digits with
  | zero => exact Nat.le_refl _
  | succ places ih =>
    rw [trim]
    split
    · exact (ih _).trans (Nat.le_succ _)
    · exact Nat.le_refl _

/-- Dropping zeros at the end changes nothing. -/
theorem atoms_trim {digits places : Nat} (h : places ≤ 1074) :
    (trim digits places).atoms = atoms ⟨digits, places⟩ := by
  induction places generalizing digits with
  | zero => rfl
  | succ places ih =>
    rw [trim]
    split
    · rename_i hzero
      have hpower : 1074 - places = 1074 - (places + 1) + 1 := by omega
      have hdigits : digits / 10 * 10 = digits := Nat.div_mul_cancel (Nat.dvd_of_mod_eq_zero hzero)
      rw [ih (by omega), atoms, atoms, hpower, Nat.pow_eq, Nat.pow_eq, Nat.pow_succ,
        Nat.mul_comm (_ ^ _) 10, ← Nat.mul_assoc, hdigits]
    · rfl

theorem places_ofSteps_le (found : Nat × Nat) : (ofSteps found).places ≤ 1074 := by
  obtain ⟨steps, k⟩ := found
  rw [ofSteps]
  split
  · exact Nat.sub_le _ _
  · exact Nat.zero_le _

theorem atoms_ofSteps (found : Nat × Nat) :
    (ofSteps found).atoms = found.1 * Nat.pow 10 found.2 := by
  obtain ⟨steps, k⟩ := found
  rw [ofSteps]
  split
  · rename_i hk
    rw [atoms, Nat.sub_sub_self hk]
  · rename_i hk
    have hpower : Nat.pow 10 (k - 1074) * Nat.pow 10 1074 = Nat.pow 10 k :=
      Nat.pow_sub_mul_pow 10 (Nat.le_of_not_le hk)
    rw [atoms, Nat.sub_zero, Nat.mul_assoc, hpower]

/-- The numeral that writes a decimal with all its places. -/
def numeral (d : Decimal) : Numeral :=
  let digits := (Nat.toDigits 10 d.digits).leftpad (d.places + 1) '0'
  let whole := digits.length - d.places
  if d.places = 0 then ⟨digits, none, none⟩ else ⟨digits.take whole, some (digits.drop whole), none⟩

theorem text_numeral (d : Decimal) : d.numeral.text = d.fullText := by
  unfold numeral fullText
  dsimp only
  split
  · simp [Numeral.text, Numeral.mantissaText]
  · simp [Numeral.text, Numeral.mantissaText]

variable (d : Decimal)

theorem isDigit_of_mem_digits {c : Char}
    (hc : c ∈ (Nat.toDigits 10 d.digits).leftpad (d.places + 1) '0') : c.isDigit = true := by
  rw [List.leftpad, List.mem_append, List.mem_replicate] at hc
  obtain ⟨-, rfl⟩ | hc := hc
  · rfl
  · exact Nat.isDigit_of_mem_toDigits (by decide) (by decide) hc

theorem lt_length_digits :
    d.places < ((Nat.toDigits 10 d.digits).leftpad (d.places + 1) '0').length := by
  rw [List.length_leftpad]
  omega

theorem plain_numeral : d.numeral.Plain := by
  have hlength := d.lt_length_digits
  have hdigits : ∀ c ∈ (Nat.toDigits 10 d.digits).leftpad (d.places + 1) '0', c.isDigit = true :=
    fun c hc => d.isDigit_of_mem_digits hc
  unfold numeral
  generalize (Nat.toDigits 10 d.digits).leftpad (d.places + 1) '0' = digits at hlength hdigits
  dsimp only
  split
  · refine ⟨?_, hdigits, by simp, by simp, rfl⟩
    rintro rfl
    simp at hlength
  · refine ⟨?_, fun c hc => hdigits c (List.mem_of_mem_take hc), ?_,
      fun c hc => hdigits c (List.mem_of_mem_drop hc), rfl⟩
    · intro hnil
      have := congrArg List.length hnil
      simp only [List.length_take, List.length_nil] at this
      omega
    · intro hnil
      have := congrArg List.length (Option.some.inj hnil)
      simp only [List.length_drop, List.length_nil] at this
      omega

theorem digits_numeral : d.numeral.digits = d.digits := by
  have hdigits : d.numeral.whole ++ d.numeral.decimals.getD [] =
      (Nat.toDigits 10 d.digits).leftpad (d.places + 1) '0' := by
    unfold numeral
    dsimp only
    split
    · exact List.append_nil _
    · exact List.take_append_drop _ _
  rw [Numeral.digits, hdigits, List.leftpad, Nat.ofDigitChars_append,
    Nat.ofDigitChars_replicate_zero, Nat.mul_zero, Nat.ofDigitChars_ten_toDigits]

theorem scale_numeral : d.numeral.scale = -(d.places : Int) := by
  have hlength := d.lt_length_digits
  unfold Numeral.scale numeral
  dsimp only
  split
  · rename_i hplaces
    simp [hplaces]
  · simp only [Option.elim_none, Option.getD_some, List.length_drop]
    omega

end Decimal

/-! ## The value of a decimal -/

namespace Magnitude

theorem atomsPerUnit_pos : 0 < atomsPerUnit := Nat.pow_pos (by decide)

theorem ofAtoms?_zero : ofAtoms? 0 = some zero := round?_eq_zero atomsPerUnit_pos

/-- From some place on a decimal is less than half a unit. -/
theorem two_mul_atoms_lt {digits places : Nat} (h : places ≤ 1074)
    (hsmall : digits.log2 + 400 < places) :
    2 * (digits * Nat.pow 10 (1074 - places)) < atomsPerUnit := by
  obtain ⟨q, hq⟩ : ∃ q, q = 1074 - places := ⟨_, rfl⟩
  have hdigits : digits < Nat.pow 2 (674 - q) :=
    Nat.lt_log2_self.trans_le (Nat.pow_le_pow_right (by decide) (by omega))
  have hten : Nat.pow 10 q = Nat.pow 2 q * Nat.pow 5 q := Nat.mul_pow 2 5 q
  have htwo : 2 * (Nat.pow 2 (674 - q) * Nat.pow 2 q) = Nat.pow 2 675 := by
    simp only [Nat.pow_eq]
    rw [← Nat.pow_add, ← Nat.pow_succ']
    congr 1
    omega
  have hfive : Nat.pow 5 q ≤ Nat.pow 5 674 := Nat.pow_le_pow_right (by decide) (by omega)
  rw [← hq, hten]
  calc 2 * (digits * (Nat.pow 2 q * Nat.pow 5 q))
      _ = 2 * (digits * Nat.pow 2 q) * Nat.pow 5 q := by ac_rfl
      _ ≤ 2 * (Nat.pow 2 (674 - q) * Nat.pow 2 q) * Nat.pow 5 q := by gcongr
      _ = Nat.pow 2 675 * Nat.pow 5 q := by rw [htwo]
      _ ≤ Nat.pow 2 675 * Nat.pow 5 674 := Nat.mul_le_mul_left _ hfive
      _ < Nat.pow 5 400 * Nat.pow 5 674 :=
        Nat.mul_lt_mul_of_pos_right (by decide +kernel) (Nat.pow_pos (by decide))
      _ = atomsPerUnit := by
        rw [atomsPerUnit, Nat.pow_eq, Nat.pow_eq, Nat.pow_eq, ← Nat.pow_add]

/-- Where the powers of ten are kept small, that changes nothing. -/
theorem ofDecimal?_eq (digits : Nat) {places : Nat} (h : places ≤ 1074) :
    ofDecimal? digits (-(places : Int)) = ofAtoms? (digits * Nat.pow 10 (1074 - places)) := by
  have hup : (-(places : Int) + 1074).toNat = 1074 - places := by omega
  have hdown : (-(-(places : Int) + 1074)).toNat = 0 := by omega
  have hone : atomsPerUnit * Nat.pow 10 0 = atomsPerUnit := by
    rw [Nat.pow_eq, Nat.pow_zero, Nat.mul_one]
  rw [ofDecimal?, if_neg (show ¬ 400 < -(places : Int) by omega), hup, hdown, hone]
  by_cases hzero : digits = 0
  · rw [if_pos hzero, hzero, Nat.zero_mul, ofAtoms?_zero]
  · rw [if_neg hzero]
    by_cases hsmall : -(places : Int) + digits.log2 < -400
    · rw [if_pos hsmall, ofAtoms?, round?_eq_zero (two_mul_atoms_lt h (by omega))]
    · rw [if_neg hsmall, ofAtoms?]

end Magnitude

/-- The text of a decimal is a plain numeral of its value. -/
theorem Decimal.exists_numeral {d : Decimal} (h : d.places ≤ 1074) :
    ∃ n : Numeral, n.Plain ∧ n.text = d.text ∧ n.magnitude? = Magnitude.ofAtoms? d.atoms := by
  obtain ⟨digits, places⟩ := d
  have htrim : (trim digits places).places ≤ 1074 := (places_trim_le digits places).trans h
  refine ⟨_, plain_numeral (trim digits places), text_numeral _, ?_⟩
  rw [Numeral.magnitude?, digits_numeral, scale_numeral, Magnitude.ofDecimal?_eq _ htrim,
    ← atoms_trim h, atoms]

/-! ## The shortest text -/

namespace Magnitude

variable (m : Magnitude)

theorem readsBack_iff {atoms : Nat} : m.readsBack atoms = true ↔ ofAtoms? atoms = some m := by
  rw [readsBack, beq_iff_eq]

theorem readsBack_atoms : m.readsBack m.atoms = true := by
  rw [readsBack_iff, ofAtoms?, atoms, m.round?_units atomsPerUnit_pos]

theorem readsBack_of_onGrid? {step steps : Nat} (h : m.onGrid? step = some steps) :
    m.readsBack (steps * step) = true := by
  unfold onGrid? at h
  dsimp only at h
  split at h
  · rename_i hbelow
    rw [Bool.and_eq_true] at hbelow
    rw [← Option.some.inj h]
    exact hbelow.1
  · split at h
    · rename_i habove
      rw [← Option.some.inj h]
      exact habove
    · cases h

/-- What the search ends with has the property that the value and the points have. -/
theorem coarsest_spec {P : Nat → Prop} {value : Nat} {point? : Nat → Option Nat}
    (hvalue : P value)
    (hpoint : ∀ step steps, point? step = some steps → P (steps * step)) (k : Nat) :
    P ((coarsest value point? k).1 * Nat.pow 10 (coarsest value point? k).2) := by
  induction k with
  | zero =>
    rw [coarsest, Nat.pow_eq, Nat.pow_zero, Nat.mul_one]
    exact hvalue
  | succ k ih =>
    rw [coarsest]
    split
    · rename_i steps hsteps
      exact hpoint _ steps hsteps
    · exact ih

theorem shortest_spec : m.shortest.places ≤ 1074 ∧ m.readsBack m.shortest.atoms = true := by
  have hfound := coarsest_spec (P := fun atoms => m.readsBack atoms = true) m.readsBack_atoms
    (fun _ _ => m.readsBack_of_onGrid?) m.topGrid
  rw [shortest, Decimal.atoms_ofSteps]
  exact ⟨Decimal.places_ofSteps_le _, hfound⟩

/-- **The text of a magnitude** is a plain numeral of its value. -/
theorem exists_numeral : ∃ n : Numeral, n.Plain ∧ n.text = m.text ∧ n.magnitude? = some m := by
  obtain ⟨hplaces, hatoms⟩ := m.shortest_spec
  obtain ⟨n, hplain, htext, hvalue⟩ := Decimal.exists_numeral hplaces
  rw [readsBack_iff, ← hvalue] at hatoms
  exact ⟨n, hplain, htext, hatoms⟩

end Magnitude

/-! ## Reading a number -/

namespace Binary64

theorem toLower_of_isDigit {c : Char} (h : c.isDigit = true) : c.toLower = c := by
  rw [Char.isDigit_iff_toNat] at h
  have hnine : c.toNat ≤ 57 := h.2
  have hupper : ¬ (c.val ≥ 'A'.val ∧ c.val ≤ 'Z'.val) := by
    rintro ⟨hge, -⟩
    have hge : 65 ≤ c.toNat := UInt32.le_iff_toNat_le.mp hge
    omega
  exact dif_neg hupper

theorem readUnsigned?_text (m : Magnitude) : readUnsigned? m.text = some (.finite false m) := by
  obtain ⟨n, hplain, htext, hvalue⟩ := m.exists_numeral
  obtain ⟨c, hc, tail, hhead⟩ := hplain.text_eq
  have hdigit := hplain.whole_digits c hc
  have hscan := hplain.scan?_append Numeral.ends_nil
  have hword : ∃ word, n.text.map Char.toLower = c :: word := by
    rw [hhead, List.map_cons, toLower_of_isDigit hdigit]
    exact ⟨_, rfl⟩
  obtain ⟨word, hword⟩ := hword
  have hi : c ≠ 'i' := by
    rintro rfl
    cases hdigit
  have hn : c ≠ 'n' := by
    rintro rfl
    cases hdigit
  rw [List.append_nil] at hscan
  rw [← htext, readUnsigned?, hword, hscan]
  simp [hi, hn, hvalue]

/-- **A finite number is read back from its text.** -/
theorem read?_text {x : Binary64} (h : x.isFinite = true) : read? x.text = some x := by
  match x, h with
  | .finite true m, _ =>
    have htext : text (.finite true m) = '-' :: m.text := by
      rw [text, signText, if_pos rfl, List.singleton_append]
    rw [htext, read?, readUnsigned?_text, Option.map_some, neg, Bool.not_false]
  | .finite false m, _ =>
    have htext : text (.finite false m) = m.text := by
      rw [text, signText, if_neg Bool.false_ne_true, List.nil_append]
    obtain ⟨n, hplain, hn, -⟩ := m.exists_numeral
    obtain ⟨c, hc, tail, hhead⟩ := hplain.text_eq
    have hdigit := hplain.whole_digits c hc
    have hread : read? m.text = readUnsigned? m.text := by
      rw [← hn, hhead, read?]
      · rintro rest heq
        cases heq
        cases hdigit
      · rintro rest heq
        cases heq
        cases hdigit
    rw [htext, hread, readUnsigned?_text]

/-- The text of a finite number is not empty and consists of digits, points and minus signs. -/
theorem text_characters {x : Binary64} (h : x.isFinite = true) :
    x.text ≠ [] ∧ ∀ c ∈ x.text, c.isDigit = true ∨ c = '.' ∨ c = '-' := by
  match x, h with
  | .finite negative m, _ =>
    obtain ⟨n, hplain, htext, -⟩ := m.exists_numeral
    obtain ⟨c, -, tail, hhead⟩ := hplain.text_eq
    rw [text, ← htext]
    constructor
    · simp [hhead]
    · intro c hc
      rw [List.mem_append] at hc
      obtain hc | hc := hc
      · cases negative with
        | false => contradiction
        | true => exact Or.inr (Or.inr (List.mem_singleton.mp hc))
      · exact (hplain.isDigit_or_point hc).imp_right Or.inl

end Binary64

end Worksheet.Number
