import Worksheet.Name.Grammar
import Worksheet.Proofs.Text.Cut

/-!
# The characters of identifiers

* `exists_cons_of_isIdentifier`: the first character of an identifier, and the others.
* `isBlank_of_continuesIdentifier`: none of them is blank.
-/

namespace Worksheet.Name

open Text (isBlank)

variable {c : Char}

theorem isUpper_iff_toNat : c.isUpper = true ↔ 65 ≤ c.toNat ∧ c.toNat ≤ 90 :=
  decide_eq_true_iff

theorem isAlpha_iff_toNat : c.isAlpha = true ↔
    (65 ≤ c.toNat ∧ c.toNat ≤ 90) ∨ (97 ≤ c.toNat ∧ c.toNat ≤ 122) := by
  have hlower : c.isLower = true ↔ 97 ≤ c.toNat ∧ c.toNat ≤ 122 :=
    Bool.and_eq_true_iff.trans (and_congr decide_eq_true_iff decide_eq_true_iff)
  exact Bool.or_eq_true_iff.trans (or_congr isUpper_iff_toNat hlower)

theorem continuesIdentifier_of_startsIdentifier (h : startsIdentifier c = true) :
    continuesIdentifier c = true := by
  rw [startsIdentifier, Bool.or_eq_true] at h
  obtain h | h := h
  · simp [continuesIdentifier, Char.isAlphanum, h]
  · simp [continuesIdentifier, h]

theorem continuesIdentifier_of_isDigit (h : c.isDigit = true) : continuesIdentifier c = true := by
  simp [continuesIdentifier, Char.isAlphanum, h]

theorem startsIdentifier_of_isDigit (h : c.isDigit = true) : startsIdentifier c = false := by
  rw [startsIdentifier, Bool.or_eq_false_iff, Bool.eq_false_iff, ne_eq, isAlpha_iff_toNat]
  constructor
  · have hnine : c.toNat ≤ 57 := (Char.isDigit_iff_toNat.mp h).2
    omega
  · rw [beq_eq_false_iff_ne]
    rintro rfl
    contradiction

/-- The characters of identifiers are no blanks. -/
theorem isBlank_of_continuesIdentifier (h : continuesIdentifier c = true) : isBlank c = false := by
  rw [continuesIdentifier, Char.isAlphanum, Bool.or_eq_true, Bool.or_eq_true, isAlpha_iff_toNat,
    Char.isDigit_iff_toNat, beq_iff_eq] at h
  change (_ ∨ 48 ≤ c.toNat ∧ c.toNat ≤ 57) ∨ c = '_' at h
  obtain h | rfl := h
  · exact Text.isBlank_eq_false (by omega) (by omega)
  · rfl

variable {name : String}

/-- An identifier is a character that starts it and characters that go on with it. -/
theorem exists_cons_of_isIdentifier (h : isIdentifier name = true) :
    ∃ first rest, name.toList = first :: rest ∧ startsIdentifier first = true ∧
      ∀ c ∈ rest, continuesIdentifier c = true := by
  unfold isIdentifier identifierChars at h
  split at h
  · contradiction
  · rename_i first rest hname
    rw [Bool.and_eq_true, List.all_eq_true] at h
    exact ⟨first, rest, hname, h⟩

theorem continuesIdentifier_of_mem (h : isIdentifier name = true) (hc : c ∈ name.toList) :
    continuesIdentifier c = true := by
  obtain ⟨first, rest, hname, hfirst, hrest⟩ := exists_cons_of_isIdentifier h
  rw [hname, List.mem_cons] at hc
  obtain rfl | hc := hc
  · exact continuesIdentifier_of_startsIdentifier hfirst
  · exact hrest c hc

end Worksheet.Name
