import Worksheet.Name.Policy

/-!
# Canonical names

A name is `Canonical` under a policy when it is the canonical form of some raw name. If spelling a
name anew changes nothing (`Idempotent`), a canonical name is its own canonical form.
-/

namespace Worksheet

namespace NamePolicy

variable {policy : NamePolicy} {name : String}

/-- The canonical form of some raw name. -/
def Canonical (policy : NamePolicy) (name : String) : Prop :=
  ∃ raw, policy.canonical? raw = some name

/-- A name that was brought to its spelling is spelt so. -/
def Idempotent (policy : NamePolicy) : Prop :=
  ∀ raw, policy.normalize (policy.normalize raw) = policy.normalize raw

theorem canonical?_eq_some_iff {raw : String} :
    policy.canonical? raw = some name ↔ policy.normalize raw = name ∧ policy.legal name = true := by
  simp only [canonical?, Option.ite_none_right_eq_some, Option.some.injEq]
  constructor
  · rintro ⟨hlegal, rfl⟩
    exact ⟨rfl, hlegal⟩
  · rintro ⟨rfl, hlegal⟩
    exact ⟨hlegal, rfl⟩

theorem Canonical.ne_empty (h : policy.Canonical name) : name ≠ "" := by
  rintro rfl
  obtain ⟨raw, hraw⟩ := h
  have hident := isIdentifier_of_canonical? hraw
  exact absurd hident (by decide)

theorem Canonical.canonical?_eq (h : policy.Canonical name) (hpolicy : policy.Idempotent) :
    policy.canonical? name = some name := by
  obtain ⟨raw, hraw⟩ := h
  obtain ⟨rfl, hlegal⟩ := canonical?_eq_some_iff.mp hraw
  exact canonical?_eq_some_iff.mpr ⟨hpolicy raw, hlegal⟩

end NamePolicy

end Worksheet
