import Worksheet.Name.Grammar

/-!
# Naming policies

A sheet, and a formula read for it, brings every name to one spelling and then decides whether the
result is acceptable. Whatever the policy, a canonical name is an identifier.
-/

namespace Worksheet

/-- How names are spelt and which are accepted. -/
structure NamePolicy where
  /-- The canonical spelling of a raw name. -/
  normalize : String → String
  /-- Whether a canonical spelling is acceptable. -/
  accepts : String → Bool

namespace NamePolicy

/-- Names are taken as they are, and every identifier is accepted. -/
def plain : NamePolicy := ⟨id, fun _ => true⟩

instance : Inhabited NamePolicy := ⟨plain⟩

/-- Whether a canonical spelling is an acceptable identifier. -/
def legal (policy : NamePolicy) (name : String) : Bool :=
  Name.isIdentifier name && policy.accepts name

/-- The canonical form of a raw name, if the policy has one for it. -/
def canonical? (policy : NamePolicy) (raw : String) : Option String :=
  let name := policy.normalize raw
  if policy.legal name then some name else none

theorem legal_of_canonical? {policy : NamePolicy} {raw name : String}
    (h : policy.canonical? raw = some name) : policy.legal name := by
  simp only [canonical?, Option.ite_none_right_eq_some, Option.some.injEq] at h
  obtain ⟨legal, rfl⟩ := h
  exact legal

theorem isIdentifier_of_canonical? {policy : NamePolicy} {raw name : String}
    (h : policy.canonical? raw = some name) : Name.isIdentifier name :=
  (Bool.and_eq_true_iff.1 (legal_of_canonical? h)).1

end NamePolicy

end Worksheet
