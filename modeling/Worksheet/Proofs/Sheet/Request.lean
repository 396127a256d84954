import Worksheet.Proofs.Name.Policy
import Worksheet.Sheet.Entry

/-!
# What an entry asks for

However an entry gives its contents, its name is looked at first and its contents after it. So what
an entry asks for, or why it is refused before anything changes, is told from the two apart.

* `interpret_equals`, `interpret_text`: what input stands for.
* `requested_eq`: an entry is looked at in two steps.
* `requested_eq_ok_iff`: it asks for the canonical form of its name and the contents that it gives.
* `requested_eq_error`: the checks refuse a name, missing contents, a number or a formula.
-/

namespace Worksheet.Sheet

/-- The name that an entry gives for its cell, as it is spelt there. -/
def Entry.name? : Entry → Option String
  | .input name _ => some name
  | .optional name _ => name
  | .number name _ => some name
  | .text name _ => some name
  | .formula name _ => some name

/-- The contents that an entry gives for its cell, if they are acceptable. -/
def contentsOf (s : Sheet) : Entry → Except Refusal Contents
  | .input _ input => s.interpret input
  | .optional _ none => .error .missingContent
  | .optional _ (some input) => s.interpret input
  | .number _ x => if x.isFinite then .ok (.number x) else .error (.notFinite x)
  | .text _ t => .ok (.text t)
  | .formula _ f => s.interpretFormula f.text

variable {s : Sheet} {entry entry' : Entry} {name : String} {k : Contents} {e : Refusal}

theorem bind_eq_ok {α β : Type} {x : Except Refusal α} {f : α → Except Refusal β} {b : β} :
    x >>= f = .ok b ↔ ∃ a, x = .ok a ∧ f a = .ok b := by
  cases x with
  | error e =>
    refine iff_of_false (fun h => by contradiction) ?_
    rintro ⟨_, h, -⟩
    contradiction
  | ok a =>
    refine ⟨fun h => ⟨a, rfl, h⟩, ?_⟩
    rintro ⟨_, h, hb⟩
    obtain rfl := Except.ok.inj h
    exact hb

theorem resolve_eq_ok_iff {raw : String} :
    s.resolve raw = .ok name ↔ s.policy.canonical? raw = some name := by
  unfold resolve
  cases s.policy.canonical? raw with
  | none => simp
  | some n => simp

theorem canonical_of_resolve {raw : String} (h : s.resolve raw = .ok name) :
    s.policy.Canonical name :=
  ⟨raw, resolve_eq_ok_iff.mp h⟩

theorem resolve_eq_error {raw : String} (h : s.resolve raw = .error e) : e = .illegalName raw := by
  unfold resolve at h
  split at h
  · contradiction
  · exact (Except.error.inj h).symm

/-! ## What input stands for -/

/-- Input that begins with `=` stands for a formula. -/
theorem interpret_equals (s : Sheet) (text : String) :
    s.interpret ("=" ++ text) = s.interpretFormula text := by
  have htext : ("=" ++ text).toList = '=' :: text.toList := by simp
  unfold interpret
  rw [htext]
  simp only [String.ofList_toList]

/-- Input that is no formula and reads as no finite number stands for itself. -/
theorem interpret_text {input : String} (hformula : input.toList.head? ≠ some '=')
    (hnumber : ∀ x, Number.Binary64.read? (Text.trim input.toList) = some x →
      x.isFinite = false) : s.interpret input = .ok (.text input) := by
  unfold interpret
  split
  · rename_i rest hinput
    rw [hinput] at hformula
    exact absurd rfl hformula
  · split
    · rename_i x hx
      simp [hnumber x hx]
    · rfl

/-- Input that stands for a text is that text. -/
theorem eq_of_interpret_text {input t : String} (h : s.interpret input = .ok (.text t)) :
    t = input := by
  unfold interpret at h
  split at h
  · unfold interpretFormula at h
    split at h
    · have hk := Except.ok.inj h
      contradiction
    · contradiction
  · split at h
    · have hk := Except.ok.inj h
      split at hk
      · contradiction
      · exact (Contents.text.inj hk).symm
    · exact (Contents.text.inj (Except.ok.inj h)).symm

/-! ## The two steps -/

/-- **An entry is looked at in two steps**: its name is resolved, and then its contents are read. -/
theorem requested_eq (s : Sheet) (entry : Entry) :
    s.requested entry = match entry.name? with
      | none => .error (.illegalName "")
      | some raw => do
        let name ← s.resolve raw
        return (name, ← s.contentsOf entry) := by
  cases entry with
  | input raw input => rfl
  | optional raw input =>
    cases raw with
    | none => rfl
    | some raw => cases input <;> rfl
  | number raw x =>
    show (s.resolve raw >>= _) = (s.resolve raw >>= _)
    refine congrArg _ (funext fun name => ?_)
    by_cases hx : x.isFinite = true
    · simp only [contentsOf, if_pos hx]
      rfl
    · simp only [contentsOf, if_neg hx]
      rfl
  | text raw t => rfl
  | formula raw f => rfl

theorem requested_eq_ok_iff : s.requested entry = .ok (name, k) ↔
    (∃ raw, entry.name? = some raw ∧ s.resolve raw = .ok name) ∧ s.contentsOf entry = .ok k := by
  rw [requested_eq]
  cases entry.name? with
  | none => simp
  | some raw => simp [bind_eq_ok, pure, Except.pure]

/-- Entries that give the same name and the same contents ask for the same. -/
theorem requested_congr (hname : entry.name? = entry'.name?)
    (hk : s.contentsOf entry = s.contentsOf entry') : s.requested entry = s.requested entry' := by
  rw [requested_eq, requested_eq, hname, hk]

/-! ## Refusals before anything changes -/

theorem interpretFormula_eq_error {text : String} (h : s.interpretFormula text = .error e) :
    ∃ fault, e = .formula fault := by
  unfold interpretFormula at h
  split at h
  · contradiction
  · exact ⟨_, (Except.error.inj h).symm⟩

theorem interpret_eq_error {input : String} (h : s.interpret input = .error e) :
    ∃ fault, e = .formula fault := by
  unfold interpret at h
  split at h
  · exact interpretFormula_eq_error h
  · split at h <;> contradiction

theorem contentsOf_eq_error (h : s.contentsOf entry = .error e) :
    e = .missingContent ∨ (∃ x, e = .notFinite x) ∨ ∃ fault, e = .formula fault := by
  cases entry with
  | input raw input => exact Or.inr (Or.inr (interpret_eq_error h))
  | optional raw input =>
    cases input with
    | none => exact Or.inl (Except.error.inj h).symm
    | some input => exact Or.inr (Or.inr (interpret_eq_error h))
  | number raw x =>
    simp only [contentsOf] at h
    split at h
    · contradiction
    · exact Or.inr (Or.inl ⟨x, (Except.error.inj h).symm⟩)
  | text raw t => contradiction
  | formula raw f => exact Or.inr (Or.inr (interpretFormula_eq_error h))

/-- **Why an entry is refused before anything changes**: for its name, or for its contents. -/
theorem requested_eq_error (h : s.requested entry = .error e) : (∃ raw, e = .illegalName raw) ∨
    e = .missingContent ∨ (∃ x, e = .notFinite x) ∨ ∃ fault, e = .formula fault := by
  rw [requested_eq] at h
  split at h
  · exact Or.inl ⟨"", (Except.error.inj h).symm⟩
  · rename_i raw _
    cases hname : s.resolve raw with
    | error e' =>
      rw [hname] at h
      obtain rfl := Except.error.inj h
      exact Or.inl ⟨raw, resolve_eq_error hname⟩
    | ok name =>
      cases hk : s.contentsOf entry with
      | error e' =>
        rw [hname, hk] at h
        obtain rfl := Except.error.inj h
        exact Or.inr (contentsOf_eq_error hk)
      | ok k =>
        rw [hname, hk] at h
        contradiction

end Worksheet.Sheet
