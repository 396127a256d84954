import Mathlib.Logic.Basic
import Worksheet.Formula.Evaluation

/-!
# The variables of formulas

* `evaluate_congr`: a formula's evaluation sees of a lookup only what it says of the variables.
* `exists_canonical?_of_parse`: the variables of a formula that was read are canonical names.
-/

namespace Worksheet

theorem Stacks.run_congr {α : Type} {arithmetic : Arithmetic α}
    {lookup lookup' : String → Except EvalError α} {tokens : List Token}
    (h : ∀ name, .variable name ∈ tokens → lookup name = lookup' name) (s : Stacks α) :
    run arithmetic lookup s tokens = run arithmetic lookup' s tokens := by
  induction tokens generalizing s with
  | nil => rfl
  | cons token tokens ih =>
    have htail := ih fun name hname => h name (List.mem_cons_of_mem token hname)
    match token with
    | .number m => simp only [run, htail]
    | .variable name => simp only [run, htail, Asked.ask, h name List.mem_cons_self]
    | .operator o => simp only [run, htail]
    | .bracket .opening => simp only [run, htail]
    | .bracket .closing => simp only [run, htail]

namespace Formula

theorem mem_filterMap_nameOf? {tokens : List Token} {name : String} :
    name ∈ tokens.filterMap nameOf? ↔ .variable name ∈ tokens := by
  rw [List.mem_filterMap]
  constructor
  · rintro ⟨token, htoken, hname⟩
    unfold nameOf? at hname
    split at hname
    · obtain rfl := Option.some.inj hname
      exact htoken
    · contradiction
  · intro h
    exact ⟨_, h, rfl⟩

theorem mem_variableNames {f : Formula} {name : String} :
    name ∈ f.variableNames ↔ .variable name ∈ f.tokens := by
  rw [variableNames, Std.ExtTreeSet.mem_ofList, List.contains_iff_mem, mem_filterMap_nameOf?]

/-- **Evaluation sees only the variables** of a lookup. -/
theorem evaluate_congr {f : Formula} {lookup lookup' : String → Except EvalError Number.Binary64}
    (h : ∀ name ∈ f.variableNames, lookup name = lookup' name) :
    f.evaluate lookup = f.evaluate lookup' :=
  Stacks.run_congr (fun name hname => h name (mem_variableNames.mpr hname)) {}

/-- The variables of a formula that was read are canonical names of the policy. -/
theorem exists_canonical?_of_parse {policy : NamePolicy} {text : String} {f : Formula}
    (h : parse policy text = .ok f) {name : String} (hname : name ∈ f.variableNames) :
    ∃ raw, policy.canonical? raw = some name := by
  have htoken := mem_variableNames.mp hname
  unfold parse at h
  split at h
  · contradiction
  · rename_i tokens ht
    split at h
    · contradiction
    · obtain rfl := Except.ok.inj h
      exact exists_canonical?_of_tokensOf ht htoken

end Formula

end Worksheet
