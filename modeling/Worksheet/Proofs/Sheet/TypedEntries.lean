import Worksheet.Proofs.Formula.Rereading
import Worksheet.Proofs.Sheet.Edit
import Worksheet.Proofs.Sheet.Restoring

/-!
# Typed entries and input

A number, a formula and a text can be entered as what they are, or as input that stands for them,
and it makes no difference. A formula goes by its canonical text, in which the policy finds the same
words at the same indices as in the input, or refuses the same one. What input made of a cell can
itself be written as input; entering that again puts the cell back as it is.

* `enter_eq_enterInput`: an entry does what input does that stands for its contents.
* `Consistent.put_again`: putting in what a cell holds changes nothing.
* `typed_entries_agree_with_input`: both, for all three kinds of contents.
-/

namespace Worksheet.Sheet

variable {s t : Sheet} {entry : Entry} {name : String} {k : Contents} {order : List String}

/-- **An entry does what input does that stands for its contents.** -/
theorem enter_eq_enterInput {input : String} (hname : entry.name? = some name)
    (hk : s.contentsOf entry = s.interpret input) : s.enter entry = s.enterInput name input := by
  have hreq : s.requested entry = s.requested (.input name input) := requested_congr hname hk
  rw [enterInput, enter, enter, hreq]

/-- A formula that was read from a text is read again as that text is, or refused as it is. -/
theorem interpretFormula_text_of_parse {text : String} {f : Formula}
    (h : Formula.parse .plain text = .ok f) :
    s.interpretFormula f.text = s.interpretFormula text := by
  rw [interpretFormula, interpretFormula, Formula.parse_text_of_parse h]

/-! ## Entering again -/

/-- Contents that were read from input are read again from their own input. -/
theorem interpret_input (hpolicy : s.policy.Idempotent) {input : String}
    (h : s.interpret input = .ok k) : s.interpret k.input = .ok k := by
  have hk := admitted_of_interpret h
  cases k with
  | number x => exact interpret_number (hk.finite x rfl)
  | text t =>
    obtain rfl := eq_of_interpret_text h
    exact h
  | formula f => exact interpret_formula hpolicy hk

theorem put_eq_ok (h : s.put name k = ⟨t, .ok order⟩) :
    t.modified = true ∧ t.dependencies.updateOrder name = .ok order := by
  unfold put at h
  dsimp only at h
  split at h
  · cases h
  · split at h
    · cases h
    · rename_i horder
      cases h
      exact ⟨rfl, horder⟩

/-- **Putting in what a cell holds changes nothing** in a modified sheet. -/
theorem Consistent.put_again (ht : t.Consistent) (hmodified : t.modified = true)
    (hname : t.policy.Canonical name) (hk : k.Admitted t.policy)
    (hheld : (t.cells.store name k).contents = t.cells.contents)
    (horder : t.dependencies.updateOrder name = .ok order) : t.put name k = ⟨t, .ok order⟩ := by
  obtain ⟨d, hd, hcases⟩ := ht.put_cases hname hk
  obtain rfl : d = t.dependencies := by
    refine Dependencies.eq_of_edge_iff hd.wellFormed ht.wellFormed fun x y => ?_
    rw [hd.edge_iff_reads ht, hheld, ht.edge_iff]
  obtain ⟨c, hc, -⟩ | ⟨order', hupdate, hput⟩ := hcases
  · rw [horder] at hc
    contradiction
  · have hrefreshed := ht.refreshed hname hk hd hupdate
    obtain ⟨hcells, -⟩ := hrefreshed.eq_of_contents ht
      ((Cells.contents_refreshAll order').trans hheld)
    obtain ⟨-, horder'⟩ := put_eq_ok hput
    obtain rfl : order' = order := Except.ok.inj (horder'.symm.trans horder)
    have hcells : (t.cells.store name k).refreshAll order' = t.cells := hcells
    rw [hput, hcells, ← hmodified]

/-- What is found under a name, where nothing is stored for empty contents. -/
theorem contentsAt_eq_ok {raw : String} (hname : t.resolve raw = .ok name)
    (hk : t.cells.contents name = if k.isEmpty then none else some k) :
    t.contentsAt raw = .ok k := by
  have hfound : t.contentsAt raw = .ok ((t.cells.contents name).getD .empty) := by
    rw [contentsAt, hname]
    rfl
  rw [hfound, hk]
  split
  · rename_i hempty
    rw [Contents.isEmpty_iff.mp hempty]
    rfl
  · rfl

/-- **Entering what a cell holds changes nothing**, where input made it hold that. -/
theorem Consistent.enterInput_again (hs : s.Consistent) (hpolicy : s.policy.Idempotent)
    {input : String} (h : s.enterInput name input = ⟨t, .ok order⟩) :
    ∃ k, t.contentsAt name = .ok k ∧ t.enterInput name k.input = ⟨t, .ok order⟩ := by
  have henter : s.enter (.input name input) = ⟨t, .ok order⟩ := h
  obtain ⟨ht, n, k, hasks, hcontents⟩ := hs.enter_eq_ok henter
  have hsame : t.policy = s.policy := by
    have hfixed := (enter_fixed s (.input name input)).1
    rwa [henter] at hfixed
  have hput : s.put n k = ⟨t, .ok order⟩ := by
    rw [← enter_of_ok (requested_iff_asks.mpr hasks), henter]
  obtain ⟨hmodified, horder⟩ := put_eq_ok hput
  -- The policy has stayed, so `t` would take the same input in the same way.
  rw [← hsame] at hasks hpolicy
  have hfirst : t.requested (.input name input) = .ok (n, k) := requested_iff_asks.mpr hasks
  obtain ⟨⟨raw, hraw, hresolve⟩, hinterpret⟩ := requested_eq_ok_iff.mp hfirst
  obtain rfl := Option.some.inj hraw
  have hagain : t.requested (.input name k.input) = .ok (n, k) :=
    requested_eq_ok_iff.mpr ⟨⟨name, rfl, hresolve⟩, interpret_input hpolicy hinterpret⟩
  obtain ⟨hname, hk⟩ := requested_admitted hagain
  have hheld : (t.cells.store n k).contents = t.cells.contents := by
    rw [Cells.contents_store, hcontents, Function.update_idem]
  refine ⟨k, contentsAt_eq_ok hresolve (by rw [hcontents, Function.update_self]), ?_⟩
  rw [enterInput, enter_of_ok hagain]
  exact ht.put_again hmodified hname hk hheld horder

/-! ## All kinds of contents -/

/-- **Typed entries agree with input**: a finite number is entered as its text is, a formula as the
text that it was read from, with all refusals, and a text as input that stands for itself. And what
input makes of a cell of a reachable sheet can be entered again as input and changes nothing, if
spelling names anew does not change them. -/
theorem typed_entries_agree_with_input (s : Sheet) (name : String) :
    (∀ x : Number.Binary64, x.isFinite = true →
      s.enterNumber name x = s.enterInput name (toString x)) ∧
    (∀ text f, Formula.parse .plain text = .ok f →
      s.enterFormula name f = s.enterInput name ("=" ++ text)) ∧
    (∀ text : String, text.toList.head? ≠ some '=' →
      (∀ x, Number.Binary64.read? (Text.trim text.toList) = some x → x.isFinite = false) →
        s.enterText name text = s.enterInput name text) ∧
    (s.Reachable → s.policy.Idempotent → ∀ input t order,
      s.enterInput name input = ⟨t, .ok order⟩ →
        ∃ k, t.contentsAt name = .ok k ∧ t.enterInput name k.input = ⟨t, .ok order⟩) := by
  refine ⟨fun x hx => ?_, fun text f hf => ?_, fun text hformula hnumber => ?_,
    fun hs hpolicy input t order h => hs.consistent.enterInput_again hpolicy h⟩
  · refine enter_eq_enterInput rfl ?_
    rw [contentsOf, if_pos hx]
    exact (interpret_number hx).symm
  · refine enter_eq_enterInput rfl ?_
    rw [contentsOf, interpret_equals]
    exact interpretFormula_text_of_parse hf
  · refine enter_eq_enterInput rfl ?_
    rw [contentsOf, interpret_text hformula hnumber]

theorem capitalsSheet_entries_agree :
    capitalsSheet.enterNumber "x" (-.zero) = capitalsSheet.enterInput "x" "-0" ∧
      (∃ f, Formula.parse .plain " b*007" = .ok f ∧
        capitalsSheet.enterFormula "x" f = capitalsSheet.enterInput "x" "= b*007") ∧
      capitalsSheet.enterText "x" "-inf " = capitalsSheet.enterInput "x" "-inf " ∧
      ∃ t k, capitalsSheet.enterInput "x" "= b*007" = ⟨t, .ok ["X"]⟩ ∧
        t.contentsAt "x" = .ok k ∧ t.enterInput "x" k.input = ⟨t, .ok ["X"]⟩ := by
  obtain ⟨hnumber, hformula, htext, hagain⟩ := typed_entries_agree_with_input capitalsSheet "x"
  have hzero : toString (-Number.Binary64.zero) = "-0" := by decide +kernel
  have hparse : (Formula.parse .plain " b*007").isOk = true := by decide +kernel
  have hreachable : capitalsSheet.Reachable :=
    Reachable.performAll (Reachable.blank capitals.policy capitals.version) _
  have hpolicy : capitalsSheet.policy.Idempotent := by
    rw [capitalsSheet, (performAll_fixed _ _).1]
    exact capitals.policy_idempotent
  have hentered : (capitalsSheet.enterInput "x" "= b*007").result = .ok ["X"] := by decide +kernel
  refine ⟨hzero ▸ hnumber _ rfl, ?_, htext _ (by decide +kernel) ?_, ?_⟩
  · cases hf : Formula.parse .plain " b*007" with
    | error e =>
      rw [hf] at hparse
      exact absurd hparse Bool.false_ne_true
    | ok f => exact ⟨f, rfl, hformula _ f hf⟩
  · intro x hx
    have hread : Number.Binary64.read? (Text.trim "-inf ".toList) = some (.infinite true) := by
      decide +kernel
    rw [hread] at hx
    obtain rfl := Option.some.inj hx
    rfl
  · have henter : capitalsSheet.enterInput "x" "= b*007" =
        ⟨(capitalsSheet.enterInput "x" "= b*007").sheet, .ok ["X"]⟩ := by
      rw [← hentered]
    obtain ⟨k, hk, hinput⟩ := hagain hreachable hpolicy _ _ _ henter
    exact ⟨_, k, henter, hk, hinput⟩

end Worksheet.Sheet
