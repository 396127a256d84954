import Worksheet.Proofs.Formula.Evaluation
import Worksheet.Proofs.Sheet.Contents
import Worksheet.Proofs.Sheet.History

/-!
# Where errors come from

An error of a cell names the variable that it is the fault of, and repeats the wording of that
variable's own error. It was found when the cell was last refreshed, and it is still so, as every
value is current. Blame passes from a cell to one that it reads, so it comes to an end.

* `Consistent.explained`: what an error says of a variable is so.
* `Consistent.exists_root`: blame ends with an error that has no other cause.
* `errors_have_root_causes`: the two for every reachable sheet.
-/

namespace Worksheet

open Relation (ReflTransGen)

/-- The error is not passed on from another cell. -/
def EvalError.IsRoot : EvalError → Prop
  | .noValue _ => True
  | .notNumber _ => True
  | .zeroDivisor => True
  | .failed _ _ => False
  | .stuck _ => False

namespace Cells

/-- The value under a name is this error. -/
def Fails (cells : Cells) (name : String) (e : EvalError) : Prop :=
  cells[name]?.map Cell.value = some (.error e)

instance (cells : Cells) (name : String) (e : EvalError) : Decidable (cells.Fails name e) :=
  inferInstanceAs (Decidable (_ = _))

/-- What the error `e` of the cell `name` says is so. No error says that an evaluation is stuck. -/
inductive Explained (cells : Cells) (name : String) : EvalError → Prop
  | noValue {v : String} (hreads : Reads cells.contents name v) (hnone : cells[v]? = none) :
      Explained cells name (.noValue v)
  | notNumber {v t : String} (hreads : Reads cells.contents name v)
      (htext : cells.contents v = some (.text t)) : Explained cells name (.notNumber v)
  | failed {v : String} {e : EvalError} (hreads : Reads cells.contents name v)
      (he : cells.Fails v e) : Explained cells name (.failed v e.message)
  | zeroDivisor : Explained cells name .zeroDivisor

/-- The error of the cell `x` is passed on from `y`. -/
def Blames (cells : Cells) (x y : String) : Prop :=
  ∃ reason, cells.Fails x (.failed y reason)

variable {cells : Cells} {name : String} {e : EvalError}

/-- A lookup fails for a reason that is found under the name. -/
theorem numberAt_eq_error (h : cells.numberAt name = .error e) :
    (cells[name]? = none ∧ e = .noValue name) ∨
      (∃ cell t, cells[name]? = some cell ∧ cell.value = .text t ∧ e = .notNumber name) ∨
      ∃ e', cells.Fails name e' ∧ e = .failed name e'.message := by
  unfold numberAt at h
  split at h
  · contradiction
  · rename_i t ht
    obtain ⟨cell, hcell, hvalue⟩ := Option.map_eq_some_iff.mp ht
    exact Or.inr (Or.inl ⟨cell, t, hcell, hvalue, (Except.error.inj h).symm⟩)
  · rename_i e' he'
    exact Or.inr (Or.inr ⟨e', he', (Except.error.inj h).symm⟩)
  · rename_i hnone
    exact Or.inl ⟨Option.map_eq_none_iff.mp hnone, (Except.error.inj h).symm⟩

/-- Only a text comes to a text. -/
theorem eq_text_of_valueOf {k : Contents} {t : String} (h : cells.valueOf k = .text t) :
    k = .text t := by
  cases k with
  | number x => contradiction
  | text t' => exact congrArg Contents.text (Value.text.inj h)
  | formula f =>
    rw [valueOf] at h
    split at h <;> contradiction

/-- Only a formula comes to an error, by its evaluation. -/
theorem exists_formula_of_valueOf {k : Contents} (h : cells.valueOf k = .error e) :
    ∃ f, k = .formula f ∧ (f.evaluate cells.numberAt).result = .error e := by
  cases k with
  | number x => contradiction
  | text t => contradiction
  | formula f =>
    rw [valueOf] at h
    split at h
    · contradiction
    · rename_i he
      obtain rfl := Value.error.inj h
      exact ⟨f, rfl, he⟩

end Cells

namespace Sheet

open Cells (Explained Blames)

variable {s : Sheet} {name : String} {e : EvalError}

/-- **What an error says is so**, in the cells as they are now. -/
theorem Consistent.explained (hs : s.Consistent) (he : s.cells.Fails name e) :
    Explained s.cells name e := by
  obtain ⟨cell, hcell, hvalue⟩ := Option.map_eq_some_iff.mp he
  rw [hs.current name cell hcell] at hvalue
  obtain ⟨f, hf, hresult⟩ := Cells.exists_formula_of_valueOf hvalue
  have hcontents : s.cells.contents name = some (.formula f) := by
    rw [Cells.contents_eq_some hcell, hf]
  obtain rfl | ⟨v, hv, hlookup⟩ := Formula.evaluate_eq_error hresult
  · exact .zeroDivisor
  have hreads : Reads s.cells.contents name v := ⟨f, hcontents, hv⟩
  obtain ⟨hnone, rfl⟩ | ⟨source, t, hsource, htext, rfl⟩ | ⟨e', he', rfl⟩ :=
    Cells.numberAt_eq_error hlookup
  · exact .noValue hreads hnone
  · rw [hs.current v source hsource] at htext
    have hstored : s.cells.contents v = some (.text t) := by
      rw [Cells.contents_eq_some hsource, Cells.eq_text_of_valueOf htext]
    exact .notNumber hreads hstored
  · exact .failed hreads he'

/-- **Blame comes to an end**, as it passes along what is read. -/
theorem Consistent.exists_root (hs : s.Consistent) (he : s.cells.Fails name e) :
    ∃ root e', ReflTransGen (Blames s.cells) name root ∧ s.cells.Fails root e' ∧ e'.IsRoot := by
  have hwf := Dependencies.wellFounded_edge hs.acyclic
  induction name using hwf.induction generalizing e with
  | _ name ih =>
    have hhere : e.IsRoot → ∃ root e', ReflTransGen (Blames s.cells) name root ∧
        s.cells.Fails root e' ∧ e'.IsRoot := fun hroot => ⟨name, e, .refl, he, hroot⟩
    cases hs.explained he with
    | noValue _ _ => exact hhere trivial
    | notNumber _ _ => exact hhere trivial
    | zeroDivisor => exact hhere trivial
    | @failed v e' hreads hv =>
      obtain ⟨root, cause, hpath, hcause, hroot⟩ := ih v ((hs.edge_iff v name).mpr hreads) hv
      have hblames : Blames s.cells name v := ⟨e'.message, he⟩
      exact ⟨root, cause, ReflTransGen.head hblames hpath, hcause, hroot⟩

/-- **Errors have root causes**: what the error of a cell says is so, and the cells that errors are
passed on from lead to one whose error has its cause there: a variable without a value or with a
text, or a division by zero. -/
theorem errors_have_root_causes (h : s.Reachable) (he : s.cells.Fails name e) :
    Explained s.cells name e ∧
      ∃ root e', ReflTransGen (Blames s.cells) name root ∧ s.cells.Fails root e' ∧ e'.IsRoot :=
  ⟨h.consistent.explained he, h.consistent.exists_root he⟩

/-- A sheet where an error is passed on, from a cell that is filled last. -/
def failing : Sheet :=
  performAll {} [.enter (.input "c" "=b*2"), .enter (.input "b" "=a+1"), .enter (.input "a" "=1/0")]

theorem failing_has_root_cause :
    failing.Reachable ∧
      failing.cells.Fails "c" (.failed "b" "variable a has an error: division by zero") ∧
      ∃ root e', ReflTransGen (Blames failing.cells) "c" root ∧ failing.cells.Fails root e' ∧
        e'.IsRoot := by
  have hreachable : failing.Reachable := Reachable.performAll (Reachable.blank .plain "default") _
  have hfails : failing.cells.Fails "c"
      (.failed "b" "variable a has an error: division by zero") := by decide +kernel
  exact ⟨hreachable, hfails, (errors_have_root_causes hreachable hfails).2⟩

end Sheet

end Worksheet
