import Worksheet.Proofs.Sheet.Contents
import Worksheet.Proofs.Sheet.History

/-!
# Entering contents one after the other

Entries go into a sheet one by one, and each of them may close a cycle. Where they ask for what a
consistent sheet holds, none of them does: the formulas so far read no more than those of that
sheet. So the order of entries that name different cells decides neither whether they are accepted
nor what they make of an empty sheet.

* `Consistent.keeps_enterAll`: what was entered last under a name is kept.
* `Consistent.enterAll_eq`: entering what a sheet holds into an empty one gives its cells and
  dependencies, in whatever order it is entered.
* `enterAll_perm`: the order of entries that name different cells does not matter.
-/

namespace Worksheet.Sheet

open Relation (TransGen)

/-- Enters entries one after the other; there is no sheet if one of them is refused. -/
def enterAll (s : Sheet) : List Entry → Option Sheet
  | [] => some s
  | entry :: entries =>
    match s.enter entry with
    | ⟨t, .ok _⟩ => t.enterAll entries
    | ⟨_, .error _⟩ => none

/-- Under the policy the entry asks for these contents under this name. -/
def Asks (policy : NamePolicy) (entry : Entry) (name : String) (k : Contents) : Prop :=
  requested { policy } entry = .ok (name, k)

/-- Under the policy the entry asks for contents under this name. -/
def Names (policy : NamePolicy) (entry : Entry) (name : String) : Prop :=
  ∃ k, Asks policy entry name k

/-- No two of the entries name the same cell. -/
def Apart (policy : NamePolicy) (entries : List Entry) : Prop :=
  entries.Pairwise fun e e' => ∀ n, Names policy e n → ¬ Names policy e' n

/-- The last of the entries that names its cell. -/
def IsLast (policy : NamePolicy) (entries : List Entry) (entry : Entry) : Prop :=
  ∃ before after, entries = before ++ entry :: after ∧
    ∀ later ∈ after, ∀ n, Names policy entry n → ¬ Names policy later n

/-- The sheet holds what the entry asks for; nothing, where that is empty. -/
def Keeps (s : Sheet) (policy : NamePolicy) (entry : Entry) : Prop :=
  ∃ name k, Asks policy entry name k ∧
    s.cells.contents name = if k.isEmpty then none else some k

/-- The sheet holds these contents, and maybe others. -/
def Holds (s : Sheet) (held : String → Option Contents) : Prop :=
  ∀ n k, held n = some k → s.cells.contents n = some k

variable {s t u v w : Sheet} {entry : Entry} {entries entries' : List Entry} {name : String}
  {k : Contents} {order : List String}

/-- What an entry asks for depends on the policy alone. -/
theorem requested_iff_asks : s.requested entry = .ok (name, k) ↔ Asks s.policy entry name k := by
  cases entry <;> rfl

theorem Names.eq_of_asks {policy : NamePolicy} {n : String} (h : Names policy entry n)
    (hasks : Asks policy entry name k) : n = name := by
  obtain ⟨k', hk'⟩ := h
  exact congrArg Prod.fst (Except.ok.inj (hk'.symm.trans hasks))

theorem Holds.update {held : String → Option Contents} (h : s.Holds held) (name : String) :
    s.Holds (Function.update held name (s.cells.contents name)) := by
  intro n k hk
  by_cases hn : n = name
  · subst hn
    rwa [Function.update_self] at hk
  · rw [Function.update_of_ne hn] at hk
    exact h n k hk

theorem mem_contentsList : (name, k) ∈ s.contentsList ↔ s.cells.contents name = some k := by
  rw [contentsList, List.mem_map, Cells.contents, Option.map_eq_some_iff]
  constructor
  · rintro ⟨⟨n, cell⟩, hcell, heq⟩
    obtain ⟨rfl, rfl⟩ := Prod.mk.inj heq
    exact ⟨cell, Std.ExtTreeMap.mem_toList_iff_getElem?_eq_some.mp hcell, rfl⟩
  · rintro ⟨cell, hcell, rfl⟩
    exact ⟨(name, cell), Std.ExtTreeMap.mem_toList_iff_getElem?_eq_some.mpr hcell, rfl⟩

/-- An entry that asks for contents that are stored is kept. -/
theorem Consistent.keeps_of_asks (hs : s.Consistent) {policy : NamePolicy}
    (hk : s.cells.contents name = some k) (hasks : Asks policy entry name k) :
    s.Keeps policy entry := by
  refine ⟨name, k, hasks, ?_⟩
  rw [hk, hs.nonempty name k hk]
  rfl

/-! ## One entry -/

/-- What an accepted entry makes of a consistent sheet. -/
theorem Consistent.enter_eq_ok (hu : u.Consistent) (h : u.enter entry = ⟨v, .ok order⟩) :
    v.Consistent ∧ ∃ name k, Asks u.policy entry name k ∧ v.cells.contents =
      Function.update u.cells.contents name (if k.isEmpty then none else some k) := by
  cases hreq : u.requested entry with
  | error e =>
    rw [enter_of_error hreq] at h
    cases h
  | ok request =>
    obtain ⟨name, k⟩ := request
    obtain ⟨hname, hk⟩ := requested_admitted hreq
    rw [enter_of_ok hreq] at h
    obtain ⟨d, hd, ⟨c, -, hput⟩ | ⟨order, horder, hput⟩⟩ := hu.put_cases hname hk
    · rw [hput] at h
      cases h
    · rw [hput] at h
      cases h
      refine ⟨hu.refreshed hname hk hd horder, name, k, requested_iff_asks.mp hreq, ?_⟩
      exact (Cells.contents_refreshAll order).trans (Cells.contents_store name k)

/-- **An entry of what a consistent sheet holds is accepted** where nothing else was entered. -/
theorem Consistent.enter_kept (hs : s.Consistent) (hu : u.Consistent)
    (hholds : s.Holds u.cells.contents) (hentry : s.Keeps u.policy entry) :
    ∃ v order, u.enter entry = ⟨v, .ok order⟩ ∧ v.Consistent ∧ ∃ name, Names u.policy entry name ∧
      v.cells.contents = Function.update u.cells.contents name (s.cells.contents name) := by
  obtain ⟨name, k, hasks, hkept⟩ := hentry
  have hreq := requested_iff_asks.mpr hasks
  obtain ⟨hname, hk⟩ := requested_admitted hreq
  have hstored : (u.cells.store name k).contents =
      Function.update u.cells.contents name (s.cells.contents name) := by
    rw [Cells.contents_store, hkept]
  rw [enter_of_ok hreq]
  obtain ⟨d, hd, ⟨c, hc, -⟩ | ⟨order, horder, hput⟩⟩ := hu.put_cases hname hk
  · -- A cycle would be one of `s`, whose formulas read at least as much.
    exfalso
    obtain ⟨x, -, hxx⟩ := (Dependencies.updateOrder_eq_error_iff hd.wellFormed).mp ⟨c, hc⟩
    have hedge : ∀ a b, d.Edge a b → s.dependencies.Edge a b := by
      intro a b hab
      obtain ⟨f, hf, ha⟩ := (hd.edge_iff_reads hu a b).mp hab
      rw [hstored] at hf
      exact (hs.edge_iff a b).mpr ⟨f, hholds.update name b _ hf, ha⟩
    exact hs.acyclic x (TransGen.mono hedge x x hxx)
  · exact ⟨_, order, hput, hu.refreshed hname hk hd horder, name, ⟨k, hasks⟩,
      (Cells.contents_refreshAll order).trans hstored⟩

/-! ## All entries -/

theorem enterAll_cons_eq_some :
    u.enterAll (entry :: entries) = some w ↔
      ∃ v order, u.enter entry = ⟨v, .ok order⟩ ∧ v.enterAll entries = some w := by
  rw [enterAll]
  constructor
  · intro h
    split at h
    · rename_i v order henter
      exact ⟨v, order, henter, h⟩
    · contradiction
  · rintro ⟨v, order, henter, h⟩
    rw [henter]
    exact h

theorem policy_of_enter (h : u.enter entry = ⟨v, .ok order⟩) : v.policy = u.policy := by
  have hfixed := (enter_fixed u entry).1
  rwa [h] at hfixed

/-- Entering does not touch the policy and the version. -/
theorem enterAll_fixed (h : u.enterAll entries = some v) :
    v.policy = u.policy ∧ v.version = u.version := by
  induction entries generalizing u with
  | nil =>
    obtain rfl := Option.some.inj h
    exact ⟨rfl, rfl⟩
  | cons entry entries ih =>
    obtain ⟨w, order, henter, hrest⟩ := enterAll_cons_eq_some.mp h
    obtain ⟨hpolicy, hversion⟩ := enter_fixed u entry
    rw [henter] at hpolicy hversion
    obtain ⟨hpolicies, hversions⟩ := ih hrest
    exact ⟨hpolicies.trans hpolicy, hversions.trans hversion⟩

theorem consistent_enterAll (hu : u.Consistent) (h : u.enterAll entries = some v) :
    v.Consistent := by
  induction entries generalizing u with
  | nil =>
    obtain rfl := Option.some.inj h
    exact hu
  | cons entry entries ih =>
    obtain ⟨w, order, henter, hrest⟩ := enterAll_cons_eq_some.mp h
    exact ih (hu.enter_eq_ok henter).1 hrest

theorem enterAll_append :
    u.enterAll (entries ++ entries') = some w ↔
      ∃ v, u.enterAll entries = some v ∧ v.enterAll entries' = some w := by
  induction entries generalizing u with
  | nil => simp [enterAll]
  | cons entry entries ih =>
    rw [List.cons_append, enterAll_cons_eq_some]
    simp only [enterAll_cons_eq_some, ih]
    constructor
    · rintro ⟨x, order, henter, v, hv, hw⟩
      exact ⟨v, ⟨x, order, henter, hv⟩, hw⟩
    · rintro ⟨v, ⟨x, order, henter, hv⟩, hw⟩
      exact ⟨x, order, henter, v, hv, hw⟩

/-- What no entry names is not touched. -/
theorem Consistent.contents_enterAll (hu : u.Consistent) (h : u.enterAll entries = some v)
    {n : String} (hn : ∀ entry ∈ entries, ¬ Names u.policy entry n) :
    v.cells.contents n = u.cells.contents n := by
  induction entries generalizing u with
  | nil =>
    obtain rfl := Option.some.inj h
    rfl
  | cons entry entries ih =>
    obtain ⟨w, order, henter, hrest⟩ := enterAll_cons_eq_some.mp h
    obtain ⟨hw, name, k, hasks, hcontents⟩ := hu.enter_eq_ok henter
    obtain ⟨hnot, hothers⟩ := List.forall_mem_cons.mp hn
    have hne : n ≠ name := by
      rintro rfl
      exact hnot ⟨k, hasks⟩
    rw [ih hw hrest (policy_of_enter henter ▸ hothers), hcontents, Function.update_of_ne hne]

/-- **What was entered last is kept.** -/
theorem Consistent.keeps_enterAll (hu : u.Consistent) (h : u.enterAll entries = some v)
    (hlast : IsLast u.policy entries entry) : v.Keeps u.policy entry := by
  obtain ⟨before, after, rfl, hafter⟩ := hlast
  obtain ⟨w, hbefore, hrest⟩ := enterAll_append.mp h
  obtain ⟨x, order, henter, hv⟩ := enterAll_cons_eq_some.mp hrest
  have hpolicy := (enterAll_fixed hbefore).1
  obtain ⟨hx, name, k, hasks, hcontents⟩ := (consistent_enterAll hu hbefore).enter_eq_ok henter
  rw [hpolicy] at hasks
  refine ⟨name, k, hasks, ?_⟩
  rw [hx.contents_enterAll hv, hcontents, Function.update_self]
  intro later hlater
  rw [policy_of_enter henter, hpolicy]
  exact hafter later hlater name ⟨k, hasks⟩

theorem Apart.isLast {policy : NamePolicy} (h : Apart policy entries) (hentry : entry ∈ entries) :
    IsLast policy entries entry := by
  obtain ⟨before, after, rfl⟩ := List.append_of_mem hentry
  have hafter := (List.pairwise_cons.mp (List.pairwise_append.mp h).2.1).1
  exact ⟨before, after, rfl, hafter⟩

/-- **Entries of what a consistent sheet holds are accepted**, in whatever order they come. -/
theorem Consistent.enterAll_kept (hs : s.Consistent) (hu : u.Consistent)
    (hholds : s.Holds u.cells.contents) (hentries : ∀ entry ∈ entries, s.Keeps u.policy entry) :
    ∃ v, u.enterAll entries = some v ∧ v.Consistent ∧
      ∀ n, v.cells.contents n = s.cells.contents n ∨
        v.cells.contents n = u.cells.contents n ∧ ∀ entry ∈ entries, ¬ Names u.policy entry n := by
  induction entries generalizing u with
  | nil => exact ⟨u, rfl, hu, fun n => Or.inr ⟨rfl, List.forall_mem_nil _⟩⟩
  | cons entry entries ih =>
    obtain ⟨hentry, hentries⟩ := List.forall_mem_cons.mp hentries
    obtain ⟨w, order, henter, hw, name, ⟨k, hasks⟩, hcontents⟩ := hs.enter_kept hu hholds hentry
    have hpolicy := policy_of_enter henter
    have hwholds : s.Holds w.cells.contents := hcontents ▸ hholds.update name
    obtain ⟨v, hrest, hv, hfinal⟩ := ih hw hwholds (hpolicy ▸ hentries)
    refine ⟨v, enterAll_cons_eq_some.mpr ⟨w, order, henter, hrest⟩, hv, fun n => ?_⟩
    rcases hfinal n with hkept | ⟨hother, hnot⟩
    · exact Or.inl hkept
    by_cases hn : n = name
    · subst hn
      rw [hother, hcontents, Function.update_self]
      exact Or.inl rfl
    · rw [hother, hcontents, Function.update_of_ne hn]
      rw [hpolicy] at hnot
      exact Or.inr ⟨rfl, List.forall_mem_cons.mpr ⟨fun h => hn (h.eq_of_asks hasks), hnot⟩⟩

/-! ## Into an empty sheet -/

/-- No cell is stored, and no name is read. -/
def Blank (s : Sheet) : Prop := s.cells = ∅ ∧ s.dependencies = .empty

theorem Blank.consistent (h : s.Blank) : s.Consistent := consistent_of_empty h.1 h.2

theorem Blank.contents (h : s.Blank) (n : String) : s.cells.contents n = none := by
  rw [h.1, Cells.contents, Std.ExtTreeMap.getElem?_empty, Option.map_none]

/-- **Entering what a sheet holds into an empty one** gives its cells and dependencies. -/
theorem Consistent.enterAll_eq (hs : s.Consistent) (hu : u.Blank)
    (hentries : ∀ entry ∈ entries, s.Keeps u.policy entry)
    (hnames : ∀ n k, s.cells.contents n = some k → ∃ entry ∈ entries, Names u.policy entry n) :
    ∃ v, u.enterAll entries = some v ∧ v.cells = s.cells ∧ v.dependencies = s.dependencies := by
  have hholds : s.Holds u.cells.contents := fun n k hk => by
    rw [hu.contents n] at hk
    contradiction
  obtain ⟨v, henter, hv, hfinal⟩ := hs.enterAll_kept hu.consistent hholds hentries
  refine ⟨v, henter, hv.eq_of_contents hs (funext fun n => ?_)⟩
  rcases hfinal n with hkept | ⟨hother, hnot⟩
  · exact hkept
  · rw [hother, hu.contents n]
    cases hk : s.cells.contents n with
    | none => rfl
    | some k =>
      obtain ⟨entry, hentry, hname⟩ := hnames n k hk
      exact absurd hname (hnot entry hentry)

/-- **The order of entries does not matter**, if no two of them name the same cell. -/
theorem enterAll_perm (hu : u.Blank) (ht : t.Blank) (hpolicy : t.policy = u.policy)
    (hperm : entries.Perm entries') (hapart : Apart u.policy entries)
    (h : u.enterAll entries = some v) :
    ∃ w, t.enterAll entries' = some w ∧ w.cells = v.cells ∧ w.dependencies = v.dependencies := by
  refine (consistent_enterAll hu.consistent h).enterAll_eq ht (fun entry hentry => ?_)
    fun n k hk => ?_
  · rw [hpolicy]
    exact hu.consistent.keeps_enterAll h (hapart.isLast (hperm.mem_iff.mpr hentry))
  · by_contra hnone
    have hnot : ∀ entry ∈ entries, ¬ Names u.policy entry n := fun entry hentry hname =>
      hnone ⟨entry, hperm.mem_iff.mp hentry, hpolicy ▸ hname⟩
    rw [hu.consistent.contents_enterAll h hnot, hu.contents n] at hk
    contradiction

end Worksheet.Sheet
