import Worksheet.Proofs.SaveFile.RoundTrip
import Worksheet.Proofs.Sheet.Agreement
import Worksheet.Proofs.Sheet.Replaying

/-!
# Restoring what was saved

The lines of a saved sheet are entered one by one, formulas often before the cells that they read.
Each of them asks for what the sheet holds, so none is refused, and in the end the contents are
those that were saved, and with them the cells and dependencies.

* `asks_ofSaved`: a saved line asks for the contents that it was written for.
* `Consistent.restoreText_toText`: a consistent sheet is restored from its saved form.
* `saved_sheet_is_restored`: so is every sheet that calls make under some settings.
-/

namespace Worksheet

namespace SaveFile

/-- An entry for each written cell, with its name and its payload. -/
theorem mem_map_writtenEntries {cells : List (String × Contents)} {name : String}
    {p : Payload} :
    (name, p) ∈ (writtenEntries cells).map (fun entry => (entry.name, entry.payload)) ↔
      ∃ k, (name, k) ∈ cells ∧ k.isEmpty = false ∧ p = payload k := by
  have hmap : (writtenEntries cells).map (fun entry => (entry.name, entry.payload)) =
      (writtenCells cells).map fun cell => (cell.1, payload cell.2) := by
    have hcells := List.zipIdx_map_fst 3 (writtenCells cells)
    rw [writtenEntries, List.map_map, ← hcells, List.map_map, hcells]
    rfl
  rw [hmap, List.mem_map]
  constructor
  · rintro ⟨⟨n, k⟩, hcell, heq⟩
    obtain ⟨rfl, rfl⟩ := Prod.mk.inj heq
    obtain ⟨hmem, hk⟩ := mem_writtenCells.mp hcell
    exact ⟨k, hmem, hk, rfl⟩
  · rintro ⟨k, hmem, hk, rfl⟩
    exact ⟨(name, k), mem_writtenCells.mpr ⟨hmem, hk⟩, rfl⟩

end SaveFile

namespace Sheet

variable {s t : Sheet} {name : String} {k : Contents}

/-! ## One entry -/

theorem interpret_number {x : Number.Binary64} (hx : x.isFinite = true) :
    s.interpret (String.ofList x.text) = .ok (.number x) := by
  have hsolid : SaveFile.Solid x.text := by
    rw [← SaveFile.valueText_number]
    exact SaveFile.solid_valueText fun y hy => Contents.number.inj hy ▸ hx
  have hequals : '=' ∉ x.text := mt ((Number.Binary64.text_characters hx).2 '=') (by decide)
  unfold interpret
  rw [String.toList_ofList]
  split
  · rename_i rest htext
    rw [htext] at hequals
    exact absurd List.mem_cons_self hequals
  · rw [Text.trim_eq_self hsolid.first hsolid.last, Number.Binary64.read?_text hx]
    simp only [hx, if_true]

theorem interpret_formula {f : Formula} (hpolicy : s.policy.Idempotent)
    (hf : (Contents.formula f).Admitted s.policy) :
    s.interpret ("=" ++ f.text) = .ok (.formula f) := by
  have hparse : Formula.parse s.policy f.text = .ok f := Formula.parse_text fun name hname =>
    (hf.canonical name (Formula.mem_variableNames.mpr hname)).canonical?_eq hpolicy
  rw [interpret_equals, interpretFormula]
  simp only [hparse]

/-- **A saved line asks for the contents** that it was written for. -/
theorem asks_ofSaved {policy : NamePolicy} (hpolicy : policy.Idempotent)
    (hname : policy.Canonical name) (hk : k.Admitted policy) (line : Nat) :
    Asks policy (.ofSaved ⟨line, name, SaveFile.payload k⟩) name k := by
  have hresolve : resolve { policy } name = .ok name := resolve_of_canonical hpolicy hname
  refine requested_eq_ok_iff.mpr ⟨⟨name, name?_ofSaved _, hresolve⟩, ?_⟩
  cases k with
  | text text => rfl
  | number x => exact interpret_number (hk.finite x rfl)
  | formula f => exact interpret_formula hpolicy hk

/-! ## All entries -/

/-- The entries that are written for a sheet ask for what it holds. -/
theorem Consistent.keeps_writtenEntries (hs : s.Consistent) (hpolicy : s.policy.Idempotent)
    {entry : Entry} (hentry : entry ∈ (SaveFile.writtenEntries s.contentsList).map .ofSaved) :
    s.Keeps s.policy entry := by
  obtain ⟨saved, hsaved, rfl⟩ := List.mem_map.mp hentry
  have hpair := List.mem_map_of_mem (f := fun e : SaveFile.Entry => (e.name, e.payload)) hsaved
  obtain ⟨k, hmem, -, hpayload⟩ := SaveFile.mem_map_writtenEntries.mp hpair
  have hk := mem_contentsList.mp hmem
  obtain ⟨line, name, payload⟩ := saved
  obtain rfl : payload = SaveFile.payload k := hpayload
  exact hs.keeps_of_asks hk
    (asks_ofSaved hpolicy (hs.canonical name k hk) (hs.admitted name k hk) line)

/-- Every stored cell has an entry. -/
theorem Consistent.names_writtenEntries (hs : s.Consistent) (hpolicy : s.policy.Idempotent)
    (hk : s.cells.contents name = some k) :
    ∃ entry ∈ (SaveFile.writtenEntries s.contentsList).map Entry.ofSaved,
      Names s.policy entry name := by
  have hpair := SaveFile.mem_map_writtenEntries.mpr
    ⟨k, mem_contentsList.mpr hk, hs.nonempty name k hk, rfl⟩
  obtain ⟨⟨line, n, payload⟩, hsaved, heq⟩ := List.mem_map.mp hpair
  obtain ⟨rfl, rfl⟩ := Prod.mk.inj heq
  exact ⟨_, List.mem_map_of_mem hsaved, k,
    asks_ofSaved hpolicy (hs.canonical _ k hk) (hs.admitted _ k hk) line⟩

/-- What a consistent sheet holds can be written. -/
theorem Consistent.writable (hs : s.Consistent) : ∀ cell ∈ s.contentsList,
    Name.isIdentifier cell.1 = true ∧ SaveFile.Writable cell.2 := by
  rintro ⟨name, k⟩ hcell
  have hk := mem_contentsList.mp hcell
  obtain ⟨raw, hraw⟩ := hs.canonical name k hk
  exact ⟨NamePolicy.isIdentifier_of_canonical? hraw, (hs.admitted name k hk).finite⟩

/-- **A consistent sheet is restored** from its saved form, as not modified, by any sheet of its
settings. -/
theorem Consistent.restoreText_toText (hs : s.Consistent) (hpolicy : s.policy.Idempotent)
    (htag : SaveFile.FitsLine s.version.toList) (hsame : t.policy = s.policy)
    (hversion : t.version = s.version) :
    t.restoreText s.toText = ⟨{ s with modified := false }, .ok ()⟩ := by
  have hfresh : t.fresh.policy = s.policy := hsame
  obtain ⟨u, henter, hcells, hdependencies⟩ := hs.enterAll_eq t.blank_fresh
    (fun entry hentry => hfresh ▸ hs.keeps_writtenEntries hpolicy hentry)
    (fun n k hk => hfresh ▸ hs.names_writtenEntries hpolicy hk)
  obtain ⟨hupolicy, huversion⟩ := enterAll_fixed henter
  refine restoreText_eq_ok_iff.mpr
    ⟨_, u, SaveFile.read_write htag hs.writable, hversion.symm, henter, ?_⟩
  exact unmodified_eq (hupolicy.trans hsame).symm (huversion.trans hversion).symm hcells.symm
    hdependencies.symm

/-! ## Histories under settings -/

/-- Calls make the sheet of an empty one with these settings. -/
def MadeWith (settings : Settings) (s : Sheet) : Prop :=
  ∃ calls, (ofSettings settings).performAll calls = s

/-- **Saving and restoring loses nothing**: what a sheet was saved as replaces the cells of any
sheet of the same settings by the same cells, contents and values, with the same dependencies. -/
theorem saved_sheet_is_restored {settings : Settings}
    (hversion : SaveFile.FitsLine settings.version.toList) (hs : MadeWith settings s)
    (hpolicy : t.policy = settings.policy) (htag : t.version = settings.version) :
    ∃ t', t.restoreText s.toText = ⟨t', .ok ()⟩ ∧ t'.cells = s.cells ∧
      t'.dependencies = s.dependencies ∧ t'.modified = false ∧ t'.toText = s.toText := by
  obtain ⟨calls, rfl⟩ := hs
  obtain ⟨hspolicy, hsversion⟩ := performAll_fixed (ofSettings settings) calls
  have hreachable : ((ofSettings settings).performAll calls).Reachable :=
    Reachable.performAll (Reachable.blank settings.policy settings.version) calls
  have hidempotent : ((ofSettings settings).performAll calls).policy.Idempotent :=
    hspolicy ▸ settings.policy_idempotent
  have hfits : SaveFile.FitsLine ((ofSettings settings).performAll calls).version.toList :=
    hsversion ▸ hversion
  exact ⟨_, hreachable.consistent.restoreText_toText hidempotent hfits
    (hpolicy.trans hspolicy.symm) (htag.trans hsversion.symm), rfl, rfl, rfl, rfl⟩

/-- Settings that write names in capitals. -/
def capitals : Settings := { letterCase := .upper, version := "v 1" }

/-- A formula that was entered before the cells that it reads, and a text with quotes, blanks and
a newline. -/
def capitalsSheet : Sheet :=
  (ofSettings capitals).performAll
    [.enter (.input "sum" "= a1 + b"), .enter (.text "b" " \"=1\\\r\n "),
      .enter (.input "a1" "2")]

theorem capitalsSheet_is_restored : capitalsSheet.size = 3 ∧
    ∃ t', (ofSettings capitals).restoreText capitalsSheet.toText = ⟨t', .ok ()⟩ ∧
      t'.cells = capitalsSheet.cells ∧ t'.dependencies = capitalsSheet.dependencies ∧
      t'.modified = false ∧ t'.toText = capitalsSheet.toText :=
  ⟨by decide +kernel,
    saved_sheet_is_restored ⟨by decide, by decide, by decide⟩ ⟨_, rfl⟩ rfl rfl⟩

end Sheet

end Worksheet
