import Worksheet.Proofs.CommandLine.Listing
import Worksheet.Proofs.File.Tree

/-!
# What a session comes to

Until it saves, a session only looks at files. It comes to a sheet (`ComesTo`) if it finds its
settings, opens its file under them, and none of its edits is refused; otherwise it fails. A session
that comes to a sheet lists it, and it can fail only by not writing its target. All this is so
whatever reads the settings files.

* `finds_editedSheet`: a session has the sheet that it comes to, and has left the files alone.
* `run_of_not_comesTo`, `ComesTo.run_of_none`, `ComesTo.run_of_some`: what it does after that.
* `runOptions_cases`, `ComesTo.write_failed`: how a session can end, and why it fails.
-/

namespace Worksheet.CommandLine

open FileTree (OnTree run_bind_of_run)

variable {reader : SettingsReader} {tree after : FileTree} {fs : FileSystem (StateM FileTree)}
  {userConfig : Option String} {o : Options} {settings : Settings} {s t : Sheet} {path : String}

/-! ## Sheets that sessions come to -/

/-- The file at the path holds these settings. -/
def HasSettings (reader : SettingsReader) (tree : FileTree) (path : String)
    (settings : Settings) : Prop :=
  ∃ text, tree.readText path = .ok text ∧ reader text = .ok settings

/-- The settings of a session: of the file that is named, or else of the user's file, if there is
one and it is not to be ignored, or else the settings without any file. -/
inductive Configured (reader : SettingsReader) (tree : FileTree) (userConfig : Option String)
    (o : Options) : Settings → Prop
  | named {path : String} {settings : Settings} (hconfig : o.config = some path)
      (h : HasSettings reader tree path settings) : Configured reader tree userConfig o settings
  | user {path : String} {settings : Settings} (hconfig : o.config = none)
      (huse : o.noConfig = false) (huser : userConfig = some path)
      (hpath : tree.hasPath path = true) (h : HasSettings reader tree path settings) :
      Configured reader tree userConfig o settings
  | default (hconfig : o.config = none)
      (hignored : ∀ path, userConfig = some path → o.noConfig = true ∨ tree.hasPath path = false) :
      Configured reader tree userConfig o {}

/-- The sheet that a session starts from: a new one, or the one that the file restores if there is
such a file. -/
inductive Opens (tree : FileTree) (settings : Settings) : Option String → Sheet → Prop
  | new : Opens tree settings none (.ofSettings settings)
  | missing {path : String} (hpath : tree.hasPath path = false) :
      Opens tree settings (some path) (.ofSettings settings)
  | saved {path text : String} {s : Sheet} (hpath : tree.hasPath path = true)
      (hread : tree.readText path = .ok text)
      (h : (Sheet.ofSettings settings).restoreText text = ⟨s, .ok ()⟩) :
      Opens tree settings (some path) s

/-- The entry that an edit asks for. -/
def CellEdit.entry (edit : CellEdit) : Sheet.Entry := .optional (some edit.name) edit.content

/-- A session comes to a sheet: it has settings, opens a sheet under them, and enters all edits. -/
structure ComesTo (reader : SettingsReader) (tree : FileTree) (userConfig : Option String)
    (o : Options) (settings : Settings) (s : Sheet) : Prop where
  configured : Configured reader tree userConfig o settings
  edited : ∃ opened, Opens tree settings o.file opened ∧
    opened.enterAll (o.edits.map CellEdit.entry) = some s

theorem Opens.consistent {file : Option String} (h : Opens tree settings file s) :
    s.Consistent ∧ s.policy = settings.policy ∧ s.version = settings.version := by
  have hnew : (Sheet.ofSettings settings).Consistent := Sheet.consistent_of_empty rfl rfl
  cases h with
  | new => exact ⟨hnew, rfl, rfl⟩
  | missing => exact ⟨hnew, rfl, rfl⟩
  | @saved path text s hpath hread hrestore =>
    obtain ⟨hpolicy, hversion⟩ := Sheet.perform_fixed (.ofSettings settings) (.restoreText text)
    rw [Sheet.perform, hrestore] at hpolicy hversion
    refine ⟨?_, hpolicy, hversion⟩
    obtain ⟨t, ht, hok⟩ | ⟨e, herror⟩ := Sheet.restoreText_cases (.ofSettings settings) text
    · rw [hrestore] at hok
      cases hok
      exact ht
    · rw [hrestore] at herror
      cases herror

/-- **A session comes to a consistent sheet** of its settings. -/
theorem ComesTo.consistent (h : ComesTo reader tree userConfig o settings s) :
    s.Consistent ∧ s.policy = settings.policy ∧ s.version = settings.version := by
  obtain ⟨opened, hopened, hedited⟩ := h.edited
  obtain ⟨hconsistent, hpolicy, hversion⟩ := hopened.consistent
  obtain ⟨hspolicy, hsversion⟩ := Sheet.enterAll_fixed hedited
  exact ⟨Sheet.consistent_enterAll hconsistent hedited, hspolicy.trans hpolicy,
    hsversion.trans hversion⟩

theorem ComesTo.listing_eq (h : ComesTo reader tree userConfig o settings s) :
    listing s s.names = (records s, .ok ()) := by
  obtain ⟨hconsistent, hpolicy, -⟩ := h.consistent
  exact listing_names hconsistent (hpolicy ▸ settings.policy_idempotent)

/-! ## Looking at files -/

/-- The action leaves the files alone and gives what satisfies the predicate, or else it fails. -/
def Finds {α : Type} (tree : FileTree) (action : StateM FileTree (Except Failure α))
    (P : α → Prop) : Prop :=
  ∃ result, action.run tree = (result, tree) ∧ ∀ a, result = .ok a ↔ P a

theorem finds_pure {α : Type} {result : Except Failure α} {P : α → Prop}
    (h : ∀ a, result = .ok a ↔ P a) : Finds tree (pure result) P :=
  ⟨result, rfl, h⟩

theorem Finds.congr {α : Type} {action : StateM FileTree (Except Failure α)} {P Q : α → Prop}
    (h : Finds tree action P) (hPQ : ∀ a, P a ↔ Q a) : Finds tree action Q := by
  obtain ⟨result, hrun, hresult⟩ := h
  exact ⟨result, hrun, fun a => (hresult a).trans (hPQ a)⟩

/-- What is done with what was found goes on from the same files, and a failure is handed on. -/
theorem Finds.bind {α β : Type} {first : StateM FileTree (Except Failure α)}
    {next : Except Failure α → StateM FileTree (Except Failure β)} {P : α → Prop}
    {Q : α → β → Prop} (hfirst : Finds tree first P)
    (hfail : ∀ f, next (.error f) = pure (.error f))
    (hnext : ∀ a, P a → Finds tree (next (.ok a)) (Q a)) :
    Finds tree (first >>= next) fun b => ∃ a, P a ∧ Q a b := by
  obtain ⟨result, hrun, hresult⟩ := hfirst
  cases result with
  | error f =>
    refine ⟨.error f, (run_bind_of_run hrun).trans (by rw [hfail]; rfl), fun b => ?_⟩
    refine iff_of_false (fun h => by contradiction) ?_
    rintro ⟨a, ha, -⟩
    have := (hresult a).mpr ha
    contradiction
  | ok a =>
    have ha := (hresult a).mp rfl
    obtain ⟨result', hrun', hresult'⟩ := hnext a ha
    refine ⟨result', (run_bind_of_run hrun).trans hrun', fun b => ?_⟩
    rw [hresult']
    refine ⟨fun hb => ⟨a, ha, hb⟩, ?_⟩
    rintro ⟨a', ha', hb⟩
    obtain rfl := Except.ok.inj ((hresult a').mpr ha')
    exact hb

theorem finds_readSettings (hfs : OnTree fs) (path : String) :
    Finds tree (readSettings reader fs path) (HasSettings reader tree path) := by
  unfold Finds HasSettings
  rw [readSettings, run_bind_of_run (hfs.readText tree path)]
  cases tree.readText path with
  | error e => exact ⟨_, rfl, fun settings => by simp⟩
  | ok text =>
    dsimp only
    cases hread : reader text with
    | error e => exact ⟨_, rfl, fun settings => by simp [hread]⟩
    | ok found => exact ⟨_, rfl, fun settings => by simp [hread]⟩

theorem configured_named_iff (hconfig : o.config = some path) :
    Configured reader tree userConfig o settings ↔ HasSettings reader tree path settings := by
  refine ⟨fun h => ?_, .named hconfig⟩
  obtain ⟨hnamed, h⟩ | ⟨hnone, -⟩ | ⟨hnone, -⟩ := h
  · obtain rfl := Option.some.inj (hconfig.symm.trans hnamed)
    exact h
  · exact absurd (hconfig.symm.trans hnone) (Option.some_ne_none path)
  · exact absurd (hconfig.symm.trans hnone) (Option.some_ne_none path)

theorem configured_user_iff (hconfig : o.config = none) (huse : o.noConfig = false)
    (hpath : tree.hasPath path = true) :
    Configured reader tree (some path) o settings ↔ HasSettings reader tree path settings := by
  refine ⟨fun h => ?_, .user hconfig huse rfl hpath⟩
  obtain ⟨hnamed, -⟩ | ⟨-, -, huser, -, h⟩ | ⟨-, hignored⟩ := h
  · exact absurd (hnamed.symm.trans hconfig) (Option.some_ne_none _)
  · obtain rfl := Option.some.inj huser
    exact h
  · obtain hignore | hmissing := hignored path rfl
    · exact absurd (huse.symm.trans hignore) Bool.false_ne_true
    · exact absurd (hmissing.symm.trans hpath) Bool.false_ne_true

theorem configured_default_iff (hconfig : o.config = none)
    (hignored : ∀ path, userConfig = some path → o.noConfig = true ∨ tree.hasPath path = false) :
    Configured reader tree userConfig o settings ↔ {} = settings := by
  refine ⟨fun h => ?_, fun h => h ▸ .default hconfig hignored⟩
  obtain ⟨hnamed, -⟩ | @⟨path, -, -, huse, huser, hpath, -⟩ | - := h
  · exact absurd (hnamed.symm.trans hconfig) (Option.some_ne_none _)
  · obtain hignore | hmissing := hignored path huser
    · exact absurd (huse.symm.trans hignore) Bool.false_ne_true
    · exact absurd (hmissing.symm.trans hpath) Bool.false_ne_true
  · rfl

/-- A session finds the settings that it is configured by. -/
theorem finds_findSettings (hfs : OnTree fs) (userConfig : Option String) (o : Options) :
    Finds tree (findSettings reader fs userConfig o) (Configured reader tree userConfig o) := by
  unfold findSettings
  cases hconfig : o.config with
  | some path =>
    exact (finds_readSettings hfs path).congr fun settings => (configured_named_iff hconfig).symm
  | none =>
    cases huse : o.noConfig with
    | true =>
      refine finds_pure fun settings => ?_
      rw [Except.ok.injEq, configured_default_iff hconfig fun path huser => Or.inl huse]
    | false =>
      cases userConfig with
      | none =>
        refine finds_pure fun settings => ?_
        rw [Except.ok.injEq, configured_default_iff hconfig fun path huser => by contradiction]
      | some path =>
        dsimp only
        rw [if_neg Bool.false_ne_true, Finds, run_bind_of_run (hfs.hasPath tree path), ← Finds]
        cases hpath : tree.hasPath path with
        | true =>
          exact (finds_readSettings hfs path).congr fun settings =>
            (configured_user_iff hconfig huse hpath).symm
        | false =>
          refine finds_pure fun settings => ?_
          rw [Except.ok.injEq, configured_default_iff hconfig fun path' huser =>
            Or.inr (Option.some.inj huser ▸ hpath)]

theorem ofFile_run (hfs : OnTree fs) (settings : Settings) (path : String) :
    (Sheet.ofFile fs settings path).run tree =
      (match tree.readText path with
        | .ok text =>
          let outcome := (Sheet.ofSettings settings).restoreText text
          outcome.result.map fun () => outcome.sheet
        | .error e => .error (.file e), tree) := by
  rw [Sheet.ofFile, Sheet.restoreFile, bind_assoc, run_bind_of_run (hfs.readText tree path)]
  cases tree.readText path with
  | error e => rfl
  | ok text => rfl

theorem opens_none_iff : Opens tree settings none s ↔ Sheet.ofSettings settings = s := by
  refine ⟨fun h => ?_, fun h => h ▸ .new⟩
  cases h with
  | new => rfl

theorem opens_missing_iff (hpath : tree.hasPath path = false) :
    Opens tree settings (some path) s ↔ Sheet.ofSettings settings = s := by
  refine ⟨fun h => ?_, fun h => h ▸ .missing hpath⟩
  cases h with
  | missing => rfl
  | saved hfound => exact absurd (hpath.symm.trans hfound) Bool.false_ne_true

theorem opens_saved_iff (hpath : tree.hasPath path = true) :
    Opens tree settings (some path) s ↔ ∃ text, tree.readText path = .ok text ∧
      (Sheet.ofSettings settings).restoreText text = ⟨s, .ok ()⟩ := by
  refine ⟨fun h => ?_, fun ⟨text, hread, h⟩ => .saved hpath hread h⟩
  cases h with
  | missing hmissing => exact absurd (hmissing.symm.trans hpath) Bool.false_ne_true
  | saved _ hread h => exact ⟨_, hread, h⟩

/-- A session opens the sheet of its file. -/
theorem finds_openSheet (hfs : OnTree fs) (settings : Settings) (o : Options) :
    Finds tree (openSheet fs settings o) (Opens tree settings o.file) := by
  unfold openSheet
  cases o.file with
  | none => exact finds_pure fun s => by rw [Except.ok.injEq, opens_none_iff]
  | some path =>
    rw [Finds, run_bind_of_run (hfs.hasPath tree path), ← Finds]
    cases hpath : tree.hasPath path with
    | false => exact finds_pure fun s => by rw [Except.ok.injEq, opens_missing_iff hpath]
    | true =>
      rw [if_pos rfl, Finds, run_bind_of_run (ofFile_run hfs settings path), ← Finds]
      refine finds_pure fun s => ?_
      rw [opens_saved_iff hpath]
      cases tree.readText path with
      | error e => simp [Except.mapError]
      | ok text =>
        simp only [Except.ok.injEq, exists_eq_left']
        obtain ⟨t, e | ⟨⟩⟩ := (Sheet.ofSettings settings).restoreText text
        · simp [Except.map, Except.mapError]
        · simp [Except.map, Except.mapError]

theorem applyEdits_eq_ok_iff {edits : List CellEdit} :
    applyEdits s edits = .ok t ↔ s.enterAll (edits.map CellEdit.entry) = some t := by
  induction edits generalizing s with
  | nil => rw [applyEdits, List.map_nil, Sheet.enterAll, Except.ok.injEq, Option.some.injEq]
  | cons edit edits ih =>
    rw [applyEdits, List.map_cons, Sheet.enterAll, Sheet.enterOptional, ← CellEdit.entry]
    obtain ⟨u, e | order⟩ := s.enter edit.entry
    · simp
    · exact ih

/-- **A session has the sheet that it comes to**, and it has left the files alone. -/
theorem finds_editedSheet (hfs : OnTree fs) (tree : FileTree) (userConfig : Option String)
    (o : Options) :
    Finds tree (editedSheet reader fs userConfig o)
      fun s => ∃ settings, ComesTo reader tree userConfig o settings s := by
  have hedited : Finds tree (editedSheet reader fs userConfig o) fun s => ∃ settings,
      Configured reader tree userConfig o settings ∧ ∃ opened, Opens tree settings o.file opened ∧
        opened.enterAll (o.edits.map CellEdit.entry) = some s := by
    unfold editedSheet
    refine Finds.bind (finds_findSettings hfs userConfig o) (fun f => rfl) fun settings _ => ?_
    refine Finds.bind (finds_openSheet hfs settings o) (fun f => rfl) fun opened _ => ?_
    exact finds_pure fun s => applyEdits_eq_ok_iff
  exact hedited.congr fun s => ⟨fun ⟨settings, hsettings, h⟩ => ⟨settings, hsettings, h⟩,
    fun ⟨settings, hsettings, h⟩ => ⟨settings, hsettings, h⟩⟩

/-! ## Runs -/

/-- **A session that comes to no sheet fails**, and leaves the files alone. -/
theorem run_of_not_comesTo (hfs : OnTree fs)
    (h : ∀ settings s, ¬ ComesTo reader tree userConfig o settings s) :
    ∃ f : Failure, (runOptions reader fs userConfig o).run tree =
      ({ code := 1, errors := f.message }, tree) := by
  obtain ⟨result, hrun, hresult⟩ := finds_editedSheet hfs tree userConfig o
  cases result with
  | ok s =>
    obtain ⟨settings, hs⟩ := (hresult s).mp rfl
    exact absurd hs (h settings s)
  | error f => exact ⟨f, run_bind_of_run hrun⟩

/-- **A session that comes to a sheet lists it**, and ends there if it has no target. -/
theorem ComesTo.run_of_none (hfs : OnTree fs) (h : ComesTo reader tree userConfig o settings s)
    (htarget : o.target = none) :
    (runOptions reader fs userConfig o).run tree = ({ output := records s }, tree) := by
  obtain ⟨result, hrun, hresult⟩ := finds_editedSheet hfs tree userConfig o
  obtain rfl := (hresult s).mpr ⟨settings, h⟩
  rw [runOptions, run_bind_of_run hrun, htarget]
  dsimp only
  rw [h.listing_eq]
  rfl

/-- Where it has a target, it saves the sheet there, or it fails as the write failed. -/
theorem ComesTo.run_of_some (hfs : OnTree fs) (h : ComesTo reader tree userConfig o settings s)
    (htarget : o.target = some path) :
    (∃ e, (fs.write path s.toText).run tree = (.error e, tree) ∧ ∃ f : Failure,
        (runOptions reader fs userConfig o).run tree =
          ({ code := 1, output := records s, errors := f.message }, tree)) ∨
      ∃ after, tree.write path s.toText = .ok after ∧
        (runOptions reader fs userConfig o).run tree = ({ output := records s }, after) := by
  obtain ⟨result, hrun, hresult⟩ := finds_editedSheet hfs tree userConfig o
  obtain rfl := (hresult s).mpr ⟨settings, h⟩
  rw [runOptions, run_bind_of_run hrun, htarget]
  dsimp only
  rw [h.listing_eq]
  dsimp only
  rw [Sheet.writeFile, bind_assoc]
  obtain ⟨e, hwrite⟩ | ⟨after, hafter, hwrite⟩ := hfs.write tree path s.toText
  · rw [run_bind_of_run hwrite]
    exact Or.inl ⟨e, hwrite, _, rfl⟩
  · rw [run_bind_of_run hwrite]
    exact Or.inr ⟨after, hafter, rfl⟩

/-- **How a session can end**: it fails and leaves the files alone, or it lists the sheet that it
comes to and writes its target, if it has one. -/
theorem runOptions_cases {report : Report} (hfs : OnTree fs)
    (hrun : (runOptions reader fs userConfig o).run tree = (report, after)) :
    (report.code ≠ 0 ∧ after = tree) ∨
      ∃ settings s, ComesTo reader tree userConfig o settings s ∧ report = { output := records s } ∧
        match o.target with
        | none => after = tree
        | some path => tree.write path s.toText = .ok after := by
  have hfailing : (1 : UInt32) ≠ 0 := by decide
  by_cases h : ∃ settings s, ComesTo reader tree userConfig o settings s
  · obtain ⟨settings, s, h⟩ := h
    cases htarget : o.target with
    | none =>
      rw [h.run_of_none hfs htarget] at hrun
      obtain ⟨rfl, rfl⟩ := Prod.mk.inj hrun
      exact Or.inr ⟨settings, s, h, rfl, rfl⟩
    | some path =>
      obtain ⟨-, -, f, hfailed⟩ | ⟨written, hwrite, hended⟩ := h.run_of_some hfs htarget
      · rw [hfailed] at hrun
        obtain ⟨rfl, rfl⟩ := Prod.mk.inj hrun
        exact Or.inl ⟨hfailing, rfl⟩
      · rw [hended] at hrun
        obtain ⟨rfl, rfl⟩ := Prod.mk.inj hrun
        exact Or.inr ⟨settings, s, h, rfl, hwrite⟩
  · obtain ⟨f, hfailed⟩ := run_of_not_comesTo hfs fun settings s hs => h ⟨settings, s, hs⟩
    rw [hfailed] at hrun
    obtain ⟨rfl, rfl⟩ := Prod.mk.inj hrun
    exact Or.inl ⟨hfailing, rfl⟩

/-- **A session that comes to a sheet fails only** where its target can not be written. -/
theorem ComesTo.write_failed {report : Report} (hfs : OnTree fs)
    (h : ComesTo reader tree userConfig o settings s)
    (hrun : (runOptions reader fs userConfig o).run tree = (report, after))
    (hcode : report.code ≠ 0) :
    ∃ path e, o.target = some path ∧ (fs.write path s.toText).run tree = (.error e, tree) := by
  cases htarget : o.target with
  | none =>
    rw [h.run_of_none hfs htarget] at hrun
    obtain ⟨rfl, -⟩ := Prod.mk.inj hrun
    exact absurd rfl hcode
  | some path =>
    obtain ⟨e, hwrite, -⟩ | ⟨written, -, hended⟩ := h.run_of_some hfs htarget
    · exact ⟨path, e, rfl, hwrite⟩
    · rw [hended] at hrun
      obtain ⟨rfl, -⟩ := Prod.mk.inj hrun
      exact absurd rfl hcode

end Worksheet.CommandLine
