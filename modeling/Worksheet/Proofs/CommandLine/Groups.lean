import Mathlib.Data.List.Forall2
import Mathlib.Data.List.Perm.Basic
import Worksheet.CommandLine.Options
import Worksheet.Proofs.Text.Cut

/-!
# The arguments of the program

Arguments come in groups: an option, with its value if it takes one, or a file. Only where a group
starts does it matter what an argument looks like, so a value may look like an option.

Taking in a group is the same as adding it to the options (`extend_spelt`), as long as there is no
second file. A request for help counts only where a group could start.

* `extend_written`: the arguments of groups are taken in.
* `takes_of_extend`: what is accepted consists of groups, up to a request for help.
* `describes_foldl`, `Describes.unique`: the options that groups ask for.
* `arguments_are_groups`: the two together, and when the order of groups does not matter.
-/

namespace Worksheet.CommandLine

/-! ## Groups -/

/-- What arguments that belong together ask for. -/
inductive Group where
  | set (value : String)
  | output (path : String)
  | config (path : String)
  | write
  | noConfig
  | file (path : String)
  deriving DecidableEq

namespace Group

/-- The ways to spell a group. Values are arbitrary, also if they look like options. -/
inductive Spelt : Group → List String → Prop
  | set {option : String} (h : option = "-s" ∨ option = "--set") (value : String) :
      Spelt (.set value) [option, value]
  | output {option : String} (h : option = "-o" ∨ option = "--output") (path : String) :
      Spelt (.output path) [option, path]
  | config (path : String) : Spelt (.config path) ["--config", path]
  | write {option : String} (h : option = "-w" ∨ option = "--write") : Spelt .write [option]
  | noConfig : Spelt .noConfig ["--no-config"]
  | file {path : String} (h : path.toList.head? ≠ some '-') : Spelt (.file path) [path]

/-- The edit of a group. -/
def set? : Group → Option String
  | .set value => some value
  | _ => none

/-- The output of a group. -/
def output? : Group → Option String
  | .output path => some path
  | _ => none

/-- The settings file of a group. -/
def config? : Group → Option String
  | .config path => some path
  | _ => none

/-- The file of a group. -/
def file? : Group → Option String
  | .file path => some path
  | _ => none

/-- Adds a group to options. -/
def add (o : Options) : Group → Options
  | .set value => { o with edits := o.edits ++ [CellEdit.ofArgument value] }
  | .output path => { o with output := some path }
  | .config path => { o with config := some path }
  | .write => { o with writeBack := true }
  | .noConfig => { o with noConfig := true }
  | .file path => { o with file := some path }

end Group

/-- The arguments are those of the groups, one after the other. -/
inductive Written : List Group → List String → Prop
  | nil : Written [] []
  | cons {group : Group} {groups : List Group} {words arguments : List String}
      (h : group.Spelt words) (hrest : Written groups arguments) :
      Written (group :: groups) (words ++ arguments)

/-- The groups name at most one file. -/
def AtMostOneFile (groups : List Group) : Prop := (groups.filterMap Group.file?).length ≤ 1

instance (groups : List Group) : Decidable (AtMostOneFile groups) :=
  inferInstanceAs (Decidable (_ ≤ _))

/-- To write the sheet back takes a file, and no other output. -/
def FitTogether (groups : List Group) : Prop :=
  .write ∈ groups → groups.filterMap Group.file? ≠ [] ∧ groups.filterMap Group.output? = []

/-- The argument is split at its first `=`, and blanks around the name are dropped; or it has none,
and no content. -/
inductive CellEdit.SplitFrom : CellEdit → String → Prop
  | content {name : List Char} (h : '=' ∉ name) (content : List Char) :
      SplitFrom ⟨String.ofList (Text.trim name), some (String.ofList content)⟩
        (String.ofList (name ++ '=' :: content))
  | bare {name : List Char} (h : '=' ∉ name) :
      SplitFrom ⟨String.ofList (Text.trim name), none⟩ (String.ofList name)

/-- The options are what the groups ask for: the file, all edits in order, and of several outputs
or settings files the last. -/
structure Describes (o : Options) (groups : List Group) : Prop where
  file : o.file = (groups.filterMap Group.file?).head?
  edits : List.Forall₂ CellEdit.SplitFrom o.edits (groups.filterMap Group.set?)
  output : o.output = (groups.filterMap Group.output?).getLast?
  config : o.config = (groups.filterMap Group.config?).getLast?
  writeBack : o.writeBack = true ↔ .write ∈ groups
  noConfig : o.noConfig = true ↔ .noConfig ∈ groups

/-- The same groups in another order, in which those of one kind keep theirs if several of them may
be given. -/
structure Reorders (groups groups' : List Group) : Prop where
  perm : groups.Perm groups'
  sets : groups.filterMap Group.set? = groups'.filterMap Group.set?
  outputs : groups.filterMap Group.output? = groups'.filterMap Group.output?
  configs : groups.filterMap Group.config? = groups'.filterMap Group.config?

/-! ## Edits -/

theorem CellEdit.splitFrom_ofArgument (argument : String) :
    (CellEdit.ofArgument argument).SplitFrom argument := by
  have hname : '=' ∉ argument.toList.takeWhile (· ≠ '=') := fun h =>
    absurd (List.all_eq_true.mp List.all_takeWhile _ h) (by decide)
  have hsplit := List.takeWhile_append_dropWhile (p := (· ≠ '=')) (l := argument.toList)
  unfold CellEdit.ofArgument
  dsimp only
  cases hrest : argument.toList.dropWhile (· ≠ '=') with
  | nil =>
    have hbare := CellEdit.SplitFrom.bare hname
    rw [hrest, List.append_nil] at hsplit
    rwa [hsplit, String.ofList_toList, ← hsplit] at hbare
  | cons c content =>
    have hc : c = '=' := by
      have hhead := List.head?_dropWhile_not (· ≠ '=') argument.toList
      rw [hrest] at hhead
      simpa using hhead
    subst hc
    have hcontent := CellEdit.SplitFrom.content hname content
    rw [hrest] at hsplit
    rwa [hsplit, String.ofList_toList] at hcontent

/-- An argument is split in one way only. -/
theorem CellEdit.SplitFrom.eq_ofArgument {edit : CellEdit} {argument : String}
    (h : edit.SplitFrom argument) : edit = CellEdit.ofArgument argument := by
  cases h with
  | content hname content =>
    rw [CellEdit.ofArgument, String.toList_ofList, Text.takeWhile_ne_append hname,
      Text.dropWhile_ne_append hname]
    rfl
  | bare hname =>
    rw [CellEdit.ofArgument, String.toList_ofList, Text.takeWhile_ne_of_notMem hname,
      Text.dropWhile_ne_of_notMem hname]
    rfl

/-! ## Taking in groups -/

namespace Options

/-- The arguments that a flag stands for. -/
def Flag.Names : Flag → String → Prop
  | .help, argument => argument = "-h" ∨ argument = "--help"
  | .set, argument => argument = "-s" ∨ argument = "--set"
  | .output, argument => argument = "-o" ∨ argument = "--output"
  | .write, argument => argument = "-w" ∨ argument = "--write"
  | .config, argument => argument = "--config"
  | .noConfig, argument => argument = "--no-config"
  | .unknown, argument => argument.toList.head? = some '-'
  | .positional, argument => argument.toList.head? ≠ some '-'

theorem names_of_flag {argument : String} {f : Flag} (h : flag argument = f) :
    f.Names argument := by
  subst h
  unfold flag
  split_ifs with h h h h h h h <;> exact h

theorem flag_eq_positional {path : String} (h : path.toList.head? ≠ some '-') :
    flag path = .positional := by
  have hne : ∀ option : String, option.toList.head? = some '-' → path ≠ option := by
    rintro option hoption rfl
    exact h hoption
  simp only [flag, hne "-h" rfl, hne "--help" rfl, hne "-s" rfl, hne "--set" rfl, hne "-o" rfl,
    hne "--output" rfl, hne "-w" rfl, hne "--write" rfl, hne "--config" rfl, hne "--no-config" rfl,
    h, or_self, if_false]

variable {o : Options} {group : Group} {groups : List Group} {words rest arguments : List String}
  {request : Request}

/-- **Taking in a group** adds it to the options, if it is no second file. -/
theorem extend_spelt (h : group.Spelt words) (hfile : group.file? = none ∨ o.file = none) :
    extend o (words ++ rest) = extend (group.add o) rest := by
  cases h with
  | @set option h value =>
    have hflag : flag option = .set := by rcases h with rfl | rfl <;> decide
    simp only [List.cons_append, List.nil_append, extend, hflag, Group.add]
  | @output option h path =>
    have hflag : flag option = .output := by rcases h with rfl | rfl <;> decide
    simp only [List.cons_append, List.nil_append, extend, hflag, Group.add]
  | config path =>
    have hflag : flag "--config" = .config := by decide
    simp only [List.cons_append, List.nil_append, extend, hflag, Group.add]
  | @write option h =>
    have hflag : flag option = .write := by rcases h with rfl | rfl <;> decide
    simp only [List.cons_append, List.nil_append, extend, hflag, Group.add]
  | noConfig =>
    have hflag : flag "--no-config" = .noConfig := by decide
    simp only [List.cons_append, List.nil_append, extend, hflag, Group.add]
  | file h =>
    have hnone : o.file = none := hfile.resolve_left (Option.some_ne_none _)
    simp only [List.cons_append, List.nil_append, extend, flag_eq_positional h, Group.add, hnone,
      Option.isSome_none, Bool.false_eq_true, if_false]

/-- A second file is refused. -/
theorem extend_second_file {path : String} (h : (Group.file path).Spelt words)
    (hfile : o.file ≠ none) : extend o (words ++ rest) = .error (.unexpectedArgument path) := by
  cases h with
  | file h =>
    have hsome : o.file.isSome = true := Option.isSome_iff_ne_none.mpr hfile
    simp only [List.cons_append, List.nil_append, extend, flag_eq_positional h, hsome, if_true]

/-- The files of options and of groups that are added to them. -/
def files (o : Options) (groups : List Group) : List String :=
  o.file.toList ++ groups.filterMap Group.file?

theorem files_cons (h : group.file? = none ∨ o.file = none) :
    o.files (group :: groups) = (group.add o).files groups := by
  cases group with
  | file path =>
    have hnone : o.file = none := h.resolve_left (Option.some_ne_none _)
    simp [files, Group.add, Group.file?, hnone]
  | _ => rfl

/-- Where there is at most one file, no group is a second one. -/
theorem first_file (h : (o.files (group :: groups)).length ≤ 1) :
    group.file? = none ∨ o.file = none := by
  cases hfile : group.file? with
  | none => exact Or.inl rfl
  | some path =>
    refine Or.inr (Option.eq_none_iff_forall_ne_some.mpr fun first hfirst => ?_)
    simp [files, hfile, hfirst] at h

/-- **The arguments of groups are taken in**, if they name at most one file. -/
theorem extend_written (h : Written groups words) (hfiles : (o.files groups).length ≤ 1)
    (rest : List String) :
    extend o (words ++ rest) = extend (groups.foldl Group.add o) rest := by
  induction h generalizing o with
  | nil => rfl
  | cons hgroup _ ih =>
    have hfirst := first_file hfiles
    rw [files_cons hfirst] at hfiles
    rw [List.append_assoc, extend_spelt hgroup hfirst, ih hfiles, List.foldl_cons]

/-- If they name more, the arguments are refused. -/
theorem extend_written_eq_error (h : Written groups words)
    (hfiles : 1 < (o.files groups).length) (rest : List String) :
    ∃ path, extend o (words ++ rest) = .error (.unexpectedArgument path) := by
  induction h generalizing o with
  | nil =>
    unfold files at hfiles
    cases ho : o.file <;> simp [ho] at hfiles
  | @cons group groups _ _ hgroup _ ih =>
    rw [List.append_assoc]
    by_cases hfirst : group.file? = none ∨ o.file = none
    · rw [files_cons hfirst] at hfiles
      rw [extend_spelt hgroup hfirst]
      exact ih hfiles
    · rw [not_or] at hfirst
      obtain ⟨hfile, hsome⟩ := hfirst
      cases group with
      | file path => exact ⟨path, extend_second_file hgroup hsome⟩
      | _ => exact absurd rfl hfile

/-! ## What is accepted -/

/-- The arguments are groups without a second file, up to their end, where the options fit
together, or up to a request for help. -/
inductive Takes : Options → List String → Request → Prop
  | done {o : Options} {request : Request} (h : o.check = .ok request) : Takes o [] request
  | help {o : Options} {argument : String} (h : argument = "-h" ∨ argument = "--help")
      (arguments : List String) : Takes o (argument :: arguments) .help
  | group {o : Options} {group : Group} {words rest : List String} {request : Request}
      (h : group.Spelt words) (hfile : group.file? = none ∨ o.file = none)
      (hrest : Takes (group.add o) rest request) : Takes o (words ++ rest) request

/-- **What is accepted** is taken in group by group. -/
theorem takes_of_extend (h : extend o arguments = .ok request) : Takes o arguments request := by
  fun_induction extend o arguments with
  | case1 o => exact .done h
  | case2 o argument arguments hflag =>
    obtain rfl := Except.ok.inj h
    exact .help (names_of_flag hflag) arguments
  | case3 => contradiction
  | case4 o argument value arguments hflag ih =>
    exact .group (.set (names_of_flag hflag) value) (Or.inl rfl) (ih h)
  | case5 => contradiction
  | case6 o argument path arguments hflag ih =>
    exact .group (.output (names_of_flag hflag) path) (Or.inl rfl) (ih h)
  | case7 o argument arguments hflag ih =>
    exact .group (.write (names_of_flag hflag)) (Or.inl rfl) (ih h)
  | case8 => contradiction
  | case9 o argument path arguments hflag ih =>
    obtain rfl : argument = "--config" := names_of_flag hflag
    exact .group (.config path) (Or.inl rfl) (ih h)
  | case10 o argument arguments hflag ih =>
    obtain rfl : argument = "--no-config" := names_of_flag hflag
    exact .group .noConfig (Or.inl rfl) (ih h)
  | case11 => contradiction
  | case12 => contradiction
  | case13 o argument arguments hflag hfile ih =>
    exact .group (.file (names_of_flag hflag)) (Or.inr (by simpa using hfile)) (ih h)

theorem check_eq_ok_iff : o.check = .ok request ↔
    request = .run o ∧ (o.writeBack = true → o.file ≠ none ∧ o.output = none) := by
  unfold check
  cases o.writeBack <;> cases o.file <;> cases o.output <;> simp [eq_comm]

/-- The groups that were taken in, and what ended them. -/
theorem Takes.exists_groups (h : Takes o arguments request) :
    ∃ groups before after, arguments = before ++ after ∧ Written groups before ∧
      (o.files groups).length ≤ 1 ∧
        ((after = [] ∧ (groups.foldl Group.add o).check = .ok request) ∨
          (request = .help ∧ ∃ asked rest, after = asked :: rest ∧
            (asked = "-h" ∨ asked = "--help"))) := by
  have hnil : ∀ o : Options, (o.files []).length ≤ 1 := fun o => by
    cases hfile : o.file <;> simp [files, hfile]
  induction h with
  | @done o _ h => exact ⟨[], [], [], rfl, .nil, hnil o, Or.inl ⟨rfl, h⟩⟩
  | @help o argument h arguments =>
    exact ⟨[], [], _, rfl, .nil, hnil o, Or.inr ⟨rfl, argument, arguments, rfl, h⟩⟩
  | @group o group words rest request hgroup hfile _ ih =>
    obtain ⟨groups, before, after, rfl, hwritten, hfiles, hend⟩ := ih
    refine ⟨group :: groups, words ++ before, after, ?_, .cons hgroup hwritten, ?_, hend⟩
    · rw [List.append_assoc]
    · rwa [files_cons hfile]

/-! ## What groups ask for -/

/-- What adding the groups to the options `o` makes of them. -/
structure Adds (o : Options) (groups : List Group) (p : Options) : Prop where
  files : p.file.toList = o.files groups
  edits : p.edits = o.edits ++ (groups.filterMap Group.set?).map CellEdit.ofArgument
  output : p.output = (groups.filterMap Group.output?).getLast?.or o.output
  config : p.config = (groups.filterMap Group.config?).getLast?.or o.config
  writeBack : p.writeBack = true ↔ o.writeBack = true ∨ .write ∈ groups
  noConfig : p.noConfig = true ↔ o.noConfig = true ∨ .noConfig ∈ groups

theorem Adds.cons {p : Options} (h : Adds (group.add o) groups p)
    (hfile : group.file? = none ∨ o.file = none) : Adds o (group :: groups) p where
  files := h.files.trans (files_cons hfile).symm
  edits := by
    rw [h.edits]
    cases group <;> simp [Group.add, Group.set?, List.filterMap_cons]
  output := by
    rw [h.output]
    cases group <;> simp [Group.add, Group.output?, List.getLast?_cons]
  config := by
    rw [h.config]
    cases group <;> simp [Group.add, Group.config?, List.getLast?_cons]
  writeBack := by
    rw [h.writeBack]
    cases group <;> simp [Group.add]
  noConfig := by
    rw [h.noConfig]
    cases group <;> simp [Group.add]

theorem adds_foldl (h : (o.files groups).length ≤ 1) :
    Adds o groups (groups.foldl Group.add o) := by
  induction groups generalizing o with
  | nil => exact ⟨by simp [files], by simp, by simp, by simp, by simp, by simp⟩
  | cons group groups ih =>
    have hfirst := first_file h
    rw [files_cons hfirst] at h
    exact (ih h).cons hfirst

end Options

section Describes

variable {o p : Options} {groups groups' : List Group}

theorem Options.Adds.describes (h : Options.Adds {} groups p) : Describes p groups where
  file := by
    have hfiles : p.file.toList = groups.filterMap Group.file? := h.files
    rw [← hfiles, Option.head?_toList]
  edits := by
    rw [h.edits, List.nil_append, List.forall₂_map_left_iff, List.forall₂_same]
    exact fun argument _ => CellEdit.splitFrom_ofArgument argument
  output := by rw [h.output, Option.or_none]
  config := by rw [h.config, Option.or_none]
  writeBack := by rw [h.writeBack]; simp
  noConfig := by rw [h.noConfig]; simp

/-- The options that groups ask for are the groups, added one after the other. -/
theorem describes_foldl (h : AtMostOneFile groups) :
    Describes (groups.foldl Group.add {}) groups := (Options.adds_foldl (o := {}) h).describes

/-- Groups ask for certain options and no others. -/
theorem Describes.unique (ho : Describes o groups) (hp : Describes p groups) : o = p := by
  have hedits : o.edits = p.edits := by
    have hsplit : ∀ {edits : List CellEdit},
        List.Forall₂ CellEdit.SplitFrom edits (groups.filterMap Group.set?) →
          edits = (groups.filterMap Group.set?).map CellEdit.ofArgument := by
      intro edits h
      rw [← List.forall₂_eq_eq_eq, List.forall₂_map_right_iff]
      exact h.imp fun _ _ hedit => hedit.eq_ofArgument
    rw [hsplit ho.edits, hsplit hp.edits]
  have hfile := ho.file.trans hp.file.symm
  have houtput := ho.output.trans hp.output.symm
  have hconfig := ho.config.trans hp.config.symm
  have hwriteBack := Bool.eq_iff_iff.mpr (ho.writeBack.trans hp.writeBack.symm)
  have hnoConfig := Bool.eq_iff_iff.mpr (ho.noConfig.trans hp.noConfig.symm)
  cases o
  cases p
  simp only at hedits hfile houtput hconfig hwriteBack hnoConfig
  rw [hfile, hedits, houtput, hwriteBack, hconfig, hnoConfig]

theorem describes_iff (h : AtMostOneFile groups) :
    Describes o groups ↔ o = groups.foldl Group.add {} := by
  constructor
  · exact fun ho => ho.unique (describes_foldl h)
  · rintro rfl
    exact describes_foldl h

theorem Describes.fitTogether_iff (h : Describes o groups) :
    FitTogether groups ↔ (o.writeBack = true → o.file ≠ none ∧ o.output = none) := by
  rw [FitTogether, h.writeBack, h.file, h.output, ne_eq, ne_eq, List.head?_eq_none_iff,
    List.getLast?_eq_none_iff]

/-- The order of the groups does not matter for what they ask for. -/
theorem Describes.reorder (h : Describes o groups) (hfile : AtMostOneFile groups)
    (horder : Reorders groups groups') : Describes o groups' := by
  have hfiles : groups.filterMap Group.file? = groups'.filterMap Group.file? := by
    have hperm := horder.perm.filterMap Group.file?
    unfold AtMostOneFile at hfile
    cases hcases : groups.filterMap Group.file? with
    | nil =>
      rw [hcases] at hperm
      exact hperm.nil_eq
    | cons path rest =>
      rw [hcases] at hperm hfile
      obtain rfl := List.eq_nil_of_length_eq_zero (Nat.le_zero.mp (Nat.le_of_succ_le_succ hfile))
      exact List.singleton_perm.mp hperm
  exact ⟨hfiles ▸ h.file, horder.sets ▸ h.edits, horder.outputs ▸ h.output,
    horder.configs ▸ h.config, h.writeBack.trans horder.perm.mem_iff,
    h.noConfig.trans horder.perm.mem_iff⟩

theorem Reorders.atMostOneFile_iff (h : Reorders groups groups') :
    AtMostOneFile groups ↔ AtMostOneFile groups' := by
  rw [AtMostOneFile, AtMostOneFile, (h.perm.filterMap Group.file?).length_eq]

end Describes

/-! ## The whole list of arguments -/

namespace Options

variable {arguments : List String} {groups : List Group}

theorem ofArguments_written (h : Written groups arguments) (hfile : AtMostOneFile groups) :
    ofArguments arguments = (groups.foldl Group.add {}).check := by
  have htaken := extend_written h (o := {}) hfile []
  rwa [List.append_nil] at htaken

theorem ofArguments_eq_run_iff {o : Options} : ofArguments arguments = .ok (.run o) ↔
    ∃ groups, Written groups arguments ∧ AtMostOneFile groups ∧ FitTogether groups ∧
      Describes o groups := by
  constructor
  · intro h
    obtain ⟨groups, before, after, rfl, hwritten, hfile, hend⟩ := (takes_of_extend h).exists_groups
    rcases hend with ⟨rfl, hcheck⟩ | ⟨hhelp, -⟩
    · obtain ⟨hrun, hfit⟩ := check_eq_ok_iff.mp hcheck
      obtain rfl := Request.run.inj hrun
      have hdescribes : Describes (groups.foldl Group.add {}) groups := describes_foldl hfile
      rw [List.append_nil]
      exact ⟨groups, hwritten, hfile, hdescribes.fitTogether_iff.mpr hfit, hdescribes⟩
    · contradiction
  · rintro ⟨groups, hwritten, hfile, hfit, hdescribes⟩
    rw [ofArguments_written hwritten hfile, ← (describes_iff hfile).mp hdescribes]
    exact check_eq_ok_iff.mpr ⟨rfl, hdescribes.fitTogether_iff.mp hfit⟩

theorem ofArguments_eq_help_iff : ofArguments arguments = .ok .help ↔
    ∃ groups before asked after, arguments = before ++ asked :: after ∧ Written groups before ∧
      AtMostOneFile groups ∧ (asked = "-h" ∨ asked = "--help") := by
  constructor
  · intro h
    obtain ⟨groups, before, after, rfl, hwritten, hfile, hend⟩ := (takes_of_extend h).exists_groups
    rcases hend with ⟨-, hcheck⟩ | ⟨-, asked, rest, rfl, hasked⟩
    · have hrun := (check_eq_ok_iff.mp hcheck).1
      contradiction
    · exact ⟨groups, before, asked, rest, rfl, hwritten, hfile, hasked⟩
  · rintro ⟨groups, before, asked, after, rfl, hwritten, hfile, hasked⟩
    have hflag : flag asked = .help := by rcases hasked with rfl | rfl <;> decide
    rw [ofArguments, extend_written (o := {}) hwritten hfile _]
    simp only [extend, hflag]

/-- **Arguments are groups.** They are accepted where they consist of groups that name at most one
file and fit together, and the options are what the groups ask for. Help is given where it is asked
for after such groups, whatever follows. Groups in another order are accepted alike; two files are
refused in any order. -/
theorem arguments_are_groups (arguments : List String) :
    (∀ o, ofArguments arguments = .ok (.run o) ↔ ∃ groups, Written groups arguments ∧
      AtMostOneFile groups ∧ FitTogether groups ∧ Describes o groups) ∧
    (ofArguments arguments = .ok .help ↔
      ∃ groups before asked after, arguments = before ++ asked :: after ∧
        Written groups before ∧ AtMostOneFile groups ∧ (asked = "-h" ∨ asked = "--help")) ∧
    ∀ groups groups' arguments', Written groups arguments → Written groups' arguments' →
      Reorders groups groups' →
        (AtMostOneFile groups → ofArguments arguments' = ofArguments arguments) ∧
        (¬ AtMostOneFile groups → ∃ path path',
          ofArguments arguments = .error (.unexpectedArgument path) ∧
            ofArguments arguments' = .error (.unexpectedArgument path')) := by
  refine ⟨fun o => ofArguments_eq_run_iff, ofArguments_eq_help_iff, ?_⟩
  intro groups groups' arguments' hwritten hwritten' horder
  constructor
  · intro hfile
    have hsame := ((describes_foldl hfile).reorder hfile horder).unique
      (describes_foldl (horder.atMostOneFile_iff.mp hfile))
    rw [ofArguments_written hwritten hfile,
      ofArguments_written hwritten' (horder.atMostOneFile_iff.mp hfile), hsame]
  · intro hfiles
    have hfiles' : ¬ AtMostOneFile groups' := mt horder.atMostOneFile_iff.mpr hfiles
    obtain ⟨path, hpath⟩ := extend_written_eq_error (o := {}) hwritten
      (Nat.lt_of_not_le hfiles) []
    obtain ⟨path', hpath'⟩ := extend_written_eq_error (o := {}) hwritten'
      (Nat.lt_of_not_le hfiles') []
    rw [List.append_nil] at hpath hpath'
    exact ⟨path, path', hpath, hpath'⟩

/-- Values that look like options, and a file between them. -/
theorem valuesLikeOptions_are_groups :
    Written [.set "-h", .file "a.cws", .set "b==a+1", .write]
        ["-s", "-h", "a.cws", "--set", "b==a+1", "-w"] ∧
      Written [.write, .set "-h", .set "b==a+1", .file "a.cws"]
        ["--write", "--set", "-h", "-s", "b==a+1", "a.cws"] ∧
      ofArguments ["--write", "--set", "-h", "-s", "b==a+1", "a.cws"] =
        ofArguments ["-s", "-h", "a.cws", "--set", "b==a+1", "-w"] ∧
      ofArguments ["-s", "-h", "a.cws", "--set", "b==a+1", "-w"] = .ok (.run {
        file := some "a.cws", edits := [⟨"-h", none⟩, ⟨"b", some "=a+1"⟩]
        writeBack := true }) := by
  have hwritten : Written [.set "-h", .file "a.cws", .set "b==a+1", .write]
      ["-s", "-h", "a.cws", "--set", "b==a+1", "-w"] :=
    .cons (.set (Or.inl rfl) _) (.cons (.file (by decide)) (.cons (.set (Or.inr rfl) _)
      (.cons (.write (Or.inl rfl)) .nil)))
  have hwritten' : Written [.write, .set "-h", .set "b==a+1", .file "a.cws"]
      ["--write", "--set", "-h", "-s", "b==a+1", "a.cws"] :=
    .cons (.write (Or.inr rfl)) (.cons (.set (Or.inr rfl) _) (.cons (.set (Or.inl rfl) _)
      (.cons (.file (by decide)) .nil)))
  have horder : Reorders [.set "-h", .file "a.cws", .set "b==a+1", .write]
      [.write, .set "-h", .set "b==a+1", .file "a.cws"] := ⟨by decide, rfl, rfl, rfl⟩
  have hsame := ((arguments_are_groups _).2.2 _ _ _ hwritten hwritten' horder).1 (by decide)
  exact ⟨hwritten, hwritten', hsame, by decide +kernel⟩

end Options

end Worksheet.CommandLine
