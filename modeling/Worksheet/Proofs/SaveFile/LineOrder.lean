import Mathlib.Data.List.Perm.Basic
import Worksheet.SaveFile.Reader

/-!
# The order of the lines of a saved sheet

Once the line with the version tag is read, each further line is acceptable or not by itself: it
must be skipped or fill a cell. So the order of these lines does not decide whether a text is read,
and only the order of the entries depends on it.

* `readLines_append`: what lines do to the reading of the lines after them.
* `read_of_reordered`: what a text with the lines after the version tag in another order gives.
-/

namespace Worksheet.SaveFile

/-- What a line fills, if it fills a cell. -/
def filling? (line : List Char) : Option (String × Payload) :=
  match readLine line with
  | .ok (.entry name payload) => some (String.ofList name, payload)
  | _ => none

/-- The cells that a saved sheet fills, without the numbers of their lines. -/
def fillings (file : SaveFile) : List (String × Payload) :=
  file.entries.map fun entry => (entry.name, entry.payload)

/-- A line that may come after the version tag: it is skipped, or it fills a cell. -/
def MayFollow (line : List Char) : Prop :=
  readLine line = .ok .skipped ∨ ∃ name payload, readLine line = .ok (.entry name payload)

/-- The texts have the same lines, but for the order of those after a line with the version tag. -/
def Reordered (text text' : String) : Prop :=
  ∃ before header tag after after', Text.lines text.toList = before ++ header :: after ∧
    Text.lines text'.toList = before ++ header :: after' ∧
    readLine header = .ok (.version tag) ∧ after.Perm after'

theorem Reordered.symm {text text' : String} (h : Reordered text text') : Reordered text' text := by
  obtain ⟨before, header, tag, after, after', hlines, hlines', hheader, hperm⟩ := h
  exact ⟨before, header, tag, after', after, hlines', hlines, hheader, hperm.symm⟩

variable {tag : String} {started : Bool} {file : SaveFile} {lines : List (Nat × List Char)}

/-! ## After the version tag -/

/-- Where the reading of an entry's line and of those after it ends well. -/
theorem readLines_entry_eq_ok {version : Option String} {number : Nat} {line name : List Char}
    {payload : Payload} (hline : readLine line = .ok (.entry name payload)) :
    readLines version started ((number, line) :: lines) = .ok file ↔
      ∃ rest, readLines version true lines = .ok rest ∧
        { rest with entries := ⟨number, String.ofList name, payload⟩ :: rest.entries } = file := by
  rw [readLines, hline]
  cases readLines version true lines with
  | error fault => simp [bind, Except.bind]
  | ok rest => simp [bind, Except.bind, pure, Except.pure]

/-- What lines that were read after the version tag give. -/
theorem readLines_some_eq_ok (h : readLines (some tag) started lines = .ok file) :
    (∀ line ∈ lines.map Prod.snd, MayFollow line) ∧ file.version = tag ∧
      file.fillings = (lines.map Prod.snd).filterMap filling? := by
  induction lines generalizing started file with
  | nil =>
    obtain rfl := Except.ok.inj h
    exact ⟨List.forall_mem_nil _, rfl, rfl⟩
  | cons numbered lines ih =>
    obtain ⟨number, line⟩ := numbered
    simp only [List.map_cons, List.forall_mem_cons, List.filterMap_cons]
    cases hline : readLine line with
    | error fault =>
      rw [readLines, hline] at h
      contradiction
    | ok content =>
      cases content with
      | skipped =>
        rw [readLines, hline] at h
        obtain ⟨hlines, hversion, hfillings⟩ := ih h
        refine ⟨⟨Or.inl hline, hlines⟩, hversion, ?_⟩
        rw [hfillings, filling?, hline]
      | version other =>
        rw [readLines, hline] at h
        contradiction
      | entry name payload =>
        obtain ⟨rest, hrest, rfl⟩ := (readLines_entry_eq_ok hline).mp h
        obtain ⟨hlines, hversion, hfillings⟩ := ih hrest
        refine ⟨⟨Or.inr ⟨name, payload, hline⟩, hlines⟩, hversion, ?_⟩
        rw [← hfillings, filling?, hline]
        rfl

/-- Lines that may come after the version tag are read. -/
theorem exists_readLines_some (tag : String) (started : Bool)
    (h : ∀ line ∈ lines.map Prod.snd, MayFollow line) :
    ∃ file, readLines (some tag) started lines = .ok file := by
  induction lines generalizing started with
  | nil => exact ⟨_, rfl⟩
  | cons numbered lines ih =>
    obtain ⟨number, line⟩ := numbered
    obtain ⟨hline, hlines⟩ := List.forall_mem_cons.mp h
    rcases hline with hskipped | ⟨name, payload, hentry⟩
    · rw [readLines, hskipped]
      exact ih started hlines
    · obtain ⟨rest, hrest⟩ := ih true hlines
      exact ⟨_, (readLines_entry_eq_ok hentry).mpr ⟨rest, hrest, rfl⟩⟩

/-- Another order of these lines fills the same cells, in another order. -/
theorem readLines_some_perm {lines' : List (Nat × List Char)}
    (hperm : (lines.map Prod.snd).Perm (lines'.map Prod.snd))
    (h : readLines (some tag) started lines = .ok file) :
    ∃ file', readLines (some tag) started lines' = .ok file' ∧ file'.version = file.version ∧
      file.fillings.Perm file'.fillings := by
  obtain ⟨hfollow, hversion, hfillings⟩ := readLines_some_eq_ok h
  obtain ⟨file', hfile'⟩ := exists_readLines_some tag started fun line hline =>
    hfollow line (hperm.mem_iff.mpr hline)
  obtain ⟨-, hversion', hfillings'⟩ := readLines_some_eq_ok hfile'
  refine ⟨file', hfile', hversion'.trans hversion.symm, ?_⟩
  rw [hfillings, hfillings']
  exact hperm.filterMap filling?

/-! ## Before it -/

/-- **What lines do to the reading of the lines after them**: they end it with a fault, or they
decide how it goes on, and their entries come first. -/
theorem readLines_append (before : List (Nat × List Char)) (version : Option String)
    (started : Bool) :
    (∃ fault, ∀ after, readLines version started (before ++ after) = .error fault) ∨
      ∃ version' started' entries, ∀ after, readLines version started (before ++ after) =
        (readLines version' started' after).map fun file =>
          { file with entries := entries ++ file.entries } := by
  induction before generalizing version started with
  | nil =>
    refine Or.inr ⟨version, started, [], fun after => ?_⟩
    rw [List.nil_append]
    cases readLines version started after <;> rfl
  | cons numbered before ih =>
    obtain ⟨number, line⟩ := numbered
    simp only [List.cons_append, readLines]
    cases readLine line with
    | error fault => exact Or.inl ⟨_, fun _ => rfl⟩
    | ok content =>
      cases content with
      | skipped => exact ih version started
      | version other =>
        dsimp only
        split
        · exact Or.inl ⟨_, fun _ => rfl⟩
        · split
          · exact Or.inl ⟨_, fun _ => rfl⟩
          · exact ih _ started
      | entry name payload =>
        rcases ih version true with ⟨fault, hfault⟩ | ⟨version', started', entries, hgoes⟩
        · refine Or.inl ⟨fault, fun after => ?_⟩
          rw [hfault]
          rfl
        · refine Or.inr ⟨version', started', ⟨number, String.ofList name, payload⟩ :: entries,
            fun after => ?_⟩
          rw [hgoes]
          cases readLines version' started' after <;> rfl

/-- A line with a version tag ends the reading with a fault, or the tag is known after it. -/
theorem readLines_version {header tag : List Char} (hheader : readLine header = .ok (.version tag))
    (version : Option String) (started : Bool) (number : Nat) :
    (∃ fault, ∀ after, readLines version started ((number, header) :: after) = .error fault) ∨
      ∀ after, readLines version started ((number, header) :: after) =
        readLines (some (String.ofList tag)) started after := by
  simp only [readLines, hheader]
  split
  · exact Or.inl ⟨_, fun _ => rfl⟩
  · split
    · exact Or.inl ⟨_, fun _ => rfl⟩
    · exact Or.inr fun _ => rfl

/-! ## The whole text -/

/-- Lines with their numbers, if there are `n` lines before them. -/
def numbered (n : Nat) (lines : List (List Char)) : List (Nat × List Char) :=
  (lines.zipIdx n).map fun (line, index) => (index + 1, line)

theorem map_snd_numbered (n : Nat) (lines : List (List Char)) :
    (numbered n lines).map Prod.snd = lines := by
  rw [numbered, List.map_map]
  exact List.zipIdx_map_fst n lines

theorem read_eq {text : String} {before after : List (List Char)} {header : List Char}
    (h : Text.lines text.toList = before ++ header :: after) :
    read text = readLines none false (numbered 0 before ++
      (before.length + 1, header) :: numbered (before.length + 1) after) := by
  rw [read, Text.numberedLines, h]
  simp [numbered, List.zipIdx_append]

/-- **What the lines up to the version tag do**: they end the reading with a fault, or the tag is
known after them and their entries come first. -/
theorem readLines_header {header tag : List Char} (hheader : readLine header = .ok (.version tag))
    (before : List (Nat × List Char)) (number : Nat) :
    (∃ fault, ∀ after,
        readLines none false (before ++ (number, header) :: after) = .error fault) ∨
      ∃ started entries, ∀ after, readLines none false (before ++ (number, header) :: after) =
        (readLines (some (String.ofList tag)) started after).map fun file =>
          { file with entries := entries ++ file.entries } := by
  obtain ⟨fault, hfault⟩ | ⟨version, started, entries, hgoes⟩ := readLines_append before none false
  · exact Or.inl ⟨fault, fun after => hfault _⟩
  · obtain ⟨fault, hfault⟩ | htag := readLines_version hheader version started number
    · exact Or.inl ⟨fault, fun after => by rw [hgoes, hfault]; rfl⟩
    · exact Or.inr ⟨started, entries, fun after => by rw [hgoes, htag]⟩

/-- **Another order of the lines after the version tag** gives the same tag, and the same cells are
filled, in another order. -/
theorem read_of_reordered {text text' : String} (h : Reordered text text')
    (hread : read text = .ok file) :
    ∃ file', read text' = .ok file' ∧ file'.version = file.version ∧
      file.fillings.Perm file'.fillings := by
  obtain ⟨before, header, tag, after, after', hlines, hlines', hheader, hperm⟩ := h
  rw [read_eq hlines] at hread
  rw [read_eq hlines']
  obtain ⟨fault, hfault⟩ | ⟨started, entries, hgoes⟩ :=
    readLines_header hheader (numbered 0 before) (before.length + 1)
  · rw [hfault] at hread
    contradiction
  rw [hgoes] at hread ⊢
  cases hrest : readLines (some (String.ofList tag)) started
      (numbered (before.length + 1) after) with
  | error fault =>
    rw [hrest] at hread
    contradiction
  | ok rest =>
    rw [hrest] at hread
    obtain rfl := Except.ok.inj hread
    have hnumbered : ((numbered (before.length + 1) after).map Prod.snd).Perm
        ((numbered (before.length + 1) after').map Prod.snd) := by
      rwa [map_snd_numbered, map_snd_numbered]
    obtain ⟨rest', hrest', hversion, hfillings⟩ := readLines_some_perm hnumbered hrest
    rw [hrest']
    refine ⟨_, rfl, hversion, ?_⟩
    simp only [fillings, List.map_append]
    exact hfillings.append_left _

end Worksheet.SaveFile
