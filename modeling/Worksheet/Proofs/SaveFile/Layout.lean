import Mathlib.Data.List.Forall2
import Mathlib.Logic.Relation
import Worksheet.Proofs.SaveFile.Line
import Worksheet.Proofs.SaveFile.LineOrder

/-!
# The layout of a saved sheet

Blanks around what a line says make no difference, and neither do blank lines and comments, except
to the numbers of the lines after them. The first line with a fault decides the error, whatever
comes after it.

Both rest on `readLines` using a line for what `readLine` makes of it, and nothing else: lines that
are read alike (`readLines_congr`) may stand for one another, and a line that is skipped may be left
out (`readLines_skip`).

* `readLine_of_padded`: added blanks do not change how a line is read.
* `readLines_renumbered`: with other numbers, the entries and faults have these numbers.
* `readLines_eq_error`: the lines up to the first fault are enough for it.
* `reading_is_line_local`: the whole text.
-/

namespace Worksheet.SaveFile

open Text (isBlank)

/-! ## Changes of the layout -/

/-- The line with blanks added where they mean nothing: at its ends, around the first colon if it
has no version tag, and before the tag if it has one. -/
inductive Padded : List Char → List Char → Prop
  | ends (before line after : List Char) (hbefore : ∀ c ∈ before, isBlank c = true)
      (hafter : ∀ c ∈ after, isBlank c = true) : Padded line (before ++ line ++ after)
  | colon (name before after value : List Char) (hname : ':' ∉ name)
      (hversion : ¬ versionWord <+: Text.trimLeft name)
      (hbefore : ∀ c ∈ before, isBlank c = true) (hafter : ∀ c ∈ after, isBlank c = true) :
      Padded (name ++ ':' :: value) (name ++ before ++ ':' :: (after ++ value))
  | tag (start blanks tag : List Char) (hstart : ∀ c ∈ start, isBlank c = true)
      (hblanks : ∀ c ∈ blanks, isBlank c = true) :
      Padded (start ++ versionWord ++ tag) (start ++ versionWord ++ (blanks ++ tag))

/-- The lines of the second text are those of the first, with blanks added in as many places. -/
def LaidOut (text text' : String) : Prop :=
  List.Forall₂ (Relation.ReflTransGen Padded) (Text.lines text.toList) (Text.lines text'.toList)

/-- The text with a carriage return before every newline. -/
def withReturns (text : List Char) : List Char :=
  text.flatMap fun c => if c = '\n' then ['\r', '\n'] else [c]

/-- The second text has one more line, after the first `n` lines. -/
def Inserts (n : Nat) (line : List Char) (text text' : String) : Prop :=
  ∃ before after, Text.lines text.toList = before ++ after ∧
    Text.lines text'.toList = before ++ line :: after ∧ before.length = n

/-- The number of a line after one more line after the first `n`. -/
def numberAfter (n number : Nat) : Nat := if n < number then number + 1 else number

/-- What is read with other numbers of the lines. That there is no version tag is said of line 1 in
any case. -/
def renumbered (number : Nat → Nat) : Except LineFault SaveFile → Except LineFault SaveFile
  | .ok file =>
    .ok { file with entries := file.entries.map fun entry =>
      { entry with line := number entry.line } }
  | .error ⟨line, fault⟩ =>
    .error ⟨if fault = .missingVersion then line else number line, fault⟩

/-- The first `k` lines of both texts are the same, but for blanks at their ends. -/
def SameUpTo (k : Nat) (text text' : String) : Prop :=
  ((Text.lines text.toList).take k).map Text.trim =
    ((Text.lines text'.toList).take k).map Text.trim

/-! ## Lines -/

/-- **Added blanks do not change how a line is read.** -/
theorem readLine_of_padded {line line' : List Char} (h : Padded line line') :
    readLine line = readLine line' := by
  cases h with
  | ends before line after hbefore hafter =>
    refine readLine_congr ?_
    rw [Text.trim_append_blanks hafter, Text.trim_blanks_append hbefore]
  | colon name before after value hname hversion hbefore hafter =>
    have hname' : ':' ∉ name ++ before := by
      rw [List.mem_append, not_or]
      exact ⟨hname, fun h => absurd (hbefore _ h) (by decide)⟩
    obtain ⟨left, hleft, hblank, hnil⟩ := Text.trimLeft_append_blanks name hbefore
    have hversion' : ¬ versionWord <+: Text.trimLeft (name ++ before) := by
      rw [hleft, versionWord_prefix_append_iff]
      · exact hversion
      · intro c hc hword
        have hc := hblank c (List.mem_of_mem_head? hc)
        rw [isBlank_of_mem_versionWord hword] at hc
        contradiction
    have hhead : (Text.trimLeft (name ++ before)).head? = (Text.trimLeft name).head? := by
      rw [hleft]
      cases hcases : Text.trimLeft name with
      | nil => rw [hnil hcases]; rfl
      | cons c rest => rfl
    rw [readLine_colon hname hversion, readLine_colon hname' hversion', hhead,
      Text.trim_append_blanks hbefore, Text.trim_blanks_append hafter]
  | tag start blanks tag hstart hblanks =>
    rw [readLine_version hstart, readLine_version hstart, Text.trim_blanks_append hblanks]

theorem readValue_ne_missingVersion (value : List Char) :
    readValue value ≠ .error .missingVersion := by
  unfold readValue
  dsimp only
  split
  · simp
  · split
    · simp
    · split
      · split <;> simp
      · simp

/-- No line by itself has the fault that there is no version tag. -/
theorem readLine_ne_missingVersion (line : List Char) :
    readLine line ≠ .error .missingVersion := by
  unfold readLine readEntry
  dsimp only
  split
  · simp
  · split
    · simp
    · split
      · simp
      · rename_i value _
        split
        · simp
        · cases hvalue : readValue (Text.trim value) with
          | ok payload => simp [bind, Except.bind, pure, Except.pure]
          | error fault =>
            rintro ⟨⟩
            exact readValue_ne_missingVersion _ hvalue

/-! ## One line and those after it -/

/-- The cells that a line fills, before those that the lines after it fill. -/
def fill (number : Nat) (filled : List (String × Payload)) (file : SaveFile) : SaveFile :=
  { file with entries := (filled.map fun (name, payload) => ⟨number, name, payload⟩) ++
      file.entries }

/-- **What one line does**: it has a fault, or it decides how the reading goes on, with what it
fills before what is filled later. Its number matters for nothing else. -/
theorem readLines_cons (version : Option String) (started : Bool) (line : List Char) :
    (∃ fault, fault ≠ .missingVersion ∧ ∀ number lines,
        readLines version started ((number, line) :: lines) = .error ⟨number, fault⟩) ∨
      ∃ version' started' filled, (version.isSome = true → version'.isSome = true) ∧
        ∀ number lines, readLines version started ((number, line) :: lines) =
          (readLines version' started' lines).map (fill number filled) := by
  simp only [readLines]
  cases hline : readLine line with
  | error fault =>
    refine Or.inl ⟨fault, ?_, fun _ _ => rfl⟩
    rintro rfl
    exact readLine_ne_missingVersion line hline
  | ok content =>
    cases content with
    | skipped =>
      refine Or.inr ⟨version, started, [], id, fun number lines => ?_⟩
      dsimp only
      cases readLines version started lines <;> rfl
    | version tag =>
      dsimp only
      split
      · exact Or.inl ⟨.misplacedVersion, by simp, fun _ _ => rfl⟩
      · split
        · exact Or.inl ⟨.missingTag, by simp, fun _ _ => rfl⟩
        · refine Or.inr ⟨some (String.ofList tag), started, [], fun _ => rfl,
            fun number lines => ?_⟩
          cases readLines (some (String.ofList tag)) started lines <;> rfl
    | entry name payload =>
      refine Or.inr ⟨version, true, [(String.ofList name, payload)], id, fun number lines => ?_⟩
      dsimp only
      cases readLines version true lines <;> rfl

theorem map_fill_eq_error_iff {read : Except LineFault SaveFile} {number : Nat}
    {filled : List (String × Payload)} {fault : LineFault} :
    read.map (fill number filled) = .error fault ↔ read = .error fault := by
  cases read <;> simp [Except.map]

theorem renumbered_map_fill (f : Nat → Nat) (read : Except LineFault SaveFile) (number : Nat)
    (filled : List (String × Payload)) :
    renumbered f (read.map (fill number filled)) =
      (renumbered f read).map (fill (f number) filled) := by
  cases read with
  | error fault => rfl
  | ok file => simp [Except.map, renumbered, fill]

variable {version : Option String} {started : Bool}

/-- **With other numbers of the lines**, the entries and faults have these numbers. -/
theorem readLines_renumbered (f : Nat → Nat) (lines : List (Nat × List Char)) :
    readLines version started (lines.map (Prod.map f id)) =
      renumbered f (readLines version started lines) := by
  induction lines generalizing version started with
  | nil => cases version <;> rfl
  | cons numbered lines ih =>
    obtain ⟨number, line⟩ := numbered
    rw [List.map_cons]
    rcases readLines_cons version started line with
      ⟨fault, hfault, herror⟩ | ⟨version', started', filled, -, hgoes⟩
    · rw [Prod.map_apply, id_eq, herror, herror, renumbered, if_neg hfault]
    · rw [Prod.map_apply, id_eq, hgoes, hgoes, ih, renumbered_map_fill]

/-- A line that is skipped may be left out. -/
theorem readLines_skip {line : List Char} (hline : readLine line = .ok .skipped) (number : Nat)
    (before after : List (Nat × List Char)) :
    readLines version started (before ++ (number, line) :: after) =
      readLines version started (before ++ after) := by
  have hskip : ∀ version started, readLines version started ((number, line) :: after) =
      readLines version started after := by
    intro version started
    rw [readLines, hline]
  rcases readLines_append before version started with ⟨fault, herror⟩ | ⟨_, _, _, hgoes⟩
  · rw [herror, herror]
  · rw [hgoes, hgoes, hskip]

/-! ## Numbered lines -/

theorem numbered_cons (n : Nat) (line : List Char) (lines : List (List Char)) :
    numbered n (line :: lines) = (n + 1, line) :: numbered (n + 1) lines := rfl

theorem numbered_append (n : Nat) (before after : List (List Char)) :
    numbered n (before ++ after) = numbered n before ++ numbered (n + before.length) after := by
  rw [numbered, List.zipIdx_append, List.map_append]
  rfl

theorem map_numberAfter_of_le {n m : Nat} {lines : List (List Char)} (h : m + lines.length ≤ n) :
    (numbered m lines).map (Prod.map (numberAfter n) id) = numbered m lines := by
  induction lines generalizing m with
  | nil => rfl
  | cons line lines ih =>
    rw [List.length_cons] at h
    have hnumber : numberAfter n (m + 1) = m + 1 := if_neg (by omega)
    rw [numbered_cons, List.map_cons, ih (by omega), Prod.map_apply, hnumber, id_eq]

theorem map_numberAfter_of_ge {n m : Nat} (h : n ≤ m) (lines : List (List Char)) :
    (numbered m lines).map (Prod.map (numberAfter n) id) = numbered (m + 1) lines := by
  induction lines generalizing m with
  | nil => rfl
  | cons line lines ih =>
    have hnumber : numberAfter n (m + 1) = m + 1 + 1 := if_pos (by omega)
    rw [numbered_cons, List.map_cons, ih (by omega), Prod.map_apply, hnumber, id_eq, numbered_cons]

/-- Lines that are read alike may stand for one another. -/
theorem readLines_congr {lines lines' : List (List Char)}
    (h : List.Forall₂ (fun line line' => readLine line = readLine line') lines lines') (n : Nat) :
    readLines version started (numbered n lines) =
      readLines version started (numbered n lines') := by
  induction h generalizing version started n with
  | nil => rfl
  | cons hline _ ih =>
    simp only [numbered_cons, readLines, hline]
    split
    · rfl
    · exact ih (n + 1)
    · rw [ih (n + 1)]
    · rw [ih (n + 1)]

/-- **The lines up to the first fault are enough for it**, if the fault is that of a line. -/
theorem readLines_eq_error {lines : List (List Char)} {n k : Nat} {fault : Fault}
    (hread : readLines version started (numbered n lines) = .error ⟨k, fault⟩)
    (hfault : fault ≠ .missingVersion) (more : List (List Char)) :
    n < k ∧ readLines version started (numbered n (lines.take (k - n) ++ more)) =
      .error ⟨k, fault⟩ := by
  induction lines generalizing version started n with
  | nil =>
    cases version with
    | none =>
      obtain ⟨rfl, rfl⟩ := LineFault.mk.inj (Except.error.inj hread)
      contradiction
    | some tag => contradiction
  | cons line lines ih =>
    rw [numbered_cons] at hread
    rcases readLines_cons version started line with
      ⟨fault', -, herror⟩ | ⟨version', started', filled, -, hgoes⟩
    · rw [herror] at hread
      obtain ⟨rfl, rfl⟩ := LineFault.mk.inj (Except.error.inj hread)
      rw [Nat.add_sub_cancel_left, List.take_succ_cons, List.cons_append, numbered_cons, herror]
      exact ⟨Nat.lt_succ_self n, rfl⟩
    · rw [hgoes, map_fill_eq_error_iff] at hread
      obtain ⟨hlt, hmore⟩ := ih hread
      have htake : k - n = k - (n + 1) + 1 := by omega
      rw [htake, List.take_succ_cons, List.cons_append, numbered_cons, hgoes,
        map_fill_eq_error_iff]
      exact ⟨by omega, hmore⟩

/-- With a version tag, there is no fault that there is none. -/
theorem readLines_some_ne {lines : List (Nat × List Char)} (hversion : version.isSome = true)
    (number : Nat) : readLines version started lines ≠ .error ⟨number, .missingVersion⟩ := by
  induction lines generalizing version started with
  | nil =>
    obtain ⟨tag, rfl⟩ := Option.isSome_iff_exists.mp hversion
    simp [readLines]
  | cons numbered lines ih =>
    obtain ⟨_, line⟩ := numbered
    rcases readLines_cons version started line with
      ⟨fault, hfault, herror⟩ | ⟨version', started', filled, hsome, hgoes⟩
    · rw [herror]
      rintro ⟨⟩
      exact hfault rfl
    · rw [hgoes, ne_eq, map_fill_eq_error_iff]
      exact ih (hsome hversion)

/-- **There is no version tag** exactly when every line may come after one. -/
theorem readLines_none_eq_error_iff {lines : List (Nat × List Char)} {k : Nat} :
    readLines none started lines = .error ⟨k, .missingVersion⟩ ↔
      k = 1 ∧ ∀ line ∈ lines.map Prod.snd, MayFollow line := by
  induction lines generalizing started with
  | nil => simp [readLines, eq_comm]
  | cons numbered lines ih =>
    obtain ⟨number, line⟩ := numbered
    rw [List.map_cons, List.forall_mem_cons, readLines]
    cases hline : readLine line with
    | error fault =>
      have hfollows : ¬ MayFollow line := by simp [MayFollow, hline]
      refine iff_of_false ?_ fun h => hfollows h.2.1
      rintro ⟨⟩
      exact readLine_ne_missingVersion line hline
    | ok content =>
      cases content with
      | skipped => simp only [ih, MayFollow, hline, true_or, true_and]
      | version tag =>
        have hfollows : ¬ MayFollow line := by simp [MayFollow, hline]
        refine iff_of_false ?_ fun h => hfollows h.2.1
        dsimp only
        split
        · simp
        · split
          · simp
          · exact readLines_some_ne rfl k
      | entry name payload =>
        have hfollows : MayFollow line := Or.inr ⟨name, payload, hline⟩
        rw [and_iff_right hfollows, ← ih]
        cases readLines none true lines <;> simp [bind, Except.bind, pure, Except.pure]

/-! ## The whole text -/

theorem read_eq_numbered (text : String) :
    read text = readLines none false (numbered 0 (Text.lines text.toList)) := rfl

/-- Texts whose lines are read alike are read alike. -/
theorem read_congr {text text' : String}
    (h : List.Forall₂ (fun line line' => readLine line = readLine line')
      (Text.lines text.toList) (Text.lines text'.toList)) : read text = read text' := by
  rw [read_eq_numbered, read_eq_numbered, readLines_congr h]

theorem read_of_laidOut {text text' : String} (h : LaidOut text text') :
    read text = read text' := by
  refine read_congr (List.Forall₂.imp (fun line line' hline => ?_) h)
  induction hline with
  | refl => rfl
  | tail _ hpadded ih => exact ih.trans (readLine_of_padded hpadded)

theorem withReturns_of_notMem {line : List Char} (hline : '\n' ∉ line) :
    withReturns line = line := by
  induction line with
  | nil => rfl
  | cons c line ih =>
    rw [List.mem_cons, not_or] at hline
    have hrest : withReturns line = line := ih hline.2
    rw [withReturns, List.flatMap_cons, if_neg (Ne.symm hline.1), ← withReturns, hrest]
    rfl

theorem withReturns_append {line : List Char} (hline : '\n' ∉ line) (rest : List Char) :
    withReturns (line ++ '\n' :: rest) = line ++ ['\r'] ++ '\n' :: withReturns rest := by
  have hkept := withReturns_of_notMem hline
  rw [withReturns] at hkept
  rw [withReturns, List.flatMap_append, hkept, List.flatMap_cons, if_pos rfl, ← withReturns]
  simp

/-- Carriage returns before the newlines are blanks at the ends of lines. -/
theorem padded_withReturns (text : List Char) :
    List.Forall₂ (Relation.ReflTransGen Padded) (Text.lines text)
      (Text.lines (withReturns text)) := by
  -- Strong induction on the length: what follows the first newline is shorter.
  induction hn : text.length using Nat.strongRecOn generalizing text with
  | ind n ih =>
    by_cases hnewline : '\n' ∈ text
    · obtain ⟨line, rest, rfl, hline⟩ := List.eq_append_cons_of_mem hnewline
      have hreturn : '\n' ∉ line ++ ['\r'] := by simp [hline]
      rw [withReturns_append hline, Text.lines_append hline, Text.lines_append hreturn]
      refine .cons (.single ?_) (ih rest.length ?_ rest rfl)
      · exact .ends [] line ['\r'] (List.forall_mem_nil _) (List.forall_mem_singleton.mpr rfl)
      · rw [← hn, List.length_append, List.length_cons]
        omega
    · rw [withReturns_of_notMem hnewline]
      exact List.forall₂_same.mpr fun _ _ => .refl

/-- **One more line that is skipped** only changes the numbers of the lines after it. -/
theorem read_of_inserts {n : Nat} {line : List Char} {text text' : String}
    (h : Inserts n line text text') (hline : readLine line = .ok .skipped) :
    read text' = renumbered (numberAfter n) (read text) := by
  obtain ⟨before, after, hlines, hlines', rfl⟩ := h
  have hnumbers : numbered 0 before ++ numbered (before.length + 1) after =
      (numbered 0 (before ++ after)).map (Prod.map (numberAfter before.length) id) := by
    rw [numbered_append, List.map_append, map_numberAfter_of_le (Nat.zero_add _).le,
      Nat.zero_add, map_numberAfter_of_ge le_rfl]
  rw [read_eq_numbered, read_eq_numbered, hlines, hlines', numbered_append, Nat.zero_add,
    numbered_cons, readLines_skip hline, hnumbers, readLines_renumbered]

/-- **The first line with a fault** decides the error. -/
theorem read_of_sameUpTo {k : Nat} {fault : Fault} {text text' : String}
    (hread : read text = .error ⟨k, fault⟩) (hfault : fault ≠ .missingVersion)
    (h : SameUpTo k text text') : read text' = .error ⟨k, fault⟩ := by
  have hsame : List.Forall₂ (fun line line' => readLine line = readLine line')
      ((Text.lines text'.toList).take k) ((Text.lines text.toList).take k) := by
    rw [SameUpTo, eq_comm, ← List.forall₂_eq_eq_eq, List.forall₂_map_left_iff,
      List.forall₂_map_right_iff] at h
    exact h.imp fun _ _ htrim => readLine_congr htrim
  have hmore := (readLines_eq_error hread hfault ((Text.lines text'.toList).drop k)).2
  rw [Nat.sub_zero] at hmore
  rw [← hmore, read_eq_numbered]
  conv_lhs => rw [← List.take_append_drop k (Text.lines text'.toList)]
  refine readLines_congr (List.rel_append hsame ?_) 0
  exact List.forall₂_same.mpr fun _ _ => rfl

/-- **Reading is line by line.** Carriage returns before newlines, and blanks around what a line
says, make no difference. One more line that is blank or a comment only changes the numbers of the
lines after it. The first line with a fault decides the error, whatever comes after it, and that
there is no version tag is said where each line is skipped or fills a cell. -/
theorem reading_is_line_local (text : String) :
    read (String.ofList (withReturns text.toList)) = read text ∧
    (∀ text', LaidOut text text' → read text' = read text) ∧
    (∀ n line text', Inserts n line text text' →
      Text.trim line = [] ∨ (Text.trim line).head? = some '#' →
        read text' = renumbered (numberAfter n) (read text)) ∧
    (∀ k fault, read text = .error ⟨k, fault⟩ → fault ≠ .missingVersion →
      ∀ text', SameUpTo k text text' → read text' = .error ⟨k, fault⟩) ∧
    ∀ k, read text = .error ⟨k, .missingVersion⟩ ↔
      k = 1 ∧ ∀ line ∈ Text.lines text.toList, MayFollow line := by
  refine ⟨?_, ?_, ?_, ?_, ?_⟩
  · refine (read_of_laidOut ?_).symm
    rw [LaidOut, String.toList_ofList]
    exact padded_withReturns text.toList
  · exact fun text' h => (read_of_laidOut h).symm
  · exact fun n line text' h hline => read_of_inserts h (readLine_of_trim hline)
  · exact fun k fault hread hfault text' h => read_of_sameUpTo hread hfault h
  · intro k
    rw [read_eq_numbered, readLines_none_eq_error_iff, map_snd_numbered]

/-- A saved sheet whose third line has no colon. -/
def unseparated : String := "@version v\nA1: \"a : b\"\nB1 8\nC1: 2\n"

/-- The same with more blanks. -/
def unseparatedSpaced : String := "@version  v\nA1 :\t \"a : b\"\r\nB1 8\nC1: 2\n"

/-- The same with a comment after the second line. -/
def unseparatedNoted : String := "@version v\nA1: \"a : b\"\n # B1\nB1 8\nC1: 2\n"

/-- The same with other lines after the third. -/
def unseparatedCut : String := "@version v\nA1: \"a : b\"\nB1 8 \n:\n@version w"

theorem laidOut_unseparated : LaidOut unseparated unseparatedSpaced := by
  have hlines : Text.lines unseparated.toList =
      ["@version v".toList, "A1: \"a : b\"".toList, "B1 8".toList, "C1: 2".toList] := by
    decide +kernel
  have hlines' : Text.lines unseparatedSpaced.toList =
      ["@version  v".toList, "A1 :\t \"a : b\"\r".toList, "B1 8".toList, "C1: 2".toList] := by
    decide +kernel
  have hversion : Padded "@version v".toList "@version  v".toList :=
    .tag [] [' '] [' ', 'v'] (List.forall_mem_nil _) (List.forall_mem_singleton.mpr rfl)
  have hcolon : Padded "A1: \"a : b\"".toList "A1 :\t \"a : b\"".toList :=
    .colon ['A', '1'] [' '] ['\t'] " \"a : b\"".toList
      (by decide) (by decide) (List.forall_mem_singleton.mpr rfl)
      (List.forall_mem_singleton.mpr rfl)
  have hend : Padded "A1 :\t \"a : b\"".toList "A1 :\t \"a : b\"\r".toList :=
    .ends [] _ ['\r'] (List.forall_mem_nil _) (List.forall_mem_singleton.mpr rfl)
  rw [LaidOut, hlines, hlines']
  exact .cons (.single hversion) (.cons (.tail (.single hcolon) hend) (.cons .refl
    (.cons .refl .nil)))

theorem unseparated_stays_refused :
    LaidOut unseparated unseparatedSpaced ∧
      read unseparatedSpaced = .error ⟨3, .missingSeparator⟩ ∧
      Inserts 2 " # B1".toList unseparated unseparatedNoted ∧
      read unseparatedNoted = .error ⟨4, .missingSeparator⟩ ∧
      SameUpTo 3 unseparated unseparatedCut ∧
      read unseparatedCut = .error ⟨3, .missingSeparator⟩ := by
  have hread : read unseparated = .error ⟨3, .missingSeparator⟩ := by decide +kernel
  have hinserts : Inserts 2 " # B1".toList unseparated unseparatedNoted :=
    ⟨["@version v".toList, "A1: \"a : b\"".toList], ["B1 8".toList, "C1: 2".toList],
      by decide +kernel, by decide +kernel, rfl⟩
  have hsame : SameUpTo 3 unseparated unseparatedCut := by
    unfold SameUpTo
    decide +kernel
  obtain ⟨-, hlaidOut, hinsert, hfirst, -⟩ := reading_is_line_local unseparated
  have hspaced := hlaidOut _ laidOut_unseparated
  have hnoted := hinsert _ _ _ hinserts (Or.inr (by decide))
  rw [hread] at hspaced hnoted
  exact ⟨laidOut_unseparated, hspaced, hinserts, hnoted, hsame,
    hfirst _ _ hread (by decide) _ hsame⟩

end Worksheet.SaveFile
