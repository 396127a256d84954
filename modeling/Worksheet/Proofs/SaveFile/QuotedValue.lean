import Mathlib.Data.List.Nodup
import Worksheet.Proofs.Number.Literal
import Worksheet.Proofs.SaveFile.Layout
import Worksheet.Proofs.Text.Quoted

/-!
# Which values in quotes are read

A value that starts with a quote is taken for a text exactly when its last character is another
quote. Every text that is closed by its last character is read so. But two other kinds of values end
with a quote as well, and no line is refused for them: the last quote may be taken along by a
backslash, and the text may have been closed before.

* `readValue_quote`: what a value gives that starts with a quote.
* `readLines_eq_error_cases`, `readLines_refused`: which line a fault belongs to.
* `quoted_value_read_iff`: the line of such a value in a text.
* `escaped_and_early_quotes_are_read`: a text with a value of either kind.
-/

namespace Worksheet.SaveFile

open Text.Quoted (Closed LastEscaped ClosedEarly decode)

/-- The line fills the cell `name` with a value that starts with a quote; `rest` is what comes after
this quote. -/
def FillsQuoted (line name rest : List Char) : Prop :=
  ∃ before after, line = before ++ ':' :: after ∧ ':' ∉ before ∧
    ¬ versionWord <+: Text.trimLeft before ∧ (Text.trimLeft before).head? ≠ some '#' ∧
    Text.trim before = name ∧ name ≠ [] ∧ Text.trim after = '"' :: rest

/-! ## The value -/

theorem read?_quote (rest : List Char) : Number.Binary64.read? ('"' :: rest) = none := by
  have hquote : Char.toLower '"' = '"' := by decide
  have hscan := Number.Numeral.scan?_cons_eq_none (c := '"') rfl (by decide) rest
  simp [Number.Binary64.read?, Number.Binary64.readUnsigned?, hquote, hscan]

/-- **A value that starts with a quote** is a text if its last character is another one. -/
theorem readValue_quote (rest : List Char) :
    readValue ('"' :: rest) =
      if rest.getLast? = some '"' then .ok (.text (String.ofList (decode rest.dropLast)))
      else .error (.invalidValue (String.ofList ('"' :: rest))) := by
  rw [readValue, read?_quote, List.tail_cons]
  cases rest with
  | nil => simp
  | cons c rest => simp [List.getLast?_cons_cons]

section Line

variable {line name rest : List Char}

theorem readLine_of_fillsQuoted (h : FillsQuoted line name rest) :
    readLine line = (readValue ('"' :: rest)).map (Line.entry name) := by
  obtain ⟨before, after, rfl, hcolon, hversion, hhash, rfl, hname, hvalue⟩ := h
  rw [readLine_colon hcolon hversion, if_neg hhash, hvalue, entryOf,
    List.isEmpty_eq_false_iff.mpr hname]
  cases readValue ('"' :: rest) <;> rfl

/-- The line fills the cell if the last character is a quote. -/
theorem readLine_eq_entry (h : FillsQuoted line name rest) (hlast : rest.getLast? = some '"') :
    readLine line = .ok (.entry name
      (.text (String.ofList (decode rest.dropLast)))) := by
  rw [readLine_of_fillsQuoted h, readValue_quote, if_pos hlast]
  rfl

theorem readLine_eq_invalid (h : FillsQuoted line name rest) (hlast : rest.getLast? ≠ some '"') :
    readLine line = .error (.invalidValue (String.ofList ('"' :: rest))) := by
  rw [readLine_of_fillsQuoted h, readValue_quote, if_neg hlast]
  rfl

end Line

/-! ## The line in a text -/

section Lines

variable {version : Option String} {started : Bool} {lines : List (Nat × List Char)}
  {line name : List Char} {number : Nat} {file : SaveFile}

/-- **A fault belongs to a line** that fills no cell, unless it is that there is no version tag. -/
theorem readLines_eq_error_cases {k : Nat} {fault : Fault}
    (h : readLines version started lines = .error ⟨k, fault⟩) :
    fault = .missingVersion ∨
      ∃ line, (k, line) ∈ lines ∧ ∀ name payload, readLine line ≠ .ok (.entry name payload) := by
  induction lines generalizing version started with
  | nil =>
    cases version with
    | none => exact Or.inl (LineFault.mk.inj (Except.error.inj h)).2.symm
    | some tag => contradiction
  | cons numbered lines ih =>
    obtain ⟨n, line⟩ := numbered
    cases hline : readLine line with
    | error fault' =>
      rw [readLines, hline] at h
      obtain ⟨rfl, rfl⟩ := LineFault.mk.inj (Except.error.inj h)
      exact Or.inr ⟨line, List.mem_cons_self, by simp [hline]⟩
    | ok content =>
      have hlater : ∀ version' started', readLines version' started' lines = .error ⟨k, fault⟩ →
          fault = .missingVersion ∨ ∃ other, (k, other) ∈ (n, line) :: lines ∧
            ∀ name payload, readLine other ≠ .ok (.entry name payload) := by
        intro version' started' hrest
        rcases ih hrest with hversion | ⟨other, hmem, hother⟩
        · exact Or.inl hversion
        · exact Or.inr ⟨other, List.mem_cons_of_mem _ hmem, hother⟩
      rw [readLines, hline] at h
      cases content with
      | skipped => exact hlater _ _ h
      | version tag =>
        have hhere : n = k → fault = .missingVersion ∨ ∃ other, (k, other) ∈ (n, line) :: lines ∧
            ∀ name payload, readLine other ≠ .ok (.entry name payload) := by
          rintro rfl
          exact Or.inr ⟨line, List.mem_cons_self, by simp [hline]⟩
        dsimp only at h
        split at h
        · exact hhere (LineFault.mk.inj (Except.error.inj h)).1
        · split at h
          · exact hhere (LineFault.mk.inj (Except.error.inj h)).1
          · exact hlater _ _ h
      | entry name payload =>
        cases hrest : readLines version true lines with
        | error fault' =>
          rw [hrest] at h
          obtain rfl := Except.error.inj h
          exact hlater _ _ hrest
        | ok rest =>
          rw [hrest] at h
          contradiction

/-- A line that is read as an entry is among the entries, with its number. -/
theorem mem_entries {payload : Payload} (h : readLines version started lines = .ok file)
    (hmem : (number, line) ∈ lines) (hline : readLine line = .ok (.entry name payload)) :
    ⟨number, String.ofList name, payload⟩ ∈ file.entries := by
  induction lines generalizing version started file with
  | nil => contradiction
  | cons numbered lines ih =>
    obtain ⟨n, other⟩ := numbered
    rcases List.mem_cons.mp hmem with hhere | hlater
    · obtain ⟨rfl, rfl⟩ := Prod.mk.inj hhere
      obtain ⟨rest, -, rfl⟩ := (readLines_entry_eq_ok hline).mp h
      exact List.mem_cons_self
    · rcases readLines_cons version started other with
        ⟨fault, -, herror⟩ | ⟨version', started', filled, -, hgoes⟩
      · rw [herror] at h
        contradiction
      · rw [hgoes] at h
        cases hrest : readLines version' started' lines with
        | error fault =>
          rw [hrest] at h
          contradiction
        | ok rest =>
          rw [hrest] at h
          obtain rfl := Except.ok.inj h
          exact List.mem_append_right _ (ih hrest hlater)

/-- **A line with a fault** is refused, unless a line before it is. -/
theorem readLines_refused {fault : Fault} (hline : readLine line = .error fault)
    (version : Option String) (started : Bool) (before after : List (Nat × List Char)) :
    ∃ k fault', readLines version started (before ++ (number, line) :: after) =
        .error ⟨k, fault'⟩ ∧
      (k = number ∧ fault' = fault ∨ k ∈ before.map Prod.fst ∧ fault' ≠ .missingVersion) := by
  induction before generalizing version started with
  | nil =>
    rw [List.nil_append, readLines, hline]
    exact ⟨number, fault, rfl, Or.inl ⟨rfl, rfl⟩⟩
  | cons numbered before ih =>
    obtain ⟨n, other⟩ := numbered
    rw [List.map_cons]
    rcases readLines_cons version started other with
      ⟨fault', hfault, herror⟩ | ⟨version', started', filled, -, hgoes⟩
    · refine ⟨n, fault', herror n _, Or.inr ⟨List.mem_cons_self, hfault⟩⟩
    · obtain ⟨k, fault', herror, hcases⟩ := ih version' started'
      refine ⟨k, fault', ?_, hcases.imp_right fun h => ⟨List.mem_cons_of_mem n h.1, h.2⟩⟩
      rw [List.cons_append, hgoes, map_fill_eq_error_iff, herror]

end Lines

/-! ## The whole text -/

section Text

variable {text : String} {line name rest : List Char} {number : Nat}

/-- The numbers of the lines ascend. -/
theorem pairwise_numberedLines (text : List Char) :
    (Text.numberedLines text).Pairwise fun first second => first.1 < second.1 := by
  have hindices := List.pairwise_lt_range' (s := 0) (n := (Text.lines text).length)
  rw [← List.zipIdx_map_snd 0 (Text.lines text), List.pairwise_map] at hindices
  rw [Text.numberedLines, List.pairwise_map]
  exact hindices.imp fun h => Nat.succ_lt_succ h

theorem eq_of_mem_numberedLines {other : List Char}
    (h : (number, line) ∈ Text.numberedLines text.toList)
    (h' : (number, other) ∈ Text.numberedLines text.toList) : line = other := by
  have hnodup : ((Text.numberedLines text.toList).map Prod.fst).Nodup :=
    List.pairwise_map.mpr ((pairwise_numberedLines text.toList).imp Nat.ne_of_lt)
  exact (Prod.mk.inj (List.inj_on_of_nodup_map hnodup h h' rfl)).2

/-- A line with a fault is refused with its number, unless a line before it is refused. -/
theorem read_refused {fault : Fault} (hmem : (number, line) ∈ Text.numberedLines text.toList)
    (hline : readLine line = .error fault) :
    read text = .error ⟨number, fault⟩ ∨
      ∃ k < number, ∃ fault', fault' ≠ .missingVersion ∧ read text = .error ⟨k, fault'⟩ := by
  obtain ⟨before, after, hsplit⟩ := List.append_of_mem hmem
  have hascend := pairwise_numberedLines text.toList
  rw [hsplit, List.pairwise_append] at hascend
  rw [read, hsplit]
  obtain ⟨k, fault', herror, ⟨rfl, rfl⟩ | ⟨hk, hfault⟩⟩ :=
    readLines_refused hline none false before after
  · exact Or.inl herror
  · obtain ⟨earlier, hearlier, rfl⟩ := List.mem_map.mp hk
    exact Or.inr ⟨_, hascend.2.2 earlier hearlier _ List.mem_cons_self, fault', hfault, herror⟩

/-- **A value that starts with a quote is read** exactly when another quote is its last character.
So a text is read if that quote closes it; but the value is also read if a backslash takes the quote
along, or if the text was closed before. Any other such value is refused with the number of its
line, unless a line before it is refused. -/
theorem quoted_value_read_iff (hmem : (number, line) ∈ Text.numberedLines text.toList)
    (hline : FillsQuoted line name rest) :
    (∀ file, read text = .ok file → (Closed rest ∨ LastEscaped rest ∨ ClosedEarly rest) ∧
      ⟨number, String.ofList name,
        .text (String.ofList (decode rest.dropLast))⟩ ∈ file.entries) ∧
    (¬ (Closed rest ∨ LastEscaped rest ∨ ClosedEarly rest) →
      read text = .error ⟨number, .invalidValue (String.ofList ('"' :: rest))⟩ ∨
        ∃ k < number, ∃ fault, fault ≠ .missingVersion ∧ read text = .error ⟨k, fault⟩) ∧
    (Closed rest ∨ LastEscaped rest ∨ ClosedEarly rest →
      ∀ fault, read text = .error ⟨number, fault⟩ → fault = .missingVersion) ∧
    (LastEscaped rest ∨ ClosedEarly rest → ¬ Closed rest) := by
  rw [← Text.Quoted.getLast?_eq_quote_iff]
  refine ⟨?_, ?_, ?_, ?_⟩
  · intro file hread
    have hlast : rest.getLast? = some '"' := by
      by_contra hlast
      rcases read_refused hmem (readLine_eq_invalid hline hlast) with herror | ⟨_, _, _, _, herror⟩
      · rw [hread] at herror
        contradiction
      · rw [hread] at herror
        contradiction
    exact ⟨hlast, mem_entries hread hmem (readLine_eq_entry hline hlast)⟩
  · exact fun hlast => read_refused hmem (readLine_eq_invalid hline hlast)
  · intro hlast fault herror
    rcases readLines_eq_error_cases herror with hversion | ⟨other, hother, hfills⟩
    · exact hversion
    · obtain rfl := eq_of_mem_numberedLines hmem hother
      exact absurd (readLine_eq_entry hline hlast) (hfills _ _)
  · rintro (hescaped | hearly)
    · exact Text.Quoted.not_closed_of_lastEscaped hescaped
    · exact Text.Quoted.not_closed_of_closedEarly hearly

end Text

/-- A saved sheet with two values that end with a quote which does not close their text. -/
def damaged : String := "@version v\nA1: \"a\\\"\nB1: \"a\"b\"\n"

theorem fillsQuoted_damaged :
    ((2, "A1: \"a\\\"".toList) ∈ Text.numberedLines damaged.toList ∧
        FillsQuoted "A1: \"a\\\"".toList "A1".toList "a\\\"".toList) ∧
      (3, "B1: \"a\"b\"".toList) ∈ Text.numberedLines damaged.toList ∧
        FillsQuoted "B1: \"a\"b\"".toList "B1".toList "a\"b\"".toList := by
  have hlines : Text.numberedLines damaged.toList = [(1, "@version v".toList),
      (2, "A1: \"a\\\"".toList), (3, "B1: \"a\"b\"".toList)] := by
    decide +kernel
  have hfills : FillsQuoted "A1: \"a\\\"".toList "A1".toList "a\\\"".toList :=
    ⟨"A1".toList, " \"a\\\"".toList, rfl, by decide, by decide, by decide, by decide, by decide,
      by decide⟩
  have hfills' : FillsQuoted "B1: \"a\"b\"".toList "B1".toList "a\"b\"".toList :=
    ⟨"B1".toList, " \"a\"b\"".toList, rfl, by decide, by decide, by decide, by decide, by decide,
      by decide⟩
  rw [hlines]
  exact ⟨⟨by simp, hfills⟩, by simp, hfills'⟩

theorem lastEscaped_damaged : LastEscaped "a\\\"".toList :=
  ⟨['a'], .plain (by decide) (by decide) .nil, rfl⟩

theorem closedEarly_damaged : ClosedEarly "a\"b\"".toList :=
  ⟨['a'], ['b'], .plain (by decide) (by decide) .nil, rfl⟩

theorem damaged_line_is_an_entry :
    (2, "A1: \"a\\\"".toList) ∈ Text.numberedLines damaged.toList ∧
      FillsQuoted "A1: \"a\\\"".toList "A1".toList "a\\\"".toList ∧
        ∃ file, read damaged = .ok file ∧ ⟨2, "A1", .text "a\\"⟩ ∈ file.entries ∧
          ¬ Closed "a\\\"".toList := by
  obtain ⟨⟨hmem, hline⟩, -⟩ := fillsQuoted_damaged
  obtain ⟨hread, -, -, hclosed⟩ := quoted_value_read_iff hmem hline
  have hok : (read damaged).isOk = true := by decide +kernel
  cases hfile : read damaged with
  | error fault =>
    rw [hfile] at hok
    contradiction
  | ok file =>
    exact ⟨hmem, hline, file, rfl, (hread file hfile).2, hclosed (Or.inl lastEscaped_damaged)⟩

/-- Both values are read, and no text is closed by the quote at the end of either. -/
theorem escaped_and_early_quotes_are_read :
    read damaged = .ok ⟨"v", [⟨2, "A1", .text "a\\"⟩, ⟨3, "B1", .text "a\"b"⟩]⟩ ∧
      ((2, "A1: \"a\\\"".toList) ∈ Text.numberedLines damaged.toList ∧
        FillsQuoted "A1: \"a\\\"".toList "A1".toList "a\\\"".toList ∧
          ¬ Closed "a\\\"".toList) ∧
      (3, "B1: \"a\"b\"".toList) ∈ Text.numberedLines damaged.toList ∧
        FillsQuoted "B1: \"a\"b\"".toList "B1".toList "a\"b\"".toList ∧
          ¬ Closed "a\"b\"".toList := by
  obtain ⟨⟨hmem, hline⟩, hmem', hline'⟩ := fillsQuoted_damaged
  exact ⟨by decide +kernel,
    ⟨hmem, hline, Text.Quoted.not_closed_of_lastEscaped lastEscaped_damaged⟩, hmem', hline',
    Text.Quoted.not_closed_of_closedEarly closedEarly_damaged⟩

end Worksheet.SaveFile
