import Worksheet.Proofs.Formula.Canonical
import Worksheet.Proofs.Name.FileOrder
import Worksheet.Proofs.SaveFile.Line
import Worksheet.SaveFile.Writer

/-!
# Saved sheets are read back

Every line that is written is read by itself as what it was written for, and lines are cut apart
where they were ended. So reading a saved sheet gives its version tag and one entry for each cell
that was written, in the order of the lines.

* `readLine_entryLine`, `readLine_versionLine`: the line of a cell and that of the version tag.
* `read_write`: the whole sheet.
* `written_cells_are_read_back`: which entries these are, in which order and on which lines.
-/

namespace Worksheet.SaveFile

open Text (isBlank)

/-- What the line of a cell puts into it. -/
def payload : Contents → Payload
  | .text s => .text s
  | contents => .input contents.input

/-- The entries of written cells, whose lines follow the banner and the version tag. -/
def writtenEntries (cells : List (String × Contents)) : List Entry :=
  ((writtenCells cells).zipIdx 3).map fun ((name, contents), line) =>
    ⟨line, name, payload contents⟩

/-- A version tag that a line can hold as it is. -/
structure FitsLine (tag : List Char) : Prop where
  ne_nil : tag ≠ []
  trimmed : Text.trim tag = tag
  oneLine : '\n' ∉ tag

/-- Contents that a line can hold: no infinite number, and not NaN. -/
def Writable (k : Contents) : Prop := ∀ x, k = .number x → x.isFinite = true

/-! ## Values -/

section Value

variable {k : Contents}

/-- The text of a value has no blank at its ends, and no newline. -/
structure Solid (value : List Char) : Prop where
  ne_nil : value ≠ []
  first : ∀ c ∈ value.head?, isBlank c = false
  last : ∀ c ∈ value.getLast?, isBlank c = false
  oneLine : '\n' ∉ value

theorem solid_of_forall {value : List Char} (hne : value ≠ [])
    (h : ∀ c ∈ value, isBlank c = false) : Solid value where
  ne_nil := hne
  first c hc := h c (List.mem_of_mem_head? hc)
  last c hc := h c (List.mem_of_getLast? hc)
  oneLine hc := absurd (h _ hc) (by decide)

theorem newline_notMem_encode (text : List Char) : '\n' ∉ Text.Quoted.encode text := by
  intro h
  obtain ⟨c, -, hc⟩ := List.mem_flatMap.mp h
  unfold Text.Quoted.encodeChar at hc
  split at hc
  · simp at hc
  · split at hc
    · simp at hc
    · split at hc
      · simp at hc
      · rename_i hne
        exact hne (List.mem_singleton.mp hc).symm

theorem valueText_number (x : Number.Binary64) : valueText (.number x) = x.text :=
  String.toList_ofList

theorem valueText_formula (f : Formula) : valueText (.formula f) = '=' :: f.text.toList := by
  rw [valueText, Contents.input, String.toList_append]
  · rfl
  · simp

theorem solid_valueText (hk : Writable k) : Solid (valueText k) := by
  cases k with
  | text s =>
    rw [valueText]
    refine ⟨by simp, ?_, ?_, ?_⟩
    · rintro c ⟨⟩
      rfl
    · intro c hc
      rw [List.cons_append, List.getLast?_cons, List.getLast?_concat] at hc
      obtain rfl := Option.some.inj hc
      rfl
    · have hencode := newline_notMem_encode s.toList
      simp [hencode]
  | number x =>
    obtain ⟨hne, hx⟩ := Number.Binary64.text_characters (hk x rfl)
    rw [valueText_number]
    refine solid_of_forall hne fun c hc => ?_
    obtain hdigit | rfl | rfl := hx c hc
    · exact Name.isBlank_of_continuesIdentifier (Name.continuesIdentifier_of_isDigit hdigit)
    · rfl
    · rfl
  | formula f =>
    obtain ⟨hne, hf⟩ := f.text_characters
    rw [valueText_formula]
    refine solid_of_forall (List.cons_ne_nil _ _) fun c hc => ?_
    obtain rfl | hc := List.mem_cons.mp hc
    · rfl
    · exact hf c hc

/-- **What goes into a cell is read back** from the value that is written for it. -/
theorem readValue_valueText (hk : Writable k) : readValue (valueText k) = .ok (payload k) := by
  cases k with
  | text s =>
    have hdrop : ('"' :: Text.Quoted.encode s.toList ++ ['"']).tail.dropLast =
        Text.Quoted.encode s.toList := by simp
    rw [valueText, readValue, hdrop, Text.Quoted.decode_encode, String.ofList_toList]
    simp [payload, List.getLast?_cons]
  | number x =>
    have hfinite := hk x rfl
    obtain ⟨hne, hx⟩ := Number.Binary64.text_characters hfinite
    have hequals : '=' ∉ x.text := mt (hx '=') (by decide)
    have hquote : '"' ∉ x.text := mt (hx '"') (by decide)
    obtain ⟨c, tail, htext⟩ := List.exists_cons_of_ne_nil hne
    rw [htext, List.mem_cons, not_or] at hequals hquote
    have hread := Number.Binary64.read?_text hfinite
    rw [valueText_number, readValue]
    simp only [hread, hfinite, if_true]
    simp [htext, Ne.symm hequals.1, Ne.symm hquote.1, payload, Contents.input]
  | formula f =>
    rw [valueText_formula, readValue]
    simp [payload, Contents.input]

end Value

/-! ## Lines -/

theorem readLine_banner : readLine banner = .ok .skipped := by decide

theorem readLine_versionLine (version : String) :
    readLine (versionLine version) = .ok (.version (Text.trim version.toList)) := by
  have hline : versionLine version = [] ++ versionWord ++ ' ' :: version.toList := by
    simp [versionLine]
  rw [hline, readLine_version (List.forall_mem_nil _), Text.trim_cons rfl]

/-- **The line of a cell** is read as an entry for it. -/
theorem readLine_entryLine {name : String} {k : Contents} (hname : Name.isIdentifier name = true)
    (hk : Writable k) : readLine (entryLine name k) = .ok (.entry name.toList (payload k)) := by
  have hvalue := solid_valueText hk
  have hline : entryLine name k = name.toList ++ ':' :: ' ' :: valueText k := by simp [entryLine]
  have hchars : ∀ c ∈ name.toList, Name.continuesIdentifier c = true :=
    fun c hc => Name.continuesIdentifier_of_mem hname hc
  have hcolon : ':' ∉ name.toList := fun h => absurd (hchars _ h) (by decide)
  obtain ⟨first, rest, hcons, hfirst, -⟩ := Name.exists_cons_of_isIdentifier hname
  have hsolid : Solid name.toList := solid_of_forall (by simp [hcons])
    fun c hc => Name.isBlank_of_continuesIdentifier (hchars c hc)
  have hleft : Text.trimLeft name.toList = name.toList := Text.dropWhile_eq_self hsolid.first
  have hhash : name.toList.head? ≠ some '#' := by
    rw [hcons]
    rintro ⟨⟩
    exact absurd hfirst (by decide)
  have hversion : ¬ versionWord <+: Text.trimLeft name.toList := by
    rw [hleft, hcons]
    intro hprefix
    obtain ⟨rfl, -⟩ := List.cons_prefix_cons.mp hprefix
    exact absurd hfirst (by decide)
  have hempty : name.toList.isEmpty = false := List.isEmpty_eq_false_iff.mpr hsolid.ne_nil
  rw [hline, readLine_colon hcolon hversion, hleft, if_neg hhash,
    Text.trim_eq_self hsolid.first hsolid.last, Text.trim_cons rfl,
    Text.trim_eq_self hvalue.first hvalue.last, entryOf, hempty, readValue_valueText hk]
  rfl

theorem newline_notMem_entryLine {name : String} {k : Contents}
    (hname : Name.isIdentifier name = true) (hk : Writable k) : '\n' ∉ entryLine name k := by
  have hnewline : '\n' ∉ name.toList := fun h =>
    absurd (Name.continuesIdentifier_of_mem hname h) (by decide)
  simp [entryLine, hnewline, (solid_valueText hk).oneLine]

/-! ## Sheets -/

/-- The lines of cells are read as entries, after the version tag. -/
theorem readLines_entryLines {version : String} {started : Bool} {cells : List (String × Contents)}
    (hcells : ∀ cell ∈ cells, Name.isIdentifier cell.1 = true ∧ Writable cell.2) (line : Nat) :
    readLines (some version) started
        (((cells.map fun (name, k) => entryLine name k).zipIdx line).map
          fun (text, index) => (index + 1, text)) =
      .ok ⟨version, (cells.zipIdx (line + 1)).map
        fun ((name, k), line) => ⟨line, name, payload k⟩⟩ := by
  induction cells generalizing started line with
  | nil => rfl
  | cons cell cells ih =>
    obtain ⟨⟨hname, hk⟩, hcells⟩ := List.forall_mem_cons.mp hcells
    simp only [List.map_cons, List.zipIdx_cons, readLines, readLine_entryLine hname hk,
      ih hcells (line + 1), String.ofList_toList]
    rfl

theorem mem_writtenCells {cells : List (String × Contents)} {cell : String × Contents} :
    cell ∈ writtenCells cells ↔ cell ∈ cells ∧ cell.2.isEmpty = false := by
  simp [writtenCells, Name.sortInFileOrder]

section Sheets

variable {version : String} {cells : List (String × Contents)}

/-- The lines of a saved sheet have no newline of their own. -/
theorem newline_notMem_writtenLines (hversion : FitsLine version.toList)
    (hcells : ∀ cell ∈ writtenCells cells, Name.isIdentifier cell.1 = true ∧ Writable cell.2)
    {line : List Char} (hline : line ∈ writtenLines version cells) : '\n' ∉ line := by
  rw [writtenLines, List.mem_cons, List.mem_cons, List.mem_map] at hline
  obtain rfl | rfl | ⟨cell, hcell, rfl⟩ := hline
  · decide
  · have hword : '\n' ∉ versionWord ++ [' '] := by decide
    rw [versionLine, List.mem_append, not_or]
    exact ⟨hword, hversion.oneLine⟩
  · exact newline_notMem_entryLine (hcells cell hcell).1 (hcells cell hcell).2

/-- **A saved sheet is read back**: its version tag, and an entry for each written cell. -/
theorem read_write (hversion : FitsLine version.toList)
    (hcells : ∀ cell ∈ cells, Name.isIdentifier cell.1 = true ∧ Writable cell.2) :
    read (write version cells) = .ok ⟨version, writtenEntries cells⟩ := by
  have hwritten : ∀ cell ∈ writtenCells cells,
      Name.isIdentifier cell.1 = true ∧ Writable cell.2 :=
    fun cell hcell => hcells cell (mem_writtenCells.mp hcell).1
  have hlines : ∀ line ∈ writtenLines version cells, '\n' ∉ line :=
    fun line hline => newline_notMem_writtenLines hversion hwritten hline
  rw [read, write, String.toList_ofList, Text.numberedLines, Text.lines_flatMap hlines,
    writtenLines]
  simp only [List.zipIdx_cons, List.map_cons, readLines, readLine_banner,
    readLine_versionLine, hversion.trimmed]
  rw [if_neg (by simp), if_neg (by simp [hversion.ne_nil]), String.ofList_toList]
  exact readLines_entryLines hwritten 2

/-! ## Entries -/

/-- The entry names the cell, and puts the cell's contents into it: a text as it is, a number in
full, and the canonical text of a formula after a `=`. -/
inductive Restores : Entry → String × Contents → Prop
  | text (line : Nat) (name s : String) : Restores ⟨line, name, .text s⟩ (name, .text s)
  | number (line : Nat) (name : String) (x : Number.Binary64) :
      Restores ⟨line, name, .input (toString x)⟩ (name, .number x)
  | formula (line : Nat) (name : String) (f : Formula) :
      Restores ⟨line, name, .input ("=" ++ f.text)⟩ (name, .formula f)

theorem restores_payload (line : Nat) (name : String) (k : Contents) :
    Restores ⟨line, name, payload k⟩ (name, k) := by
  cases k with
  | text s => exact .text line name s
  | number x => exact .number line name x
  | formula f => exact .formula line name f

theorem forall₂_restores (written : List (String × Contents)) (line : Nat) :
    List.Forall₂ Restores
      ((written.zipIdx line).map fun ((name, k), line) => ⟨line, name, payload k⟩) written := by
  induction written generalizing line with
  | nil => exact .nil
  | cons cell written ih => exact .cons (restores_payload line cell.1 cell.2) (ih (line + 1))

theorem map_line_writtenEntries (cells : List (String × Contents)) :
    (writtenEntries cells).map Entry.line = List.range' 3 (writtenCells cells).length := by
  rw [writtenEntries, List.map_map]
  exact List.zipIdx_map_snd 3 (writtenCells cells)

theorem isSorted_writtenCells (cells : List (String × Contents)) :
    Name.IsSorted Prod.fst (cells.filter fun cell => !cell.2.isEmpty) (writtenCells cells) :=
  (Name.isSorted_sortInFileOrder Prod.fst cells).filter _

/-- **Written cells are read back**, also where several have one name: the version tag, and from the
third line on one entry for each cell that is not empty, in file order, where cells of one name keep
their order. The entry restores what the cell holds. -/
theorem written_cells_are_read_back (hversion : FitsLine version.toList)
    (hcells : ∀ cell ∈ cells, Name.isIdentifier cell.1 = true ∧ Writable cell.2) :
    ∃ entries written, read (write version cells) = .ok ⟨version, entries⟩ ∧
      Name.IsSorted Prod.fst (cells.filter fun cell => !cell.2.isEmpty) written ∧
      entries.map Entry.line = List.range' 3 written.length ∧
      List.Forall₂ Restores entries written :=
  ⟨_, _, read_write hversion hcells, isSorted_writtenCells cells, map_line_writtenEntries cells,
    forall₂_restores (writtenCells cells) 3⟩

end Sheets

/-- The formula `b*b`. -/
def square : Formula where
  tokens := [.variable "b", .operator .times, .variable "b"]
  arranged := by decide
  named := by simp +decide

/-- Cells of which two have one name and one is empty. The texts hold what separates lines, names
and values in a saved sheet. -/
def awkwardCells : List (String × Contents) :=
  [("sum", .formula square), ("b2", .text "@version: \\"), ("b", .text ""),
    ("sum", .text "\"\\n\n\r\" # x: 1\n"), ("B1", .number (-.zero))]

theorem awkwardCells_are_read_back :
    FitsLine "v: #".toList ∧
      (∀ cell ∈ awkwardCells, Name.isIdentifier cell.1 = true ∧ Writable cell.2) ∧
      ∃ entries written, read (write "v: #" awkwardCells) = .ok ⟨"v: #", entries⟩ ∧
        Name.IsSorted Prod.fst (awkwardCells.filter fun cell => !cell.2.isEmpty) written ∧
        entries.map Entry.line = List.range' 3 written.length ∧
        List.Forall₂ Restores entries written := by
  have hversion : FitsLine "v: #".toList := ⟨by decide, by decide, by decide⟩
  have hcells : ∀ cell ∈ awkwardCells, Name.isIdentifier cell.1 = true ∧ Writable cell.2 := by
    simp +decide [awkwardCells, Writable]
  exact ⟨hversion, hcells, written_cells_are_read_back hversion hcells⟩

end Worksheet.SaveFile
