import Worksheet.Sheet.Refresh
import Worksheet.Text.Blank

/-!
# Filling cells

An entry fills one cell, makes its formula's variables the names it reads, and refreshes every cell
that reads it, directly or not. It returns the names of these in the order in which they were
refreshed. The cell and what it reads are changed before it is known whether that closes a cycle:
if it does, the edit is undone. An entry with a bad name or formula is refused before anything
changes.
-/

namespace Worksheet.Sheet

/-- One cell as it stands: what it holds and what it reads. -/
structure Snapshot where
  name : String
  cell : Option Cell
  sources : List String

/-- The cell of a canonical name as it stands. -/
def snapshot (s : Sheet) (name : String) : Snapshot :=
  ⟨name, s.cells[name]?, s.dependencies.sourcesOf name⟩

/-- Undoes an edit of a cell: it holds and reads again what it did before. -/
def undo (s : Sheet) (before : Snapshot) : Sheet :=
  let (_, dependencies) :=
    s.dependencies.perform (Dependencies.setSources before.name before.sources)
  { s with cells := s.cells.putBack before.name before.cell, dependencies }

/-- Puts contents into the cell of a canonical name. -/
def put (s : Sheet) (name : String) (contents : Contents) : Outcome (List String) :=
  let before := s.snapshot name
  match s.dependencies.perform (Dependencies.setSources name contents.variableNames.toList) with
  | (.error e, dependencies) => ⟨undo { s with dependencies } before, .error (.dependency e)⟩
  | (.ok (), dependencies) =>
    let edited := { s with dependencies, cells := s.cells.store name contents }
    match dependencies.updateOrder name with
    | .error cycle => ⟨edited.undo before, .error (.closesCycle name cycle)⟩
    | .ok order =>
      ⟨{ edited with cells := edited.cells.refreshAll order, modified := true }, .ok order⟩

/-- Reads a formula for this sheet. -/
def interpretFormula (s : Sheet) (text : String) : Except Refusal Contents :=
  match Formula.parse s.policy text with
  | .ok f => .ok (.formula f)
  | .error e => .error (.formula e)

/-- The contents that input stands for: a formula after a `=`, a finite number, or text. -/
def interpret (s : Sheet) (input : String) : Except Refusal Contents :=
  match input.toList with
  | '=' :: expression => s.interpretFormula (String.ofList expression)
  | chars =>
    match Number.Binary64.read? (Text.trim chars) with
    | some x => .ok (if x.isFinite then .number x else .text input)
    | none => .ok (.text input)

/-- A request to fill a cell. -/
inductive Entry where
  | input (name input : String)
  /-- Like `input`, where the name or the input may be missing. -/
  | optional (name input : Option String)
  | number (name : String) (value : Number.Binary64)
  /-- A text, whatever it looks like. -/
  | text (name text : String)
  /-- A formula, whose variables are read again by the sheet's policy. -/
  | formula (name : String) (formula : Formula)

/-- The canonical name and the contents that an entry asks for, if its name and its contents are
acceptable. The name is looked at first. -/
def requested (s : Sheet) : Entry → Except Refusal (String × Contents)
  | .input name input => do
    let name ← s.resolve name
    return (name, ← s.interpret input)
  | .optional name input => do
    let some name := name | throw (.illegalName "")
    let name ← s.resolve name
    let some input := input | throw .missingContent
    return (name, ← s.interpret input)
  | .number name value => do
    let name ← s.resolve name
    if value.isFinite then return (name, .number value) else throw (.notFinite value)
  | .text name text => do
    let name ← s.resolve name
    return (name, .text text)
  | .formula name formula => do
    let name ← s.resolve name
    return (name, ← s.interpretFormula formula.text)

/-- Fills a cell. -/
def enter (s : Sheet) (entry : Entry) : Outcome (List String) :=
  match s.requested entry with
  | .ok (name, contents) => s.put name contents
  | .error e => ⟨s, .error e⟩

/-- Fills a cell by input. -/
def enterInput (s : Sheet) (name input : String) : Outcome (List String) :=
  s.enter (.input name input)

/-- Fills a cell by input, where the name or the input may be missing. -/
def enterOptional (s : Sheet) (name input : Option String) : Outcome (List String) :=
  s.enter (.optional name input)

/-- Fills a cell by a finite number. -/
def enterNumber (s : Sheet) (name : String) (value : Number.Binary64) : Outcome (List String) :=
  s.enter (.number name value)

/-- Fills a cell by a text, whatever it looks like. -/
def enterText (s : Sheet) (name text : String) : Outcome (List String) :=
  s.enter (.text name text)

/-- Fills a cell by a formula, whose variables are read again by this sheet's policy. -/
def enterFormula (s : Sheet) (name : String) (formula : Formula) : Outcome (List String) :=
  s.enter (.formula name formula)

end Worksheet.Sheet
