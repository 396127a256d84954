import Worksheet.Dependencies.Adjacency

/-!
# Dependencies between names

An edge `(source, reader)` says that the reader's formula reads the source. The edges are kept in
both directions and counted, so the readers of a name, its sources and the number of all edges are
at hand.

An `Edit` works on dependencies step by step, and one that is refused leaves what its steps until
then have made. Names in edges are not empty: every edit looks at all the names that it is given
before it changes anything.
-/

namespace Worksheet

/-- A set of edges between names, in both directions, and their number. -/
structure Dependencies where
  /-- The names that read a name. -/
  readers : Adjacency := ∅
  /-- The names that a name reads. -/
  sources : Adjacency := ∅
  size : Nat := 0
  deriving DecidableEq

/-- Why a change of dependencies is refused. -/
inductive DependencyError where
  | emptyName
  deriving DecidableEq

/-- The wording of a dependency error. -/
def DependencyError.message : DependencyError → String
  | .emptyName => "dependency graph keys must not be empty"

namespace Dependencies

/-- No edges. -/
def empty : Dependencies := {}

instance : Inhabited Dependencies := ⟨empty⟩

/-- The names that read `node`, in order. -/
def readersOf (d : Dependencies) (node : String) : List String := (d.readers.next node).toList

/-- The names that `node` reads, in order. -/
def sourcesOf (d : Dependencies) (node : String) : List String := (d.sources.next node).toList

/-- Whether any name reads `node`. -/
def isRead (d : Dependencies) (node : String) : Bool := d.readers.contains node

/-- Whether `node` reads any name. -/
def isReader (d : Dependencies) (node : String) : Bool := d.sources.contains node

/-- How many names `node` reads. -/
def sourceCount (d : Dependencies) (node : String) : Nat := (d.sources.next node).size

/-- Whether `reader` reads `source`. -/
def hasEdge (d : Dependencies) (source reader : String) : Bool :=
  (d.readers.next source).contains reader

/-- Puts an edge in, unless it is there. -/
def insert (d : Dependencies) (source reader : String) : Dependencies :=
  if d.hasEdge source reader then d
  else ⟨d.readers.link source reader, d.sources.link reader source, d.size + 1⟩

/-- Takes an edge out, if it is there. -/
def erase (d : Dependencies) (source reader : String) : Dependencies :=
  if d.hasEdge source reader then
    ⟨d.readers.cut source reader, d.sources.cut reader source, d.size - 1⟩
  else d

/-- An edit of dependencies, which may be refused on its way. -/
abbrev Edit := ExceptT DependencyError (StateM Dependencies)

/-- Applies an edit: its result or why it was refused, and the dependencies that it leaves. -/
def perform {α : Type} (d : Dependencies) (edit : Edit α) :
    Except DependencyError α × Dependencies :=
  edit.run.run d

/-- Refuses an empty name. -/
def checkName (name : String) : Edit Unit :=
  if name.isEmpty then throw .emptyName else pure ()

/-- Adds that `reader` reads `source`. -/
def connect (source reader : String) : Edit Unit := do
  checkName source
  checkName reader
  modify fun d => d.insert source reader

/-- Takes back that `reader` reads `source`. -/
def disconnect (source reader : String) : Edit Unit := do
  checkName source
  checkName reader
  modify fun d => d.erase source reader

/-- Makes `readers` the names that read `source`. -/
def setReaders (source : String) (readers : List String) : Edit Unit := do
  checkName source
  readers.forM checkName
  let old := (← get).readersOf source
  old.forM fun reader => modify fun d => d.erase source reader
  readers.forM fun reader => modify fun d => d.insert source reader

/-- Makes `sources` the names that `reader` reads. -/
def setSources (reader : String) (sources : List String) : Edit Unit := do
  checkName reader
  sources.forM checkName
  let old := (← get).sourcesOf reader
  old.forM fun source => modify fun d => d.erase source reader
  sources.forM fun source => modify fun d => d.insert source reader

end Dependencies

end Worksheet
