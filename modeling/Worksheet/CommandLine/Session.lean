import Worksheet.CommandLine.Options
import Worksheet.Sheet.Storage

/-!
# Sessions

A session is one run of the program: it reads the settings, opens the sheet, applies the edits,
lists the cells and saves the sheet if it was asked to. What it does to files it does through a
`FileSystem`, and it understands settings files by a `SettingsReader`; what it prints, and its exit
code, it returns.
-/

namespace Worksheet.CommandLine

/-- What a session prints, and its exit code. -/
structure Report where
  code : UInt32 := 0
  output : String := ""
  errors : String := ""
  deriving DecidableEq

/-- An error that ends a session, and what the session was doing, if that is told. -/
structure Failure where
  activity : Option String
  error : Refusal
  deriving DecidableEq

/-- The line that reports a failure. The cause of a wrapped error is told once more. -/
def Failure.message (f : Failure) : String :=
  let activity := match f.activity with
    | some activity => activity ++ ": "
    | none => ""
  let cause := match f.error.cause? with
    | some cause => ": " ++ cause
    | none => ""
  s!"Error: {activity}{f.error.message}{cause}\n"

/-- The text that explains the options. -/
def usage : String :=
  "Usage: cellwise [OPTIONS] [FILE]\n" ++
  "\n" ++
  "Arguments:\n" ++
  "  [FILE]                    Spreadsheet file to open (.cws)\n" ++
  "\n" ++
  "Options:\n" ++
  "  -s, --set <NAME=CONTENT>  Set a cell (can be repeated, applied in order)\n" ++
  "  -o, --output <FILE>       Save the resulting sheet to FILE\n" ++
  "  -w, --write               Save the resulting sheet back to [FILE]\n" ++
  "  --config <FILE>           Read settings from FILE\n" ++
  "  --no-config               Ignore the user config file\n" ++
  "  -h, --help                Print help\n"

/-- The user's settings file, in the directory for settings or else in the home directory. -/
def userConfig? (configHome home : Option String) : Option String :=
  let directory := match configHome with
    | some directory => if directory.startsWith "/" then some directory else none
    | none => none
  let directory := directory <|> home.map (· ++ "/.config")
  directory.map (· ++ "/cellwise/config.toml")

/-- The line that lists a cell: its name, contents and value. -/
def record (name : String) (contents : Contents) (value : Value) : String :=
  s!"{name}\t{contents.input}\t{value.display}\n"

/-- The line for a name, under which the sheet is asked for the contents and the value. -/
def recordAt (s : Sheet) (name : String) : Except Refusal String := do
  let contents ← s.contentsAt name
  let value ← s.valueAt name
  return record name contents value

/-- The lines for names, up to the first that is refused. -/
def listing (s : Sheet) : List String → String × Except Failure Unit
  | [] => ("", .ok ())
  | name :: names =>
    match recordAt s name with
    | .error e => ("", .error ⟨none, e⟩)
    | .ok line =>
      let (lines, result) := listing s names
      (line ++ lines, result)

/-- Applies edits in order, up to the first that is refused. -/
def applyEdits (s : Sheet) : List CellEdit → Except Failure Sheet
  | [] => .ok s
  | edit :: edits =>
    match s.enterOptional (some edit.name) edit.content with
    | ⟨s, .ok _⟩ => applyEdits s edits
    | ⟨_, .error e⟩ => .error ⟨s!"failed to set {edit.name}", e⟩

variable {m : Type → Type} [Monad m]

/-- Reads a settings file. -/
def readSettings (reader : SettingsReader) (fs : FileSystem m) (path : String) :
    m (Except Failure Settings) := do
  let failed (e : Refusal) : Except Failure Settings := .error ⟨s!"failed to read config {path}", e⟩
  match ← fs.readText path with
  | .error e => return failed (.file e)
  | .ok text =>
    match reader text with
    | .error message => return failed (.settings message)
    | .ok settings => return .ok settings

/-- The settings of a session: from the named file, or from the user's if there is one and it is
not to be ignored. -/
def findSettings (reader : SettingsReader) (fs : FileSystem m) (userConfig : Option String)
    (o : Options) : m (Except Failure Settings) := do
  match o.config with
  | some path => readSettings reader fs path
  | none =>
    if o.noConfig then return .ok {}
    else
      match userConfig with
      | some path => if ← fs.hasPath path then readSettings reader fs path else return .ok {}
      | none => return .ok {}

/-- The sheet that a session starts from: the saved one if the file exists, or else an empty one. -/
def openSheet (fs : FileSystem m) (settings : Settings) (o : Options) :
    m (Except Failure Sheet) := do
  match o.file with
  | some path =>
    if ← fs.hasPath path then
      let opened ← Sheet.ofFile fs settings path
      return opened.mapError fun e => ⟨s!"failed to open {path}", e⟩
    else return .ok (.ofSettings settings)
  | none => return .ok (.ofSettings settings)

/-- The sheet of a session after its edits. -/
def editedSheet (reader : SettingsReader) (fs : FileSystem m) (userConfig : Option String)
    (o : Options) : m (Except Failure Sheet) := do
  match ← findSettings reader fs userConfig o with
  | .error f => return .error f
  | .ok settings =>
    match ← openSheet fs settings o with
    | .error f => return .error f
    | .ok s => return applyEdits s o.edits

/-- Runs a session with the given options. -/
def runOptions (reader : SettingsReader) (fs : FileSystem m) (userConfig : Option String)
    (o : Options) : m Report := do
  match ← editedSheet reader fs userConfig o with
  | .error f => return { code := 1, errors := f.message }
  | .ok s =>
    let (output, listed) := listing s s.names
    match listed, o.target with
    | .error f, _ => return { code := 1, output, errors := f.message }
    | .ok (), none => return { output }
    | .ok (), some path =>
      match (← s.writeFile fs path).result with
      | .ok () => return { output }
      | .error e =>
        return { code := 1, output, errors := Failure.message ⟨s!"failed to save {path}", e⟩ }

/-- Runs the program with the given arguments. -/
def run (reader : SettingsReader) (fs : FileSystem m) (userConfig : Option String)
    (arguments : List String) : m Report := do
  match Options.ofArguments arguments with
  | .ok .help => return { errors := usage }
  | .ok (.run o) => runOptions reader fs userConfig o
  | .error e => return { code := 2, errors := s!"Error: {e.message}\n{usage}" }

end Worksheet.CommandLine
