import Worksheet.Text.Blank

/-!
# Command-line options

The arguments of the program: options with and without a value, and at most one file. The argument
after an option that takes a value is its value, whatever it looks like.
-/

namespace Worksheet.CommandLine

/-- An edit of one cell; without a `=` in the argument there is no content. -/
structure CellEdit where
  name : String
  content : Option String
  deriving DecidableEq

/-- Splits an edit at its first `=`. Blanks around the name are dropped. -/
def CellEdit.ofArgument (argument : String) : CellEdit :=
  let name := argument.toList.takeWhile (· ≠ '=')
  let rest := argument.toList.dropWhile (· ≠ '=')
  ⟨String.ofList (Text.trim name), rest.tail?.map String.ofList⟩

/-- What the arguments ask for. -/
structure Options where
  file : Option String := none
  edits : List CellEdit := []
  output : Option String := none
  /-- Save the sheet back to its file. -/
  writeBack : Bool := false
  config : Option String := none
  /-- Ignore the user's settings. -/
  noConfig : Bool := false
  deriving DecidableEq

/-- What the program is to do. -/
inductive Request where
  | help
  | run (options : Options)
  deriving DecidableEq

/-- Why arguments are refused. -/
inductive UsageError where
  | setWithoutValue
  | outputWithoutValue
  | configWithoutValue
  | unknownOption (option : String)
  | unexpectedArgument (argument : String)
  | writeWithoutFile
  | writeWithOutput
  deriving DecidableEq

/-- The wording of a usage error. -/
def UsageError.message : UsageError → String
  | .setWithoutValue => "--set requires NAME=CONTENT"
  | .outputWithoutValue => "--output requires a file path"
  | .configWithoutValue => "--config requires a file path"
  | .unknownOption option => s!"Unknown option: {option}"
  | .unexpectedArgument argument => s!"Unexpected argument: {argument}"
  | .writeWithoutFile => "--write needs a FILE"
  | .writeWithOutput => "--write and --output cannot be combined"

namespace Options

/-- What an argument is by itself. -/
inductive Flag where
  | help
  | set
  | output
  | write
  | config
  | noConfig
  | unknown
  | positional
  deriving DecidableEq

/-- Tells options by their names, and files by not starting with `-`. -/
def flag (argument : String) : Flag :=
  if argument = "-h" ∨ argument = "--help" then .help
  else if argument = "-s" ∨ argument = "--set" then .set
  else if argument = "-o" ∨ argument = "--output" then .output
  else if argument = "-w" ∨ argument = "--write" then .write
  else if argument = "--config" then .config
  else if argument = "--no-config" then .noConfig
  else if argument.toList.head? = some '-' then .unknown
  else .positional

/-- Checks that options fit together. -/
def check (o : Options) : Except UsageError Request :=
  if o.writeBack && o.file.isNone then .error .writeWithoutFile
  else if o.writeBack && o.output.isSome then .error .writeWithOutput
  else .ok (.run o)

/-- Adds arguments to options. A request for help is met as soon as it is seen. -/
def extend (o : Options) : List String → Except UsageError Request
  | [] => o.check
  | argument :: arguments =>
    match flag argument, arguments with
    | .help, _ => .ok .help
    | .set, [] => .error .setWithoutValue
    | .set, value :: arguments =>
      extend { o with edits := o.edits ++ [CellEdit.ofArgument value] } arguments
    | .output, [] => .error .outputWithoutValue
    | .output, value :: arguments => extend { o with output := some value } arguments
    | .write, arguments => extend { o with writeBack := true } arguments
    | .config, [] => .error .configWithoutValue
    | .config, value :: arguments => extend { o with config := some value } arguments
    | .noConfig, arguments => extend { o with noConfig := true } arguments
    | .unknown, _ => .error (.unknownOption argument)
    | .positional, arguments =>
      if o.file.isSome then .error (.unexpectedArgument argument)
      else extend { o with file := some argument } arguments

/-- Reads the arguments of the program. -/
def ofArguments (arguments : List String) : Except UsageError Request := extend {} arguments

/-- The file that the sheet is saved to at the end. -/
def target (o : Options) : Option String := if o.writeBack then o.file else o.output

end Options

end Worksheet.CommandLine
