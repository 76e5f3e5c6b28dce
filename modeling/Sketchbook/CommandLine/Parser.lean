import Sketchbook.CommandLine.Arguments

/-! Arguments are read from left to right. An option takes its value behind an equals sign or
from the next argument; what is given in the next argument is checked only when the argument
after it has been recognised, so an unknown argument there is what is reported. -/
namespace Sketchbook.CommandLine
open Text

/-- What an option's value is: any text, a path, which may not be empty, or pieces with
commas between them, which add up over repeated uses. -/
inductive OptionForm where
  | text | path | pieces
  deriving DecidableEq, Repr

structure OptionSpec where
  name : String
  form : OptionForm
  deriving DecidableEq, Repr

structure CommandSpec where
  options : List OptionSpec
  switches : List String
  deriving DecidableEq, Repr

def projectOptions : List OptionSpec := [⟨"name", .text⟩, ⟨"source-ext", .pieces⟩]

def generateSpec : CommandSpec where
  options := projectOptions ++
    [⟨"index", .path⟩, ⟨"artifact", .text⟩, ⟨"sentinel", .text⟩,
     ⟨"framework-include", .text⟩, ⟨"sketch-ext", .pieces⟩]
  switches := ["stdout"]

def dumpSpec : CommandSpec where
  options := projectOptions ++ [⟨"out", .path⟩]
  switches := []

inductive Pending where
  | nothing
  | option (spec : OptionSpec)
  | optionValue (spec : OptionSpec) (value : Bytes)
  | directory (value : Bytes)
  deriving DecidableEq, Repr

structure Reading where
  values : List (String × List String) := []
  paths : List (String × Bytes) := []
  directory : Option Bytes := none
  directoryGiven : Bool := false
  onlyValues : Bool := false
  pending : Pending := .nothing
  deriving DecidableEq, Repr

def splitCommas : List Char → List (List Char)
  | [] => [[]]
  | c :: rest =>
    if c = ',' then [] :: splitCommas rest
    else match splitCommas rest with
      | [] => [[c]]
      | piece :: more => (c :: piece) :: more

def piecesOf (value : String) : List String := (splitCommas value.toList).map String.ofList

namespace Reading

def values? (reading : Reading) (name : String) : Option (List String) :=
  reading.values.lookup name

def noteOnce (reading : Reading) (name : String) (values : List String) :
    Except Refusal Reading :=
  match reading.values? name with
  | some _ => .error .repeated
  | none => .ok { reading with values := reading.values ++ [(name, values)] }

def noteMore (reading : Reading) (name : String) (values : List String) : Reading :=
  match reading.values? name with
  | none => { reading with values := reading.values ++ [(name, values)] }
  | some _ => { reading with values := reading.values.map fun (n, old) =>
      (n, if n = name then old ++ values else old) }

def notePath (reading : Reading) (name : String) (path : Bytes) : Except Refusal Reading :=
  match reading.paths.lookup name with
  | some _ => .error .repeated
  | none =>
    if path.isEmpty then .error .invalidValue
    else .ok { reading with paths := reading.paths ++ [(name, path)] }

def noteOption (reading : Reading) (spec : OptionSpec) (value : Bytes) :
    Except Refusal Reading :=
  match spec.form, decode? value with
  | .path, _ => reading.notePath spec.name value
  | .text, some text => reading.noteOnce spec.name [text]
  | .text, none => do
    let _ ← reading.noteOnce spec.name []
    .error .notText
  | .pieces, some text => .ok (reading.noteMore spec.name (piecesOf text))
  | .pieces, none => .error .notText

def settle (reading : Reading) : Except Refusal Reading :=
  let settled := { reading with pending := .nothing }
  match reading.pending with
  | .nothing => .ok settled
  | .option _ => .error .invalidValue
  | .optionValue spec value => settled.noteOption spec value
  | .directory value =>
    if value.isEmpty then .error .invalidValue
    else .ok { settled with directory := some value }

def position (reading : Reading) (value : Bytes) : Except Refusal Reading :=
  if reading.directoryGiven then .error .unknownArgument
  else do
    let settled ← reading.settle
    .ok { settled with directoryGiven := true, pending := .directory value }

def long (spec : CommandSpec) (reading : Reading) (name : String) (value : Option Bytes) :
    Except Refusal Reading :=
  match spec.options.find? (·.name == name), value with
  | some option, some value => do (← reading.settle).noteOption option value
  | some option, none => do
    let settled ← reading.settle
    .ok { settled with pending := .option option }
  | none, some _ =>
    if name == "help" || spec.switches.contains name then .error .needlessValue
    else .error .unknownArgument
  | none, none =>
    if name == "help" then do
      let _ ← reading.settle
      .error .help
    else if spec.switches.contains name then do (← reading.settle).noteOnce name ["true"]
    else .error .unknownArgument

def short (reading : Reading) (letter : UInt8) : Except Refusal Reading :=
  if letter = 104 then do
    let _ ← reading.settle
    .error .help
  else .error .unknownArgument

def value (reading : Reading) (value : Bytes) : Except Refusal Reading :=
  match reading.pending with
  | .option spec => .ok { reading with pending := .optionValue spec value }
  | _ => reading.position value

def nameOf? (bytes : Bytes) : Option String := decode? (bytes.takeWhile (· ≠ 61))

def attached? (bytes : Bytes) : Option Bytes :=
  match bytes.dropWhile (· ≠ 61) with
  | _ :: value => some value
  | [] => none

/-- Takes one argument in. Two dashes alone make every later argument a value. -/
def take (spec : CommandSpec) (reading : Reading) (argument : Bytes) :
    Except Refusal Reading :=
  if reading.onlyValues then reading.position argument
  else match argument with
    | [45, 45] => .ok { reading with onlyValues := true }
    | 45 :: 45 :: rest =>
      match nameOf? rest with
      | some name => reading.long spec name (attached? rest)
      | none => .error .unknownArgument
    | 45 :: letter :: _ => reading.short letter
    | _ => reading.value argument

def takeAll (spec : CommandSpec) (arguments : List Bytes) : Except Refusal Reading := do
  (← arguments.foldlM (take spec) {}).settle

def text? (reading : Reading) (name : String) : Option String :=
  (reading.values? name).bind List.head?

def projectArguments (reading : Reading) : ProjectArguments where
  directory := reading.directory.getD currentDirectory
  name := reading.text? "name"
  sourceExtensions := reading.values? "source-ext"

def generateArguments (environment : Environment) (reading : Reading) : GenerateArguments where
  project := reading.projectArguments
  index := reading.paths.lookup "index"
  artifact := ((reading.text? "artifact").or environment.artifact).getD defaultArtifactName
  sentinel := ((reading.text? "sentinel").or environment.sentinel).getD defaultSentinel
  frameworkInclude := (reading.text? "framework-include").getD defaultFrameworkInclude
  sketchExtensions := reading.values? "sketch-ext"
  toOutput := (reading.values? "stdout").isSome

def dumpArguments (reading : Reading) : DumpArguments where
  project := reading.projectArguments
  out := reading.paths.lookup "out"

end Reading

def commandNames : List String := ["generate", "dump-index", "help"]

def namesCommand (argument : Bytes) : Bool := (decode? argument).any commandNames.contains

def helpFor : List Bytes → Refusal
  | [] => .help
  | [name] => if namesCommand name then .help else .unknownCommand
  | _ => .unknownCommand

def withoutCommand : Bytes → Refusal
  | 45 :: 45 :: rest =>
    let name := Reading.nameOf? rest
    if name = some "help" ∨ name = some "version" then
      if (Reading.attached? rest).isSome then .needlessValue
      else if name = some "help" then .help else .version
    else .unknownArgument
  | 45 :: letter :: _ =>
    if letter = 104 then .help else if letter = 86 then .version else .unknownArgument
  | _ => .unknownCommand

def behindDashes : List Bytes → Refusal
  | [] => .nothingAsked
  | argument :: _ => if namesCommand argument then .unknownArgument else .unknownCommand

def parse (environment : Environment) : List Bytes → Except Refusal Command
  | [] => .error .nothingAsked
  | first :: rest =>
    match decode? first with
    | some "generate" => do
      let reading ← Reading.takeAll generateSpec rest
      .ok (.generate (reading.generateArguments environment))
    | some "dump-index" => do
      let reading ← Reading.takeAll dumpSpec rest
      .ok (.dumpIndex reading.dumpArguments)
    | some "help" => .error (helpFor rest)
    | some "--" => .error (behindDashes rest)
    | _ => .error (withoutCommand first)

end Sketchbook.CommandLine
