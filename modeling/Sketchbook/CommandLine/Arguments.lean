import Sketchbook.Sketch

/-! What the two commands can be told, and what is wrong with arguments that tell them
something else. Paths are bytes, all other values are texts. -/
namespace Sketchbook.CommandLine
open Text

def currentDirectory : Bytes := encode "."

structure ProjectArguments where
  directory : Bytes := currentDirectory
  name : Option String := none
  sourceExtensions : Option (List String) := none
  deriving DecidableEq, Repr

structure GenerateArguments where
  project : ProjectArguments := {}
  /-- The snapshot to read the facts from, in place of the source files. -/
  index : Option Bytes := none
  artifact : String := defaultArtifactName
  sentinel : String := defaultSentinel
  frameworkInclude : String := defaultFrameworkInclude
  sketchExtensions : Option (List String) := none
  toOutput : Bool := false
  deriving DecidableEq, Repr

structure DumpArguments where
  project : ProjectArguments := {}
  out : Option Bytes := none
  deriving DecidableEq, Repr

inductive Command where
  | generate (arguments : GenerateArguments)
  | dumpIndex (arguments : DumpArguments)
  deriving DecidableEq, Repr

/-- The environment variables that stand in for options. -/
structure Environment where
  artifact : Option String := none
  sentinel : Option String := none
  deriving DecidableEq, Repr

inductive Refusal where
  | help
  | version
  | nothingAsked
  | unknownArgument
  | unknownCommand
  | invalidValue
  | notText
  | repeated
  | needlessValue
  deriving DecidableEq, Repr

def Refusal.isAnswer : Refusal → Bool
  | .help | .version => true
  | _ => false

def Refusal.exitCode (refusal : Refusal) : Nat := if refusal.isAnswer then 0 else 2

def ProjectArguments.extensions (arguments : ProjectArguments) : List String :=
  arguments.sourceExtensions.getD defaultSourceExtensions

def GenerateArguments.settings (arguments : GenerateArguments) : Settings where
  artifactName := arguments.artifact
  sentinel := arguments.sentinel
  frameworkInclude := arguments.frameworkInclude
  sketchExtensions := arguments.sketchExtensions.getD defaultSketchExtensions

end Sketchbook.CommandLine
