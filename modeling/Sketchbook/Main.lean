import Sketchbook.CommandLine.Run
import Sketchbook.FileTree.Difference
import Sketchbook.SyntaxTree.Listing
import Std.Time.Format

/-! The program. It takes up the part of the disk that a command can reach, runs the command
on it, and carries the changes out. The syntax tree of a source file is read from the listing
that a parser has left for it; a file without one has an empty tree. -/
namespace Sketchbook
open Text CommandLine

def textOf (location : Location) : String := Path.display (FileTree.pathOf location)

def readNode (path : String) : IO FileNode := do
  try
    return .file (← IO.FS.readBinFile path).data.toList
  catch _ =>
    return .directory

def lookUp (location : Location) : IO (Option FileNode) := do
  let path := textOf location
  try
    let real := (← IO.FS.realPath path).toString
    if real = path then return some (← readNode path)
    return some (.link (encode real))
  catch _ =>
    return none

partial def explore (tree : FileTree) (location : Location) :
    List PathStep → IO FileTree
  | [] => return tree
  | .stay :: rest => explore tree location rest
  | .up :: rest => explore tree location.tail rest
  | .down name :: rest => do
    let place := name :: location
    match ← lookUp place with
    | none => return tree
    | some (.link target) =>
      let route := Route.ofPath target
      explore (tree.set place (.link target)) (route.start location) (route.allSteps ++ rest)
    | some node => explore (tree.set place node) place rest

def explorePath (tree : FileTree) (path : Bytes) : IO FileTree :=
  let route := Route.ofPath path
  explore tree (route.start tree.workingDirectory) route.allSteps

def exploreEntries (tree : FileTree) (path : Bytes) : IO FileTree := do
  let tree ← explorePath tree path
  match tree.resolve path with
  | .error _ => return tree
  | .ok location =>
    try
      let mut tree := tree
      for entry in ← (← IO.FS.realPath (textOf location)).readDir do
        tree ← explore tree location [.down (encode entry.fileName)]
      return tree
    catch _ =>
      return tree

def exploreFor (tree : FileTree) (command : Command) : IO FileTree := do
  match command with
  | .generate arguments =>
    let tree ← exploreEntries tree arguments.project.directory
    let tree ← match arguments.index with
      | some snapshot => explorePath tree snapshot
      | none => pure tree
    match openFor tree arguments.project with
    | .ok project => explorePath tree (project.artifactPath arguments.settings)
    | .error _ => return tree
  | .dumpIndex arguments =>
    let tree ← exploreEntries tree arguments.project.directory
    match openFor tree arguments.project with
    | .ok project => explorePath tree (arguments.out.getD (defaultSnapshot project))
    | .error _ => return tree

def readTrees (tree : FileTree) (project : Project) : IO (List (String × SyntaxTree)) := do
  let mut trees := []
  for m in project.members do
    if let .ok content := tree.read m.path then
      let listing := Path.display project.root ++ "/.inoprep/" ++ m.name ++ ".tree"
      try
        trees := (decodeLossy content, .ofText (← IO.FS.readFile listing)) :: trees
      catch _ =>
        pure ()
  return trees

def treesFor (tree : FileTree) (command : Command) : IO (List (String × SyntaxTree)) :=
  let arguments := match command with
    | .generate arguments => arguments.project
    | .dumpIndex arguments => arguments.project
  match openFor tree arguments with
  | .ok project => readTrees tree project
  | .error _ => return []

def carryOut : FileTree.Action → IO Unit
  | .makeDirectory location => IO.FS.createDirAll (textOf location)
  | .writeFile location content => IO.FS.writeBinFile (textOf location) ⟨content.toArray⟩
  | .remove location => IO.FS.removeFile (textOf location)

def readClock : IO Calendar.Instant := do
  let now ← Std.Time.DateTime.now
  return { seconds := now.toTimestamp.toSecondsSinceUnixEpoch.val
           offset := now.timezone.offset.second.val }

def workingTree : IO FileTree := do
  let path := encode (← IO.currentDir).toString
  let tree ← explorePath {} path
  return { tree with workingDirectory := (tree.resolve path).toOption.getD [] }

/-- What is written about arguments that give no command, the same for all of them. -/
def helpText : String :=
  "Unify Arduino sketch files into one translation unit\n\n" ++
  "Usage: inoprep <COMMAND>\n\n" ++
  "Commands:\n" ++
  "  generate    Write (or remove) the unified source for a sketch project\n" ++
  "  dump-index  Write the built-in source index as a JSONL snapshot\n" ++
  "  help        Print this message or the help of the given subcommand(s)\n\n" ++
  "Options:\n" ++
  "  -h, --help     Print help\n" ++
  "  -V, --version  Print version\n"

end Sketchbook

open Sketchbook CommandLine in
def main (arguments : List String) : IO UInt32 := do
  let environment : Environment :=
    { artifact := ← IO.getEnv "INOPREP_ARTIFACT"
      sentinel := ← IO.getEnv "INOPREP_SENTINEL" }
  let arguments := arguments.map Text.encode
  let mut tree ← workingTree
  let mut trees := []
  if let .ok command := parse environment arguments then
    tree ← exploreFor tree command
    trees ← treesFor tree command
  let known := trees
  let surroundings : Surroundings :=
    { parse := fun text => (known.lookup text).getD (.ofListing [])
      instant := ← readClock }
  let report := run surroundings (fun _ _ => helpText) environment tree arguments
  for action in tree.difference report.tree do
    carryOut action
  for record in report.records do
    if record.level ≠ .debug then IO.eprintln record.render
  IO.print report.output
  IO.eprint report.errors
  return report.code.toUInt32
