import Sketchbook.Document
import Sketchbook.Failure
import Sketchbook.FileTree.Change
import Sketchbook.Outline
import Sketchbook.Snapshot.Store

/-! A project is a directory with sketches. Opening it lists its files, indexing it reads the
source files among them, and generating writes the unified source or takes it away when no
sketch is left. The index is a value that is always at hand: the lock around a shared one, and the
outcome of a run that cannot have it, are left out, and the failure has only its text. -/
namespace Sketchbook
open Text

structure Project where
  name : String
  root : Bytes
  members : List Member
  deriving DecidableEq, Repr

namespace Project

def nameOfPath (tree : FileTree) (path : Bytes) : String :=
  let path := (tree.canonical path).toOption.getD path
  ((Path.fileName? path).bind decode?).getD "project"

def member? (tree : FileTree) (root : Bytes) (location : Location) (name : Bytes) :
    Option Member :=
  let path := Path.join root name
  match decode? name with
  | none => none
  | some text =>
    if tree.isFile path then
      match tree.node? (name :: location) with
      | some (.link _) => some ⟨text, path, (tree.canonical path).toOption⟩
      | _ => some ⟨text, path, none⟩
    else none

def rootNames (tree : FileTree) (location : Location) : List Bytes :=
  match tree.node? location with
  | some .directory => tree.names location
  | _ => []

/-- Opens the project at a path; its name is that of the directory unless one is given. -/
def openAt (tree : FileTree) (path : Bytes) (name : Option String) : Except Failure Project := do
  let location ← onPath path (tree.resolve path)
  let root := FileTree.pathOf location
  .ok { name := name.getD (nameOfPath tree root)
        root := root
        members := (rootNames tree location).filterMap (member? tree root location) }

def openRecords (tree : FileTree) (path : Bytes) : List LogRecord :=
  match tree.resolve path with
  | .error _ => []
  | .ok location =>
    ((rootNames tree location).filter fun name => (decode? name).isNone).map fun name =>
      ⟨.debug, "skipping non-utf8 member " ++
        Path.display (Path.join (FileTree.pathOf location) name)⟩

def sketches (project : Project) (settings : Settings) : List Sketch :=
  sketchesAmong project.name project.members settings

def artifactPath (project : Project) (settings : Settings) : Bytes :=
  Path.join project.root (encode settings.artifactName)

inductive Indexing where
  | indexed (unit : SourceUnit)
  | noExtension
  | notSource
  | unreadable (fault : FileFault)
  deriving DecidableEq, Repr

def indexMember (tree : FileTree) (parse : String → SyntaxTree)
    (sourceExtensions : List String) (m : Member) : Indexing :=
  match m.extension? with
  | none => .noExtension
  | some extension =>
    if isSourceExtension sourceExtensions extension then
      match tree.read m.path with
      | .ok content =>
        let text := decodeLossy content
        .indexed (Outline.unit m.name text (parse text))
      | .error fault => .unreadable fault
    else .notSource

def Indexing.unit? : Indexing → Option SourceUnit
  | .indexed unit => some unit
  | _ => none

def buildIndex (tree : FileTree) (parse : String → SyntaxTree) (project : Project)
    (sourceExtensions : List String) : Index :=
  .ofUnits (project.members.filterMap fun m =>
    (indexMember tree parse sourceExtensions m).unit?)

def Indexing.records (m : Member) : Indexing → List LogRecord
  | .indexed _ => []
  | .noExtension => []
  | .notSource => [⟨.debug, m.name ++ " is not associated with C/C++; not indexed"⟩]
  | .unreadable fault =>
    [⟨.warn, "[index] skipping " ++ Path.display m.path ++ ": " ++ fault.message⟩]

def indexRecords (tree : FileTree) (parse : String → SyntaxTree) (project : Project)
    (sourceExtensions : List String) : List LogRecord :=
  project.members.flatMap fun m =>
    (indexMember tree parse sourceExtensions m).records m

def document (project : Project) (index : Index) (settings : Settings)
    (instant : Calendar.Instant) : Option Document :=
  Document.assemble settings (project.sketches settings) index instant

inductive Outcome where
  | written (path : Bytes)
  | removed (path : Bytes)
  | nothingToDo
  deriving DecidableEq, Repr

def removeStale (tree : FileTree) (artifact : Bytes) : Except Failure Outcome × FileTree :=
  if tree.exists? artifact then
    match tree.removeFile artifact with
    | .ok changed => (.ok (.removed artifact), changed)
    | .error fault => (.error (.file artifact (.refused fault)), tree)
  else (.ok .nothingToDo, tree)

def writeArtifact (tree : FileTree) (artifact : Bytes) (text : String) :
    Except Failure Outcome × FileTree :=
  match tree.write artifact (encode text) with
  | .ok changed => (.ok (.written artifact), changed)
  | .error fault => (.error (.file artifact (.refused fault)), tree)

def generate (tree : FileTree) (project : Project) (index : Index) (settings : Settings)
    (instant : Calendar.Instant) : Except Failure Outcome × FileTree :=
  let artifact := project.artifactPath settings
  match project.document index settings instant with
  | none => removeStale tree artifact
  | some document => writeArtifact tree artifact (document.render settings.sentinel)

def outcomeRecords (sketchCount : Nat) : Except Failure Outcome → List LogRecord
  | .ok (.written path) =>
    [⟨.info, Nat.repr sketchCount ++ " sketches unified into " ++ Path.display path⟩]
  | .ok (.removed path) => [⟨.info, "no sketches left; removed " ++ Path.display path⟩]
  | .ok .nothingToDo => []
  | .error _ => []

def generateRecords (tree : FileTree) (project : Project) (index : Index)
    (settings : Settings) (instant : Calendar.Instant) : List LogRecord :=
  let sketches := project.sketches settings
  Document.records sketches index ++
    outcomeRecords sketches.length (project.generate tree index settings instant).1

end Project

end Sketchbook
