import Sketchbook.CommandLine.Parser
import Sketchbook.Project

/-! Running a command on a file tree. The result is what the run prints, the code it ends
with, what it recorded, and the file tree it leaves. -/
namespace Sketchbook.CommandLine
open Text

structure Report where
  code : Nat := 0
  output : String := ""
  errors : String := ""
  records : List LogRecord := []
  tree : FileTree

/-- What surrounds a run: the syntax tree of every text, and the time. -/
structure Surroundings where
  parse : String → SyntaxTree
  instant : Calendar.Instant

def indentLines (text : String) : String :=
  String.join (text.toList.map fun c => if c = '\n' then "\n       " else c.toString)

def failureText (context : String) (failure : Failure) : String :=
  "Error: " ++ context ++ "\n\nCaused by:\n" ++
    match failure.reason? with
    | some reason =>
      "    0: " ++ indentLines failure.message ++ "\n    1: " ++ indentLines reason ++ "\n"
    | none => "    " ++ failure.message ++ "\n"

def fail (tree : FileTree) (records : List LogRecord) (context : String)
    (failure : Failure) : Report :=
  { code := 1, errors := failureText context failure, records, tree }

def factsFor (surroundings : Surroundings) (tree : FileTree) (arguments : GenerateArguments)
    (project : Project) : Except Failure Index × List LogRecord :=
  match arguments.index with
  | some path =>
    match Snapshot.load tree path with
    | .error failure => (.error failure, [])
    | .ok index =>
      (.ok index, Snapshot.loadRecords tree path ++
        [if index.isEmpty then
          ⟨.warn, "snapshot " ++ Path.display path ++ " holds no translation units"⟩
        else ⟨.info, "loaded " ++ Nat.repr index.size ++ " translation units from " ++
          Path.display path⟩])
  | none =>
    let extensions := arguments.project.extensions
    (.ok (project.buildIndex tree surroundings.parse extensions),
      project.indexRecords tree surroundings.parse extensions)

def noSketchesText (project : Project) : String :=
  "No sketch files in " ++ Path.display project.root ++ "\n"

def outcomeText (project : Project) : Project.Outcome → String
  | .written path => "Unified source written to " ++ Path.display path ++ "\n"
  | .removed path => "No sketch files left; removed " ++ Path.display path ++ "\n"
  | .nothingToDo => noSketchesText project

def printDocument (surroundings : Surroundings) (tree : FileTree) (project : Project)
    (index : Index) (settings : Settings) (records : List LogRecord) : Report :=
  let records := records ++ Document.records (project.sketches settings) index
  match project.document index settings surroundings.instant with
  | some document => { output := document.render settings.sentinel, records, tree }
  | none => { errors := noSketchesText project, records, tree }

def writeDocument (surroundings : Surroundings) (tree : FileTree) (project : Project)
    (index : Index) (settings : Settings) (records : List LogRecord) : Report :=
  let records := records ++
    project.generateRecords tree index settings surroundings.instant
  match project.generate tree index settings surroundings.instant with
  | (.ok outcome, tree) => { output := outcomeText project outcome, records, tree }
  | (.error failure, tree) =>
    fail tree records ("generating unified source for " ++ project.name) failure

def openFor (tree : FileTree) (arguments : ProjectArguments) : Except Failure Project :=
  Project.openAt tree arguments.directory arguments.name

def runGenerate (surroundings : Surroundings) (tree : FileTree)
    (arguments : GenerateArguments) : Report :=
  match openFor tree arguments.project with
  | .error failure =>
    fail tree [] ("opening project " ++ Path.display arguments.project.directory) failure
  | .ok project =>
    let opened := Project.openRecords tree arguments.project.directory
    match factsFor surroundings tree arguments project with
    | (.error failure, records) =>
      fail tree (opened ++ records)
        ("loading snapshot " ++ Path.display (arguments.index.getD [])) failure
    | (.ok index, records) =>
      if arguments.toOutput then
        printDocument surroundings tree project index arguments.settings (opened ++ records)
      else writeDocument surroundings tree project index arguments.settings (opened ++ records)

def defaultSnapshot (project : Project) : Bytes :=
  Path.join (Path.join project.root (encode ".inoprep")) (encode (project.name ++ ".jsonl"))

def runDump (surroundings : Surroundings) (tree : FileTree) (arguments : DumpArguments) :
    Report :=
  match openFor tree arguments.project with
  | .error failure =>
    fail tree [] ("opening project " ++ Path.display arguments.project.directory) failure
  | .ok project =>
    let extensions := arguments.project.extensions
    let index := project.buildIndex tree surroundings.parse extensions
    let records := Project.openRecords tree arguments.project.directory ++
      project.indexRecords tree surroundings.parse extensions
    let out := arguments.out.getD (defaultSnapshot project)
    match Snapshot.save tree index.units out with
    | (.ok (), tree) =>
      { output := "Index snapshot written to " ++ Path.display out ++ "\n", records, tree }
    | (.error failure, tree) => fail tree records ("writing " ++ Path.display out) failure

def versionText : String := "inoprep 0.3.0\n"

/-- Answers arguments that give no command. `usage` is what there is to say about them besides
the version. -/
def refuse (usage : Refusal → String) (tree : FileTree) (refusal : Refusal) : Report :=
  match refusal with
  | .version => { output := versionText, tree }
  | .help => { output := usage refusal, tree }
  | _ => { code := refusal.exitCode, errors := usage refusal, tree }

def run (surroundings : Surroundings) (usage : List Bytes → Refusal → String)
    (environment : Environment) (tree : FileTree) (arguments : List Bytes) : Report :=
  match parse environment arguments with
  | .error refusal => refuse (usage arguments) tree refusal
  | .ok (.generate arguments) => runGenerate surroundings tree arguments
  | .ok (.dumpIndex arguments) => runDump surroundings tree arguments

end Sketchbook.CommandLine
