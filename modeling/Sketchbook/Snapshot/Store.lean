import Sketchbook.Failure
import Sketchbook.FileTree.Change
import Sketchbook.Index
import Sketchbook.Snapshot.Record
import Sketchbook.Snapshot.Writer
import Sketchbook.Text.Blank

/-! Snapshots as files: loading one into an index and writing one out. Blank lines are passed
over but counted. -/
namespace Sketchbook.Snapshot
open Text

def readLines (path : Bytes) (line : Nat) : List Bytes → Except Failure (List SourceUnit)
  | [] => .ok []
  | bytes :: rest => do
    let some record := decode? bytes | .error (.file path .notText)
    if isBlankText record then readLines path (line + 1) rest
    else
      let unit ← (readRecord record).mapError (.snapshot line)
      let more ← readLines path (line + 1) rest
      .ok (unit :: more)

def readUnits (tree : FileTree) (path : Bytes) : Except Failure (List SourceUnit) := do
  let content ← onPath path (tree.read path)
  readLines path 1 (lines content)

def load (tree : FileTree) (path : Bytes) : Except Failure Index :=
  (readUnits tree path).map Index.ofUnits

def loadRecords (tree : FileTree) (path : Bytes) : List LogRecord :=
  match readUnits tree path with
  | .ok units => Index.empty.insertRecords units
  | .error _ => []

def makeParent (tree : FileTree) (path : Bytes) : Except Failure Unit × FileTree :=
  match Path.parent? path with
  | none => (.ok (), tree)
  | some directory =>
    let (made, tree) := tree.makeDirectories directory
    (onPath directory made, tree)

def save (tree : FileTree) (units : List SourceUnit) (path : Bytes) :
    Except Failure Unit × FileTree :=
  match makeParent tree path with
  | (.error failure, tree) => (.error failure, tree)
  | (.ok (), tree) =>
    match tree.write path (encode (render units)) with
    | .ok tree => (.ok (), tree)
    | .error fault => (.error (.file path (.refused fault)), tree)

end Sketchbook.Snapshot
