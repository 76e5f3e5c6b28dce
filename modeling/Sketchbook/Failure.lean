import Sketchbook.FileTree.Basic
import Sketchbook.Snapshot.Fault

/-! Why a run fails, and how the reason is worded. -/
namespace Sketchbook
open Text

inductive FileCause where
  | refused (fault : FileFault)
  /-- A line of a text file is not well-formed text. -/
  | notText
  | other (message : String)
  deriving DecidableEq, Repr

def FileCause.message : FileCause → String
  | .refused fault => fault.message
  | .notText => "stream did not contain valid UTF-8"
  | .other message => message

inductive Failure where
  | indexUnavailable
  | file (path : Bytes) (cause : FileCause)
  /-- A line of a snapshot is no record. -/
  | snapshot (line : Nat) (fault : Snapshot.Fault)
  | parser (message : String)
  deriving DecidableEq, Repr

def Failure.message : Failure → String
  | .indexUnavailable => "source index lock unavailable"
  | .file path cause => "io error on " ++ Path.display path ++ ": " ++ cause.message
  | .snapshot line fault => "bad snapshot line " ++ Nat.repr line ++ ": " ++ fault.message
  | .parser message => "parser setup failed: " ++ message

def Failure.reason? : Failure → Option String
  | .indexUnavailable => none
  | .file _ cause => some cause.message
  | .snapshot _ fault => some fault.message
  | .parser _ => none

def onPath {α : Type} (path : Bytes) (result : Except FileFault α) : Except Failure α :=
  result.mapError fun fault => .file path (.refused fault)

end Sketchbook
