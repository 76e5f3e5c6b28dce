import Sketchbook.Text.Bytes

/-! Paths are texts of names with separators between them. A path keeps its spelling, doubled
separators included; its last name, extension and parent look past separators and single dots
that change nothing. The same rules hold for paths of characters and of bytes. -/
namespace Sketchbook

class PathSigns (α : Type) where
  separator : α
  dot : α

instance : PathSigns Char := ⟨'/', '.'⟩
instance : PathSigns UInt8 := ⟨47, 46⟩

namespace Path
open PathSigns Text
variable {α : Type} [DecidableEq α] [PathSigns α]

def pieces : List α → List (List α)
  | [] => [[]]
  | c :: rest =>
    if c = separator then [] :: pieces rest
    else match pieces rest with
      | [] => [[c]]
      | piece :: more => (c :: piece) :: more

def ofPieces : List (List α) → List α
  | [] => []
  | [piece] => piece
  | piece :: more => piece ++ separator :: ofPieces more

def isIdle (piece : List α) : Bool := piece == [] || piece == [dot]

def isAbsolute (path : List α) : Bool := path.head? == some separator

def fileName? (path : List α) : Option (List α) :=
  match ((pieces path).filter (!isIdle ·)).getLast? with
  | some name => if name = [dot, dot] then none else some name
  | none => none

def splitLast (x : α) : List α → Option (List α × List α)
  | [] => none
  | c :: rest =>
    match splitLast x rest with
    | some (before, after) => some (c :: before, after)
    | none => if c = x then some ([], rest) else none

/-- What follows the last dot of a name, unless that dot is its first character. -/
def extensionOfName (name : List α) : Option (List α) :=
  match splitLast dot name with
  | some (before, after) => if before = [] then none else some after
  | none => none

def extension? (path : List α) : Option (List α) := (fileName? path).bind extensionOfName

/-- Drops idle pieces from the front of a reversed path. A dot that starts a relative path
is a component of its own and stays. -/
def dropIdle (relative : Bool) : List (List α) → List (List α)
  | [] => []
  | [piece] => if isIdle piece && !(relative && piece == [dot]) then [] else [piece]
  | piece :: more => if isIdle piece then dropIdle relative more else piece :: more

def parent? (path : List α) : Option (List α) :=
  let relative := !isAbsolute path
  let body := if relative then pieces path else (pieces path).tail
  match dropIdle relative body.reverse with
  | [] => none
  | _ :: outer =>
    let inner := ofPieces (dropIdle relative outer).reverse
    some (if relative then inner else separator :: inner)

def ancestorsUpTo : (fuel : Nat) → List α → List (List α)
  | 0, _ => []
  | fuel + 1, path =>
    match parent? path with
    | none => []
    | some outer => path :: ancestorsUpTo fuel outer

def ancestors (path : List α) : List (List α) := ancestorsUpTo path.length path

def join (directory name : List α) : List α :=
  if isAbsolute name then name
  else if directory = [] ∨ directory.getLast? = some separator then directory ++ name
  else directory ++ separator :: name

def display (path : Bytes) : String := decodeLossy path

def includeText (path : Bytes) : String :=
  String.ofList ((decodeLossy path).toList.map fun c => if c = '\\' then '/' else c)

end Path

end Sketchbook
