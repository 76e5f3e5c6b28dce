import Sketchbook.Log
import Sketchbook.Source.Body
import Sketchbook.Text.Blank
import Sketchbook.Unit

/-! A function definition becomes a prototype: comments to the end of a line go, the text is
laid out on one line, the body is cut out and a semicolon closes it. Definitions with default
arguments or of class members have no prototype. -/
namespace Sketchbook.Prototype
open Source Text

def unifyLineEnds : List Char → List Char
  | [] => []
  | '\r' :: '\n' :: rest => '\n' :: unifyLineEnds rest
  | '\r' :: rest => '\n' :: unifyLineEnds rest
  | c :: rest => c :: unifyLineEnds rest

def flatten (cs : List Char) : List Char := cs.map fun c => if c = '\n' then ' ' else c

def signature (definition : List Char) : List Char :=
  trim (stripBody (flatten (stripLineComments (unifyLineEnds definition))))

def hasScope : List Char → Bool
  | ':' :: ':' :: _ => true
  | _ :: rest => hasScope rest
  | [] => false

/-- A signature that can stand alone: not empty, without `=` and without `::`. -/
def isDeclarable (signature : List Char) : Bool :=
  !signature.isEmpty && !signature.contains '=' && !hasScope signature

def ofDefinition? (definition : String) : Option String :=
  let signature := signature definition.toList
  if isDeclarable signature then some (String.ofList (signature ++ [';'])) else none

def all (declarations : List Declaration) : List String :=
  (declarations.filter (·.kind == .functionDefinition)).filterMap (ofDefinition? ·.raw)

def records (definition : String) : List LogRecord :=
  match ofDefinition? definition with
  | some _ => []
  | none =>
    [⟨.debug, "no forward declaration for `" ++ String.ofList (signature definition.toList)
      ++ "`"⟩]

def allRecords (declarations : List Declaration) : List LogRecord :=
  (declarations.filter (·.kind == .functionDefinition)).flatMap (records ·.raw)

end Sketchbook.Prototype
