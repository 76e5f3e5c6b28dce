/-! What is known of one source file: its top-level declarations, its includes and its macro
definitions, each with the lines it stands on. Lines count from one. -/
namespace Sketchbook

abbrev LineNumber := UInt32

inductive DeclarationKind where
  | functionDefinition
  /-- A linkage block or declaration, with its language without quotes. -/
  | linkageSpecification (literal : String)
  | other
  deriving DecidableEq, Repr

structure Declaration where
  kind : DeclarationKind
  raw : String
  startLine : LineNumber
  endLine : LineNumber
  containingFile : String
  deriving DecidableEq, Repr

structure Directive where
  raw : String
  line : LineNumber
  deriving DecidableEq, Repr

/-- The facts about one source file, under the file's name in its project. -/
structure SourceUnit where
  file : String
  declarations : List Declaration := []
  includes : List Directive := []
  macros : List Directive := []
  deriving DecidableEq, Repr

/-- Sorted by line; directives of one line keep their order. -/
def sortByLine (directives : List Directive) : List Directive :=
  directives.mergeSort fun a b => decide (a.line ≤ b.line)

end Sketchbook
