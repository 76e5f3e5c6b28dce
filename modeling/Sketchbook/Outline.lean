import Sketchbook.SyntaxTree
import Sketchbook.Text.Blank
import Sketchbook.Unit

/-! The outline of a source file: the facts about it that its text and its syntax tree hold.
Conditionals are not evaluated. Declarations are taken from the top level and from the first
branch of conditionals; includes and macros from everywhere but function bodies. -/
namespace Sketchbook.Outline

def slice (text : String) (startByte endByte : Nat) : String :=
  (String.fromUTF8? (text.toUTF8.extract startByte endByte)).getD ""

def nodeText (text : String) (node : SyntaxNode) : String :=
  String.ofList (Text.trimRight (slice text node.startByte node.endByte).toList)

/-- Rows count from zero and lines from one; a line beyond the last number is the last. -/
def lineOfRow (row : Nat) : LineNumber := UInt32.ofNat (min (row + 1) 4294967295)

def isConditional (kind : String) : Bool := kind == "preproc_if" || kind == "preproc_ifdef"

def isNoDeclaration (kind : String) : Bool :=
  "preproc_".toList.isPrefixOf kind.toList || kind == "comment"

/-- A node is the header of its parent if it is the first there to be called name or
condition. `earlier` are the fields of the siblings before it. -/
def isHeader (earlier : List (Option String)) (field : Option String) : Bool :=
  (field == some "name" || field == some "condition") && !earlier.contains field

def linkageLiteral (text : String) (children : SyntaxForest) : String :=
  match children.roots.find? (·.field == some "value") with
  | some value =>
    let literal := (slice text value.startByte value.endByte).toList
    String.ofList (Text.dropRightWhile (· == '"') (literal.dropWhile (· == '"')))
  | none => ""

def declarationKind (text : String) (node : SyntaxNode) (children : SyntaxForest) :
    DeclarationKind :=
  if node.kind = "function_definition" then .functionDefinition
  else if node.kind = "linkage_specification" then
    .linkageSpecification (linkageLiteral text children)
  else .other

def declaration (file text : String) (node : SyntaxNode) (children : SyntaxForest) :
    Declaration where
  kind := declarationKind text node children
  raw := nodeText text node
  startLine := lineOfRow node.startRow
  endLine := lineOfRow node.endRow
  containingFile := file

def declarations (file text parent : String) (earlier : List (Option String)) :
    SyntaxForest → List Declaration
  | .nil => []
  | .cons node children rest =>
    (if isConditional node.kind then declarations file text node.kind [] children
      else if isNoDeclaration node.kind then []
      else if parent ≠ "translation_unit" ∧ isHeader earlier node.field then []
      else [declaration file text node children]) ++
    declarations file text parent (node.field :: earlier) rest

def directive (text : String) (node : SyntaxNode) : Directive where
  raw := nodeText text node
  line := lineOfRow node.startRow

def isInclude (kind : String) : Bool := kind == "preproc_include"

def isMacro (kind : String) : Bool := kind == "preproc_def" || kind == "preproc_function_def"

/-- The directives of the wanted kind outside function bodies, in pre-order. Nothing is looked
for inside another directive. -/
def directives (text : String) (wanted : String → Bool) : SyntaxForest → List Directive
  | .nil => []
  | .cons node children rest =>
    (if isInclude node.kind || isMacro node.kind then
        if wanted node.kind then [directive text node] else []
      else if node.kind = "function_definition" then []
      else directives text wanted children) ++
    directives text wanted rest

def unit (file text : String) (tree : SyntaxTree) : SourceUnit where
  file := file
  declarations := declarations file text tree.rootKind [] tree.children
  includes := sortByLine (directives text isInclude tree.children)
  macros := sortByLine (directives text isMacro tree.children)

end Sketchbook.Outline
