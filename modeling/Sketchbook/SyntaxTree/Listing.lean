import Sketchbook.SyntaxTree

/-! Syntax trees as text: one node a line in pre-order, each as its depth, kind, field, first
and end byte, first and last row with single spaces between them. A node without field has a
dash there. -/
namespace Sketchbook.SyntaxTree

def nodeOfLine? (line : String) : Option (Nat × SyntaxNode) :=
  match line.splitOn " " with
  | [depth, kind, field, startByte, endByte, startRow, endRow] => do
    let node : SyntaxNode :=
      { kind
        field := if field = "-" then none else some field
        startByte := ← startByte.toNat?
        endByte := ← endByte.toNat?
        startRow := ← startRow.toNat?
        endRow := ← endRow.toNat? }
    some (← depth.toNat?, node)
  | _ => none

def ofText (text : String) : SyntaxTree :=
  ofListing ((text.splitOn "\n").filterMap nodeOfLine?)

end Sketchbook.SyntaxTree
