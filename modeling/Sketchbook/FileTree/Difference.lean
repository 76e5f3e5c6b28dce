import Sketchbook.FileTree.Basic

/-! What has to be done to a file tree to make it another one. -/
namespace Sketchbook.FileTree
open Text

inductive Action where
  | makeDirectory (location : Location)
  | writeFile (location : Location) (content : Bytes)
  | remove (location : Location)
  deriving DecidableEq, Repr

def difference (old new : FileTree) : List Action :=
  let changed := new.entries.filter fun (location, node) => old.node? location ≠ some node
  let directories := (changed.filter (·.2 == .directory)).map Prod.fst
  let outerFirst := directories.mergeSort fun a b => decide (a.length ≤ b.length)
  outerFirst.map .makeDirectory ++
    (changed.filterMap fun (location, node) =>
      match node with
      | .file content => some (.writeFile location content)
      | _ => none) ++
    (old.entries.filter fun (location, _) => new.node? location = none).map
      fun (location, _) => .remove location

end Sketchbook.FileTree
