import Sketchbook.FileTree.Resolve

/-! Changes to a file tree: writing and removing files, making directories and links, and
moving entries. A refused change leaves the tree as it was; making a chain of directories
keeps those made before the refusal. -/
namespace Sketchbook.FileTree
open Text

def write (tree : FileTree) (path content : Bytes) : Except FileFault FileTree :=
  if path = [] then .error .noEntry
  else (tree.writePlace linkLimit tree.workingDirectory (Route.ofPath path)).map
    (tree.set · (.file content))

/-- The entry that a path names, with the directory it is in. The last step is not followed;
none if it leads to no name. -/
def entryPlace (tree : FileTree) (path : Bytes) :
    Except FileFault (Location × Option Bytes) :=
  if path = [] then .error .noEntry
  else
    let route := Route.ofPath path
    (tree.approach linkLimit tree.workingDirectory route).map fun (directory, _) =>
      (directory, match route.steps.getLast? with
        | some (.down name) => some name
        | _ => none)

def removeFile (tree : FileTree) (path : Bytes) : Except FileFault FileTree := do
  match ← tree.entryPlace path with
  | (_, none) => .error .isDirectory
  | (directory, some name) =>
    match tree.node? (name :: directory) with
    | none => .error .noEntry
    | some .directory => .error .isDirectory
    | some (.file _) | some (.link _) =>
      if (Route.ofPath path).slash then .error .notDirectory
      else .ok (tree.erase (name :: directory))

def makeDirectory (tree : FileTree) (path : Bytes) : Except FileFault FileTree := do
  match ← tree.entryPlace path with
  | (_, none) => .error .alreadyExists
  | (directory, some name) =>
    match tree.node? (name :: directory) with
    | none => .ok (tree.set (name :: directory) .directory)
    | some _ => .error .alreadyExists

def ensureDirectory (tree : FileTree) (path : Bytes) : Except FileFault Unit × FileTree :=
  match tree.makeDirectory path with
  | .ok made => (.ok (), made)
  | .error fault => if tree.isDirectory path then (.ok (), tree) else (.error fault, tree)

def ensureChain (tree : FileTree) : List Bytes → Except FileFault Unit × FileTree
  | [] => (.ok (), tree)
  | path :: outer =>
    match tree.ensureDirectory path with
    | (.error .noEntry, _) =>
      match tree.ensureChain outer with
      | (.ok (), tree) => tree.ensureDirectory path
      | (.error fault, tree) => (.error fault, tree)
    | result => result

def makeDirectories (tree : FileTree) (path : Bytes) : Except FileFault Unit × FileTree :=
  tree.ensureChain (Path.ancestors path)

def makeLink (tree : FileTree) (path target : Bytes) : Except FileFault FileTree := do
  match ← tree.entryPlace path with
  | (_, none) => .error .alreadyExists
  | (directory, some name) =>
    match tree.node? (name :: directory) with
    | none => .ok (tree.set (name :: directory) (.link target))
    | some _ => .error .alreadyExists

def removeAll (tree : FileTree) (path : Bytes) : Except FileFault FileTree := do
  match ← tree.entryPlace path with
  | (_, none) => .error .isDirectory
  | (directory, some name) =>
    match tree.node? (name :: directory) with
    | none => .error .noEntry
    | some _ => .ok (tree.prune (name :: directory))

def setAll (tree : FileTree) (entries : Entries) : FileTree :=
  let outerFirst := entries.mergeSort fun a b => decide (a.1.length ≤ b.1.length)
  outerFirst.foldl (fun tree (location, node) => tree.set location node) tree

def move (tree : FileTree) (source target : Bytes) : Except FileFault FileTree := do
  match ← tree.entryPlace source, ← tree.entryPlace target with
  | (fromDirectory, some fromName), (toDirectory, some toName) =>
    let old := fromName :: fromDirectory
    let new := toName :: toDirectory
    match tree.node? old with
    | none => .error .noEntry
    | some _ =>
      if old = new then .ok tree
      else if old.isSuffixOf new then .error .invalid
      else
        let moved := tree.entries.filter fun (location, _) => old.isSuffixOf location
        .ok (((tree.prune old).prune new).setAll (moved.map fun (location, node) =>
          (location.take (location.length - old.length) ++ new, node)))
  | _, _ => .error .isDirectory

end Sketchbook.FileTree
