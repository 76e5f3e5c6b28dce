import Sketchbook.Project
import Sketchbook.Proofs.Document.Segments
import Sketchbook.Proofs.FileTree.Change

/-! What generating does to a file tree, told by its outcome. A failed run changes nothing, and
a run that succeeds touches one place: the file that the artifact's path leads to when there are
sketches, and the entry that the path names when there are none. -/
namespace Sketchbook
open Text

namespace Project

def IsWritten (tree changed : FileTree) (path : Bytes) (text : String) : Prop :=
  changed.read path = .ok (encode text) ∧
    ∃ place, changed.resolve path = .ok place ∧ tree.DiffersOnlyAt changed place

def IsRemoved (tree changed : FileTree) (path : Bytes) : Prop :=
  tree.exists? path = true ∧ changed.exists? path = false ∧
    ∃ entry, tree.Names path entry ∧ changed.node? entry = none ∧
      tree.DiffersOnlyAt changed entry

/-- What an outcome says about the sketches, and about the tree before and after. A run fails
only where the tree refuses the one change that is to be made. -/
def Accounts (project : Project) (index : Index) (settings : Settings)
    (instant : Calendar.Instant) (tree changed : FileTree) : Except Failure Outcome → Prop
  | .ok (.written path) =>
    project.sketches settings ≠ [] ∧ path = project.artifactPath settings ∧
      ∃ document, Document.assemble settings (project.sketches settings) index instant =
          some document ∧
        IsWritten tree changed path (document.render settings.sentinel)
  | .ok (.removed path) =>
    project.sketches settings = [] ∧ path = project.artifactPath settings ∧
      IsRemoved tree changed path
  | .ok .nothingToDo =>
    project.sketches settings = [] ∧ tree.exists? (project.artifactPath settings) = false ∧
      changed = tree
  | .error failure =>
    changed = tree ∧ ∃ fault,
      failure = .file (project.artifactPath settings) (.refused fault) ∧
      if project.sketches settings = [] then
        tree.exists? (project.artifactPath settings) = true ∧
          tree.removeFile (project.artifactPath settings) = .error fault
      else ∃ content, tree.write (project.artifactPath settings) content = .error fault

variable {project : Project} {index : Index} {settings : Settings}
  {instant : Calendar.Instant} {tree changed : FileTree} {path content : Bytes}

theorem isWritten_write {text : String} (h : tree.write path (encode text) = .ok changed) :
    IsWritten tree changed path text := by
  obtain ⟨place, -, hset, hresolve⟩ := FileTree.write_ok h
  refine ⟨FileTree.read_write h, place, hresolve, ?_⟩
  rw [hset]
  exact tree.differsOnlyAt_set place _

theorem isRemoved_removeFile (hexists : tree.exists? path = true)
    (h : tree.removeFile path = .ok changed) : IsRemoved tree changed path := by
  obtain ⟨entry, hnames, herase, hgone⟩ := FileTree.removeFile_ok h
  refine ⟨hexists, hgone, entry, hnames, ?_, ?_⟩
  · obtain ⟨directory, name, -, -, node, hnode, hplain⟩ := hnames
    rw [herase, FileTree.node?_erase_self (by simp [hnode, hplain])]
  · rw [herase]
    exact tree.differsOnlyAt_erase entry

theorem accounts_removeStale (hnone : project.sketches settings = []) :
    project.Accounts index settings instant tree
      (removeStale tree (project.artifactPath settings)).2
      (removeStale tree (project.artifactPath settings)).1 := by
  unfold removeStale
  by_cases hexists : tree.exists? (project.artifactPath settings) = true
  · rw [if_pos hexists]
    cases hremove : tree.removeFile (project.artifactPath settings) with
    | ok changed => exact ⟨hnone, rfl, isRemoved_removeFile hexists hremove⟩
    | error fault =>
      refine ⟨rfl, fault, rfl, ?_⟩
      rw [if_pos hnone]
      exact ⟨hexists, hremove⟩
  · rw [if_neg hexists]
    exact ⟨hnone, Bool.eq_false_iff.mpr hexists, rfl⟩

theorem accounts_writeArtifact {document : Document}
    (hsome : project.sketches settings ≠ [])
    (hdocument : Document.assemble settings (project.sketches settings) index instant =
      some document) :
    project.Accounts index settings instant tree
      (writeArtifact tree (project.artifactPath settings)
        (document.render settings.sentinel)).2
      (writeArtifact tree (project.artifactPath settings)
        (document.render settings.sentinel)).1 := by
  unfold writeArtifact
  cases hwrite : tree.write (project.artifactPath settings)
      (encode (document.render settings.sentinel)) with
  | ok changed => exact ⟨hsome, rfl, document, hdocument, isWritten_write hwrite⟩
  | error fault =>
    refine ⟨rfl, fault, rfl, ?_⟩
    rw [if_neg hsome]
    exact ⟨_, hwrite⟩

/-- Every outcome accounts for the tree that the run leaves. -/
theorem generate_accounts (project : Project) (index : Index) (settings : Settings)
    (instant : Calendar.Instant) (tree : FileTree) :
    project.Accounts index settings instant tree
      (project.generate tree index settings instant).2
      (project.generate tree index settings instant).1 := by
  unfold generate document
  by_cases hnone : project.sketches settings = []
  · rw [Document.assemble_eq_none hnone]
    exact accounts_removeStale hnone
  · have hdocument := Document.assemble_eq_foldl settings index instant hnone
    rw [hdocument]
    exact accounts_writeArtifact hnone hdocument

end Project

end Sketchbook
