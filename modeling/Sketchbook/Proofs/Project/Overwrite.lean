import Sketchbook.Proofs.Document.Segments
import Sketchbook.Proofs.Project.Members

/-! What generating does to the files that it is made from. The only file written is the one that
the path of the artifact leads to, and nothing keeps this from being a sketch: it is where the
artifact has the name of a sketch, and where the one is a link to the other. -/
namespace Sketchbook.Project
open Text

variable {tree changed : FileTree} {path : Bytes} {name : Option String} {project : Project}
  {settings : Settings} {index : Index} {instant : Calendar.Instant} {sketch : Sketch}

/-- The run writes, and the path of the artifact leads where the other path does. -/
def Overwrites (project : Project) (tree : FileTree) (index : Index) (settings : Settings)
    (instant : Calendar.Instant) (path : Bytes) : Prop :=
  (project.generate tree index settings instant).1 =
      .ok (.written (project.artifactPath settings)) ∧
    tree.resolve (project.artifactPath settings) = tree.resolve path

theorem document_eq (index : Index) (instant : Calendar.Instant)
    (hne : project.sketches settings ≠ []) : project.document index settings instant =
      some ((project.sketches settings).foldl (Document.add index)
        (Document.start settings instant)) :=
  Document.assemble_eq_foldl settings index instant hne

theorem generate_of_document {document : Document}
    (hdocument : project.document index settings instant = some document) :
    project.generate tree index settings instant =
      writeArtifact tree (project.artifactPath settings)
        (document.render settings.sentinel) := by
  rw [generate, hdocument]

/-- A file that has been written holds the text, and every path that led elsewhere reads what it
read before. -/
theorem read_write_of_resolve {artifact text : Bytes} {location : Location} {content : Bytes}
    (hwrite : tree.write artifact text = .ok changed)
    (hresolve : tree.resolve path = .ok location)
    (hfile : tree.node? location = some (.file content)) :
    (tree.resolve artifact = tree.resolve path ∧ changed.read path = .ok text) ∨
      (tree.resolve artifact ≠ tree.resolve path ∧ changed.read path = tree.read path) := by
  obtain ⟨place, hroom, rfl, hartifact⟩ := FileTree.write_ok hwrite
  have halike := hroom.alikeBut_set text
  have hwritten := FileTree.node?_set_self (hroom.admits text)
  by_cases hplace : location = place
  · subst hplace
    have hbefore := halike.symm.resolve (fun _ => ⟨content, hfile⟩) hartifact
    have hafter := halike.resolve (fun _ => ⟨text, hwritten⟩) hresolve
    exact .inl ⟨hbefore.trans hresolve.symm,
      FileTree.read_eq_ok_iff.mpr ⟨location, hafter, hwritten⟩⟩
  · refine .inr ⟨fun hsame => ?_, halike.read_of_ne hresolve hplace⟩
    have hafter := halike.resolve_of_ne hplace (hsame.trans hresolve)
    exact hplace (Except.ok.inj (hafter.symm.trans hartifact))

/-- A sketch keeps its content just where the run does not write it, or writes what it holds
already. A sketch that is written holds the unified source. -/
theorem read_generate_iff (hopen : openAt tree path name = .ok project)
    (settings : Settings) (index : Index) (instant : Calendar.Instant)
    (hsketch : sketch ∈ project.sketches settings) :
    ∃ document content, project.document index settings instant = some document ∧
      tree.read (project.filePath sketch.name) = .ok content ∧
      (project.Overwrites tree index settings instant (project.filePath sketch.name) →
        (project.generate tree index settings instant).2.read (project.filePath sketch.name) =
          .ok (encode (document.render settings.sentinel))) ∧
      ((project.generate tree index settings instant).2.read (project.filePath sketch.name) =
          .ok content ↔
        (project.Overwrites tree index settings instant (project.filePath sketch.name) →
          content = encode (document.render settings.sentinel))) := by
  obtain ⟨location, content, hresolve, hfile⟩ := exists_resolve_sketch hopen hsketch
  have hread := FileTree.read_eq_ok_iff.mpr ⟨location, hresolve, hfile⟩
  have hdocument := document_eq index instant (List.ne_nil_of_mem hsketch)
  refine ⟨_, content, hdocument, hread, ?_⟩
  rw [Overwrites, generate_of_document hdocument, writeArtifact]
  cases hwrite : tree.write (project.artifactPath settings) (encode (Document.render _ _)) with
  | error fault => simp [hread]
  | ok changed =>
    cases read_write_of_resolve hwrite hresolve hfile with
    | inl hsame => simp [hsame, eq_comm]
    | inr hother => simp [hother, hread]

def sketchNamed : Settings := { artifactName := "Blink.ino" }

/-- The sketch does not keep its content. -/
theorem not_read_generate_blink :
    openAt blinkTree [47] (some "Blink") = .ok blink ∧
    (⟨"Blink.ino", true, none⟩ : Sketch) ∈ blink.sketches sketchNamed ∧
    blinkTree.read (blink.filePath "Blink.ino") = .ok (encode blinkText) ∧
    (blink.generate blinkTree .empty sketchNamed ⟨0, 0, 0⟩).2.read (blink.filePath "Blink.ino") ≠
      .ok (encode blinkText) := by
  have hsketch : (⟨"Blink.ino", true, none⟩ : Sketch) ∈ blink.sketches sketchNamed := by
    decide +kernel
  have htext : (blink.document .empty sketchNamed ⟨0, 0, 0⟩).map (·.render defaultSentinel) ≠
      some blinkText := by decide +kernel
  obtain ⟨document, content, hdocument, hread, -, hkept⟩ :=
    read_generate_iff openAt_blink sketchNamed .empty ⟨0, 0, 0⟩ hsketch
  have hwritten : (blink.generate blinkTree .empty sketchNamed ⟨0, 0, 0⟩).1 =
      .ok (.written (blink.artifactPath sketchNamed)) := by
    have hname : IsName (encode "Blink.ino") := by decide +kernel
    have hfile : blinkTree.node? [encode "Blink.ino"] = some (.file (encode blinkText)) := by
      decide +kernel
    have hpath : blink.artifactPath sketchNamed = FileTree.pathOf [encode "Blink.ino"] := by
      decide +kernel
    rw [generate_of_document hdocument, writeArtifact, hpath,
      FileTree.write_entry rfl hname (FileTree.hasRoom_of_file ⟨hname, rfl⟩ hfile)]
  have hbefore : blinkTree.read (blink.filePath "Blink.ino") = .ok (encode blinkText) :=
    read_blinkPath
  cases hread.symm.trans hbefore
  refine ⟨openAt_blink, hsketch, hbefore, fun h => ?_⟩
  have hsame := congrArg decode? (hkept.mp h ⟨hwritten, rfl⟩)
  rw [decode?_encode, decode?_encode] at hsame
  rw [hdocument] at htext
  exact htext hsame.symm

end Sketchbook.Project
