import Sketchbook.CommandLine.Run
import Sketchbook.Proofs.Project.Overwrite

/-! The two ways to generate. Printing changes nothing, and prints what writing leaves in the
artifact. Without sketches nothing is printed, and writing leaves no artifact. A project that
cannot be opened or a snapshot that cannot be loaded makes the same report either way. -/
namespace Sketchbook
open Text

theorem FileTree.read_ne_ok {tree : FileTree} {path : Bytes} (h : tree.exists? path = false)
    (content : Bytes) : tree.read path ≠ .ok content := by
  intro hread
  obtain ⟨location, hresolve, hnode⟩ := FileTree.read_eq_ok_iff.mp hread
  simp [FileTree.exists?, FileTree.nodeAt?, hresolve, hnode] at h

namespace Project

variable {tree changed : FileTree} {project : Project} {index : Index} {settings : Settings}
  {instant : Calendar.Instant} {outcome : Outcome}

/-- What a run with sketches has written is the document. -/
theorem read_artifact {document : Document}
    (hdocument : project.document index settings instant = some document)
    (h : project.generate tree index settings instant = (.ok outcome, changed)) :
    changed.read (project.artifactPath settings) =
      .ok (encode (document.render settings.sentinel)) := by
  rw [generate_of_document hdocument, writeArtifact] at h
  split at h
  · next written hwritten =>
    cases h
    exact FileTree.read_write hwritten
  · cases h

/-- After a run without sketches there is no artifact. -/
theorem exists?_artifact (hdocument : project.document index settings instant = none)
    (h : project.generate tree index settings instant = (.ok outcome, changed)) :
    changed.exists? (project.artifactPath settings) = false := by
  simp only [generate, hdocument, removeStale] at h
  split at h
  · split at h
    · next removed hremoved =>
      cases h
      obtain ⟨entry, -, -, hgone⟩ := FileTree.removeFile_ok hremoved
      exact hgone
    · cases h
  · next hexists =>
    cases h
    exact Bool.eq_false_iff.mpr hexists

end Project

namespace CommandLine

def GenerateArguments.printing (arguments : GenerateArguments) : GenerateArguments :=
  { arguments with toOutput := true }

def GenerateArguments.writing (arguments : GenerateArguments) : GenerateArguments :=
  { arguments with toOutput := false }

/-- With sketches the text printed is, byte for byte, the artifact that is left. Without sketches
no text is printed and no artifact can be read. -/
def SameSource (project : Project) (settings : Settings) (printed written : Report) : Prop :=
  if project.sketches settings = [] then
    printed.output = "" ∧ ∀ content, written.tree.read (project.artifactPath settings) ≠ .ok content
  else written.tree.read (project.artifactPath settings) = .ok (encode printed.output)

/-- What the reports of the two ways have to do with each other. -/
structure ModesAgree (surroundings : Surroundings) (tree : FileTree)
    (arguments : GenerateArguments) (printed written : Report) : Prop where
  unchanged : printed.tree = tree
  openFailure : ∀ failure, openFor tree arguments.project = .error failure →
    printed.code = 1 ∧ written = printed
  loadFailure : ∀ project failure records, openFor tree arguments.project = .ok project →
    factsFor surroundings tree arguments project = (.error failure, records) →
      printed.code = 1 ∧ written = printed
  prints : ∀ project index records, openFor tree arguments.project = .ok project →
    factsFor surroundings tree arguments project = (.ok index, records) → printed.code = 0
  sameSource : printed.code = 0 → written.code = 0 → ∃ project,
    openFor tree arguments.project = .ok project ∧
      SameSource project arguments.settings printed written

variable {surroundings : Surroundings} {tree : FileTree} {arguments : GenerateArguments}
  {project : Project} {index : Index} {records : List LogRecord} {failure : Failure}

theorem runGenerate_of_openFailure (hopen : openFor tree arguments.project = .error failure) :
    runGenerate surroundings tree arguments =
      fail tree [] ("opening project " ++ Path.display arguments.project.directory) failure := by
  rw [runGenerate, hopen]

theorem runGenerate_of_loadFailure (hopen : openFor tree arguments.project = .ok project)
    (hfacts : factsFor surroundings tree arguments project = (.error failure, records)) :
    runGenerate surroundings tree arguments =
      fail tree (Project.openRecords tree arguments.project.directory ++ records)
        ("loading snapshot " ++ Path.display (arguments.index.getD [])) failure := by
  rw [runGenerate, hopen]
  simp only [hfacts]

theorem runGenerate_of_ok (hopen : openFor tree arguments.project = .ok project)
    (hfacts : factsFor surroundings tree arguments project = (.ok index, records)) :
    runGenerate surroundings tree arguments =
      (if arguments.toOutput then printDocument else writeDocument) surroundings tree project index
        arguments.settings
        (Project.openRecords tree arguments.project.directory ++ records) := by
  rw [runGenerate, hopen]
  simp only [hfacts]
  split <;> rfl

theorem printDocument_report (surroundings : Surroundings) (tree : FileTree) (project : Project)
    (index : Index) (settings : Settings) (records : List LogRecord) :
    (printDocument surroundings tree project index settings records).code = 0 ∧
      (printDocument surroundings tree project index settings records).tree = tree ∧
      (printDocument surroundings tree project index settings records).output =
        ((project.document index settings surroundings.instant).map
          (·.render settings.sentinel)).getD "" := by
  unfold printDocument
  cases project.document index settings surroundings.instant with
  | none => exact ⟨rfl, rfl, rfl⟩
  | some document => exact ⟨rfl, rfl, rfl⟩

/-- Writing succeeds where generating does, and leaves the same tree. -/
theorem code_writeDocument_eq_zero_iff {settings : Settings} :
    (writeDocument surroundings tree project index settings records).code = 0 ↔
      ∃ outcome, project.generate tree index settings surroundings.instant =
        (.ok outcome, (writeDocument surroundings tree project index settings records).tree) := by
  unfold writeDocument
  cases project.generate tree index settings surroundings.instant with
  | mk result changed =>
    cases result with
    | ok outcome => simp
    | error failure => simp [fail]

theorem sameSource_documents {settings : Settings} (surroundings : Surroundings)
    (records : List LogRecord)
    (h : (writeDocument surroundings tree project index settings records).code = 0) :
    SameSource project settings
      (printDocument surroundings tree project index settings records)
      (writeDocument surroundings tree project index settings records) := by
  obtain ⟨outcome, hrun⟩ := code_writeDocument_eq_zero_iff.mp h
  obtain ⟨-, -, houtput⟩ :=
    printDocument_report surroundings tree project index settings records
  unfold SameSource
  by_cases hnone : project.sketches settings = []
  · have hdocument : project.document index settings surroundings.instant = none :=
      Document.assemble_eq_none hnone
    rw [if_pos hnone, houtput, hdocument]
    exact ⟨rfl, FileTree.read_ne_ok (Project.exists?_artifact hdocument hrun)⟩
  · have hdocument := Project.document_eq index surroundings.instant hnone
    rw [if_neg hnone, houtput, Project.read_artifact hdocument hrun, hdocument]
    rfl

/-- Printing and writing are two views of one source, whatever the tree and the arguments. -/
theorem modesAgree_runGenerate (surroundings : Surroundings) (tree : FileTree)
    (arguments : GenerateArguments) :
    ModesAgree surroundings tree arguments
      (runGenerate surroundings tree arguments.printing)
      (runGenerate surroundings tree arguments.writing) := by
  cases hopen : openFor tree arguments.project with
  | error failure =>
    have hprinted : runGenerate surroundings tree arguments.printing = _ :=
      runGenerate_of_openFailure hopen
    have hwritten : runGenerate surroundings tree arguments.writing = _ :=
      runGenerate_of_openFailure hopen
    rw [hprinted, hwritten]
    exact ⟨rfl, fun _ _ => ⟨rfl, rfl⟩, by simp [hopen], by simp [hopen], by simp [fail]⟩
  | ok project =>
    cases hfacts : factsFor surroundings tree arguments project with
    | mk facts records =>
      cases facts with
      | error failure =>
        have hprinted : runGenerate surroundings tree arguments.printing = _ :=
          runGenerate_of_loadFailure hopen hfacts
        have hwritten : runGenerate surroundings tree arguments.writing = _ :=
          runGenerate_of_loadFailure hopen hfacts
        rw [hprinted, hwritten]
        refine ⟨rfl, by simp [hopen], fun _ _ _ _ _ => ⟨rfl, rfl⟩, ?_, by simp [fail]⟩
        intro other index more hother hindex
        cases hopen.symm.trans hother
        cases hfacts.symm.trans hindex
      | ok index =>
        have hprinted : runGenerate surroundings tree arguments.printing = _ :=
          runGenerate_of_ok hopen hfacts
        have hwritten : runGenerate surroundings tree arguments.writing = _ :=
          runGenerate_of_ok hopen hfacts
        rw [hprinted, hwritten]
        obtain ⟨hcode, htree, -⟩ := printDocument_report surroundings tree project index
          arguments.settings
          (Project.openRecords tree arguments.project.directory ++ records)
        refine ⟨htree, by simp [hopen], ?_, fun _ _ _ _ _ => hcode, ?_⟩
        · intro other failure more hother hfailure
          cases hopen.symm.trans hother
          cases hfacts.symm.trans hfailure
        · intro _ hsucceeds
          exact ⟨project, hopen, sameSource_documents surroundings _ hsucceeds⟩

def blinkArguments : GenerateArguments := { project := { directory := [47], name := some "Blink" } }

def blinkSurroundings : Surroundings := ⟨Project.parseBlink, ⟨0, 0, 0⟩⟩

/-- There is a sketch, both ways succeed, and the artifact holds what is printed. -/
theorem modesAgree_runGenerate_blink :
    let printed := runGenerate blinkSurroundings Project.blinkTree blinkArguments.printing
    let written := runGenerate blinkSurroundings Project.blinkTree blinkArguments.writing
    openFor Project.blinkTree blinkArguments.project = .ok Project.blink ∧
      Project.blink.sketches {} ≠ [] ∧ printed.code = 0 ∧ written.code = 0 ∧
      printed.tree = Project.blinkTree ∧
      written.tree.read (Project.blink.artifactPath {}) = .ok (encode printed.output) := by
  intro printed written
  have hopen : openFor Project.blinkTree blinkArguments.project = .ok Project.blink :=
    Project.openAt_blink
  have hsketches : Project.blink.sketches blinkArguments.settings ≠ [] := by decide +kernel
  have hagree := modesAgree_runGenerate blinkSurroundings Project.blinkTree blinkArguments
  have hprinted : printed.code = 0 := hagree.prints Project.blink _ _ hopen rfl
  have hwritten : written.code = 0 := by
    have hname : IsName (encode ".ino.cpp") := by decide +kernel
    have hfree : Project.blinkTree.node? [encode ".ino.cpp"] = none := by decide +kernel
    have hpath : Project.blink.artifactPath blinkArguments.settings =
        FileTree.pathOf [encode ".ino.cpp"] := by decide +kernel
    have hrun : written = writeDocument blinkSurroundings Project.blinkTree Project.blink _
      blinkArguments.settings _ := runGenerate_of_ok hopen rfl
    rw [hrun, writeDocument, Project.generate_of_document (Project.document_eq _ _ hsketches),
      Project.writeArtifact, hpath,
      FileTree.write_entry rfl hname (FileTree.hasRoom_of_free ⟨hname, rfl⟩ hfree)]
  obtain ⟨project, hproject, hsame⟩ := hagree.sameSource hprinted hwritten
  cases hopen.symm.trans hproject
  unfold SameSource at hsame
  rw [if_neg hsketches] at hsame
  exact ⟨hopen, hsketches, hprinted, hwritten, hagree.unchanged, hsame⟩

end CommandLine

end Sketchbook
