import Sketchbook.CommandLine.Run
import Sketchbook.Proofs.Document.Banner
import Sketchbook.Proofs.Project.Alike

/-! Generating anew. A run opens the project, indexes it and generates, and the artifact of an
earlier run may be listed, read and indexed on the way. What the run leaves in its place does not
depend on it: only the time in the banner tells the runs apart. -/
namespace Sketchbook
open Text FileTree

def Project.regenerate (tree : FileTree) (parse : String → SyntaxTree) (path : Bytes)
    (name : Option String) (settings : Settings) (sourceExtensions : List String)
    (instant : Calendar.Instant) : Except Failure Project.Outcome × FileTree :=
  match Project.openAt tree path name with
  | .error failure => (.error failure, tree)
  | .ok project =>
    project.generate tree (project.buildIndex tree parse sourceExtensions) settings instant

/-- It is what the command does to the tree, unless it is given a snapshot or prints. -/
theorem CommandLine.tree_runGenerate {arguments : GenerateArguments}
    (hindex : arguments.index = none) (hprint : arguments.toOutput = false)
    (surroundings : Surroundings) (tree : FileTree) :
    (runGenerate surroundings tree arguments).tree =
      (Project.regenerate tree surroundings.parse arguments.project.directory
        arguments.project.name arguments.settings arguments.project.extensions
        surroundings.instant).2 := by
  unfold runGenerate Project.regenerate openFor
  cases Project.openAt tree arguments.project.directory arguments.project.name with
  | error failure => rfl
  | ok project =>
    simp only [factsFor, hindex, hprint, Bool.false_eq_true, if_false, writeDocument]
    split <;> next h => simp [h, fail]

namespace Project

variable {tree other : FileTree} {location : Location} {path : Bytes} {name : Option String}
  {settings : Settings}

/-- What is in the place of the artifact after two runs: nothing, or files that differ in the
time only. -/
inductive SameButTime (settings : Settings) (instant again : Calendar.Instant) :
    Option FileNode → Option FileNode → Prop
  | nothing : SameButTime settings instant again none none
  | files (rest : String) : SameButTime settings instant again
      (some (.file (encode (Document.beforeTime settings ++ instant.render ++ "\n\n" ++ rest))))
      (some (.file (encode (Document.beforeTime settings ++ again.render ++ "\n\n" ++ rest))))

def artifact? (project : Project) (index : Index) (settings : Settings)
    (instant : Calendar.Instant) : Option FileNode :=
  (project.document index settings instant).map fun document =>
    .file (encode (document.render settings.sentinel))

theorem artifact?_eq_none_iff {project : Project} {index : Index} {instant : Calendar.Instant} :
    project.artifact? index settings instant = none ↔ project.sketches settings = [] := by
  rw [artifact?, Option.map_eq_none_iff, document]
  constructor
  · intro hnone
    by_contra hne
    simp [Document.assemble_eq_foldl settings index instant hne] at hnone
  · exact Document.assemble_eq_none

theorem sameButTime_artifact? (project : Project) (index : Index) (settings : Settings)
    (instant again : Calendar.Instant) : SameButTime settings instant again
      (project.artifact? index settings instant) (project.artifact? index settings again) := by
  cases h : project.document index settings instant with
  | none =>
    have hnone : project.sketches settings = [] :=
      artifact?_eq_none_iff.mp (by rw [artifact?, h, Option.map_none])
    rw [artifact?_eq_none_iff.mpr hnone, artifact?_eq_none_iff.mpr hnone]
    exact .nothing
  | some document =>
    have hagain := Document.assemble_again h again
    rw [artifact?, artifact?, h, Project.document, hagain, Option.map_some, Option.map_some,
      Document.render_of_assemble h, Document.render_of_assemble hagain]
    exact .files document.afterBanner

namespace IsHome

/-- An artifact that is not wanted is taken away, and nothing else. -/
theorem removeStale_eq (h : IsHome tree path location settings)
    (hroom : tree.HasRoom (artifactPlace location settings)) : ∃ outcome changed,
      removeStale tree (pathOf (artifactPlace location settings)) = (.ok outcome, changed) ∧
      AlikeBut (artifactPlace location settings) tree changed ∧
      changed.node? (artifactPlace location settings) = none := by
  have hexists : tree.exists? (pathOf (artifactPlace location settings)) =
      (tree.node? (artifactPlace location settings)).isSome :=
    exists?_entry h.directory h.isName hroom
  cases hnode : tree.node? (artifactPlace location settings) with
  | none =>
    refine ⟨.nothingToDo, tree, ?_, hroom.alikeBut_refl, hnode⟩
    rw [removeStale, hexists, hnode, if_neg (by simp)]
  | some node =>
    obtain ⟨content, rfl⟩ := hroom.2 node hnode
    have hremove : tree.removeFile (pathOf (artifactPlace location settings)) =
        .ok (tree.erase (artifactPlace location settings)) :=
      removeFile_entry h.directory h.isName hnode
    refine ⟨.removed (pathOf (artifactPlace location settings)), _, ?_, hroom.alikeBut_erase,
      node?_erase_self hroom.not_directory⟩
    rw [removeStale, hexists, hnode, hremove, if_pos (by simp)]

theorem generate_eq_set (h : IsHome tree path location settings)
    (hroom : tree.HasRoom (artifactPlace location settings)) {index : Index}
    {instant : Calendar.Instant} {document : Document}
    (hdocument : (opened tree location name).document index settings instant = some document) :
    (opened tree location name).generate tree index settings instant =
      (.ok (.written (pathOf (artifactPlace location settings))),
        tree.set (artifactPlace location settings)
          (.file (encode (document.render settings.sentinel)))) := by
  have hwrite : tree.write (pathOf (artifactPlace location settings))
      (encode (document.render settings.sentinel)) =
        .ok (tree.set (artifactPlace location settings)
          (.file (encode (document.render settings.sentinel)))) :=
    write_entry h.directory h.isName hroom _
  rw [generate, hdocument, h.artifactPath_opened]
  simp only [writeArtifact, hwrite]

/-- Generating succeeds, and makes the artifact what it is to be and nothing else. -/
theorem generate_eq (h : IsHome tree path location settings)
    (hroom : tree.HasRoom (artifactPlace location settings)) (name : Option String)
    (index : Index) (instant : Calendar.Instant) : ∃ outcome changed,
      (opened tree location name).generate tree index settings instant =
        (.ok outcome, changed) ∧
      AlikeBut (artifactPlace location settings) tree changed ∧
      changed.node? (artifactPlace location settings) =
        (opened tree location name).artifact? index settings instant := by
  rw [artifact?]
  cases hdocument : (opened tree location name).document index settings instant with
  | none =>
    rw [generate, hdocument, h.artifactPath_opened]
    exact h.removeStale_eq hroom
  | some document =>
    exact ⟨_, _, h.generate_eq_set hroom hdocument, hroom.alikeBut_set _,
      node?_set_self (hroom.admits _)⟩

end IsHome

section

variable {project : Project} (h : IsHome tree path location settings)
  (hroom : tree.HasRoom (artifactPlace location settings))
  (hopen : openAt tree path name = .ok project) (parse : String → SyntaxTree)
  (sourceExtensions : List String) (instant : Calendar.Instant)

include h hroom hopen

/-- A run succeeds, and makes the artifact what the project tells to and nothing else. -/
theorem IsHome.regenerate_ok : ∃ outcome changed,
    regenerate tree parse path name settings sourceExtensions instant = (.ok outcome, changed) ∧
    AlikeBut (artifactPlace location settings) tree changed ∧
    changed.node? (artifactPlace location settings) =
      project.artifact? (project.buildIndex tree parse sourceExtensions) settings instant := by
  cases (openAt_of_resolve h.resolve name).symm.trans hopen
  simp only [regenerate, hopen]
  exact h.generate_eq hroom name _ instant

theorem IsHome.regenerate_eq_set {document : Document}
    (hdocument : project.document (project.buildIndex tree parse sourceExtensions) settings
      instant = some document) :
    regenerate tree parse path name settings sourceExtensions instant =
      (.ok (.written (pathOf (artifactPlace location settings))),
        tree.set (artifactPlace location settings)
          (.file (encode (document.render settings.sentinel)))) := by
  cases (openAt_of_resolve h.resolve name).symm.trans hopen
  simp only [regenerate, hopen, h.generate_eq_set hroom hdocument]

end

/-- A run leaves in the place of the artifact what any alike tree tells to. -/
theorem regenerate_eq (h : IsHome tree path location settings)
    (halike : AlikeBut (artifactPlace location settings) tree other)
    (hspared : IsSpared tree path name settings) (hother : IsSpared other path name settings)
    (parse : String → SyntaxTree) (sourceExtensions : List String)
    (instant : Calendar.Instant) :
    ∃ outcome changed,
      regenerate other parse path name settings sourceExtensions instant =
        (.ok outcome, changed) ∧
      AlikeBut (artifactPlace location settings) other changed ∧
      changed.node? (artifactPlace location settings) =
        (opened tree location name).artifact?
          ((opened tree location name).buildIndex tree parse sourceExtensions) settings
          instant := by
  have hhome := h.of_alikeBut halike
  obtain ⟨outcome, changed, hrun, hchanged, hnode⟩ := hhome.regenerate_ok halike.otherRoom
    (openAt_of_resolve hhome.resolve name) parse sourceExtensions instant
  refine ⟨outcome, changed, hrun, hchanged, ?_⟩
  rw [hnode, artifact?, artifact?, h.document_eq halike hspared hother]

/-- A run on either tree succeeds and changes the artifact only, and both leave the same but for
the time. -/
def RunsAlike (run : FileTree → Calendar.Instant → Except Failure Outcome × FileTree)
    (place : Location) (settings : Settings) (tree other : FileTree)
    (instant again : Calendar.Instant) : Prop :=
  ∃ outcome outcome' changed changed',
    run tree instant = (.ok outcome, changed) ∧ run other again = (.ok outcome', changed') ∧
    AlikeBut place tree changed ∧ AlikeBut place other changed' ∧
    SameButTime settings instant again (changed.node? place) (changed'.node? place)

theorem runsAlike_of_alikeBut (h : IsHome tree path location settings)
    (halike : AlikeBut (artifactPlace location settings) tree other)
    (hspared : IsSpared tree path name settings) (hother : IsSpared other path name settings)
    (parse : String → SyntaxTree) (sourceExtensions : List String)
    (instant again : Calendar.Instant) :
    RunsAlike (fun tree => regenerate tree parse path name settings sourceExtensions)
      (artifactPlace location settings) settings tree other instant again := by
  obtain ⟨outcome, changed, hrun, hchanged, hnode⟩ := regenerate_eq h halike.room.alikeBut_refl
    hspared hspared parse sourceExtensions instant
  obtain ⟨outcome', changed', hrun', hchanged', hnode'⟩ := regenerate_eq h halike
    hspared hother parse sourceExtensions again
  refine ⟨outcome, outcome', changed, changed', hrun, hrun', hchanged, hchanged', ?_⟩
  rw [hnode, hnode']
  exact sameButTime_artifact? _ _ settings instant again

/-- What a run leaves does not depend on the artifact that it finds, and in a directory clear of
links to its place a run after a run changes the time only, whether the first has found an artifact
or not. -/
theorem regenerate_forgets (h : IsHome tree path location settings)
    (halike : AlikeBut (artifactPlace location settings) tree other)
    (hspared : IsSpared tree path name settings) (hother : IsSpared other path name settings)
    (parse : String → SyntaxTree) (sourceExtensions : List String)
    (instant again : Calendar.Instant) :
    let run := fun tree => regenerate tree parse path name settings sourceExtensions
    RunsAlike run (artifactPlace location settings) settings tree other instant again ∧
      (IsClear tree location settings →
        RunsAlike run (artifactPlace location settings) settings tree (run tree instant).2
          instant again) := by
  intro run
  refine ⟨runsAlike_of_alikeBut h halike hspared hother parse sourceExtensions instant again,
    fun hclear => ?_⟩
  obtain ⟨outcome, changed, hrun, hchanged, -⟩ := regenerate_eq h halike.room.alikeBut_refl
    hspared hspared parse sourceExtensions instant
  have hfirst : (run tree instant).2 = changed := by simp only [run, hrun]
  have hstays := (h.of_alikeBut hchanged).isSpared_of_isClear (hclear.of_alikeBut hchanged) name
  rw [hfirst]
  exact runsAlike_of_alikeBut h hchanged hspared hstays parse sourceExtensions instant again

def freshTree : FileTree where
  entries :=
    [([encode "Blink.ino"], .file (encode blinkText)),
     ([encode "a.ino"], .link (encode "gone.ino")), ([encode "b.ino"], .link (encode "Blink.ino"))]
  distinct := by decide +kernel
  fit := by decide +kernel

def builtTree : FileTree := freshTree.set [encode ".ino.cpp"] (.file (encode "int n;\n"))

theorem names_freshTree :
    freshTree.names [] = [encode "Blink.ino", encode "a.ino", encode "b.ino"] :=
  names_eq (by decide +kernel) (by decide +kernel)

theorem isClear_freshTree : IsClear freshTree [] {} := by
  intro name own target _ _ hlink hplace
  have hname : encode name ∈ freshTree.names [] := mem_names_iff.mpr (by simp [hlink])
  rw [names_freshTree, List.mem_cons, List.mem_cons, List.mem_singleton] at hname
  obtain hname | hname | hname := hname
  · have hfile : freshTree.node? [encode "Blink.ino"] = some (.file (encode blinkText)) := by
      decide +kernel
    rw [hname] at hlink
    cases hlink.symm.trans hfile
  · rw [hname] at hplace
    exact absurd hplace (by decide +kernel)
  · rw [hname] at hplace
    exact absurd hplace (by decide +kernel)

def fresh : Project where
  name := "Blink"
  root := [47]
  members := [⟨"Blink.ino", blinkPath, none⟩, ⟨"b.ino", encode "/b.ino", some blinkPath⟩]

def built : Project where
  name := "Blink"
  root := [47]
  members := ⟨".ino.cpp", encode "/.ino.cpp", none⟩ :: fresh.members

theorem namesNoSketch_default : NamesNoSketch {} := by
  have hextension : extensionOf ".ino.cpp" = some "cpp" := by decide +kernel
  intro own hown
  cases hextension.symm.trans hown
  decide +kernel

/-- Nothing is there before the first run, and what the second run finds is indexed. The artifact
is a member of the built project and not of the other. -/
theorem regenerate_forgets_fresh :
    openAt freshTree [47] (some "Blink") = .ok fresh ∧
    openAt builtTree [47] (some "Blink") = .ok built ∧
    IsHome freshTree [47] [] {} ∧ AlikeBut [encode ".ino.cpp"] freshTree builtTree ∧
    IsSpared freshTree [47] (some "Blink") {} ∧ IsSpared builtTree [47] (some "Blink") {} ∧
    IsClear freshTree [] {} ∧ freshTree.node? [encode ".ino.cpp"] = none ∧
    let run := fun tree => regenerate tree parseBlink [47] (some "Blink") {} ["ino", "cpp"]
    RunsAlike run [encode ".ino.cpp"] {} freshTree builtTree ⟨0, 0, 0⟩ ⟨86400, 0, 0⟩ ∧
      RunsAlike run [encode ".ino.cpp"] {} freshTree (run freshTree ⟨0, 0, 0⟩).2
        ⟨0, 0, 0⟩ ⟨86400, 0, 0⟩ ∧
      (run freshTree ⟨0, 0, 0⟩).2.node? [encode ".ino.cpp"] ≠ none := by
  have hfresh : openAt freshTree [47] (some "Blink") = .ok fresh := by
    rw [openAt_of_names (by decide +kernel) rfl names_freshTree]
    decide +kernel
  have hnames : builtTree.names [] =
      [encode ".ino.cpp", encode "Blink.ino", encode "a.ino", encode "b.ino"] :=
    names_eq (by decide +kernel) (by decide +kernel)
  have hbuilt : openAt builtTree [47] (some "Blink") = .ok built := by
    rw [openAt_of_names (by decide +kernel) rfl hnames]
    decide +kernel
  have hnone : freshTree.node? [encode ".ino.cpp"] = none := by decide +kernel
  have hroom : freshTree.HasRoom [encode ".ino.cpp"] := hasRoom_of_free (by decide +kernel) hnone
  have hhome : IsHome freshTree [47] [] {} :=
    { resolve := by decide +kernel
      directory := rfl
      isName := by decide +kernel
      namesNoSketch := namesNoSketch_default }
  have halike : AlikeBut [encode ".ino.cpp"] freshTree builtTree := hroom.alikeBut_set _
  have hspared : IsSpared freshTree [47] (some "Blink") {} :=
    (isSpared_iff hfresh).mpr (by decide +kernel)
  have hother : IsSpared builtTree [47] (some "Blink") {} :=
    (isSpared_iff hbuilt).mpr (by decide +kernel)
  obtain ⟨hboth, hagain⟩ := regenerate_forgets hhome halike hspared hother parseBlink
    ["ino", "cpp"] ⟨0, 0, 0⟩ ⟨86400, 0, 0⟩
  obtain ⟨outcome, changed, hrun, -, hnode⟩ := hhome.regenerate_ok hroom hfresh parseBlink
    ["ino", "cpp"] ⟨0, 0, 0⟩
  refine ⟨hfresh, hbuilt, hhome, halike, hspared, hother, isClear_freshTree, hnone, hboth,
    hagain isClear_freshTree, ?_⟩
  have hsketches : fresh.sketches {} ≠ [] := by decide +kernel
  intro hgone
  have hmissing : changed.node? [encode ".ino.cpp"] = none :=
    (congrArg (·.2.node? [encode ".ino.cpp"]) hrun).symm.trans hgone
  exact hsketches (artifact?_eq_none_iff.mp (hnode.symm.trans hmissing))

def danglingTree : FileTree where
  entries := [([encode "Blink.ino"], .file []), ([encode "a.ino"], .link (encode ".ino.cpp"))]
  distinct := by decide +kernel
  fit := by decide +kernel

theorem openAt_danglingTree : openAt danglingTree [47] (some "Blink") = .ok blink := by
  have hnames : danglingTree.names [] = [encode "Blink.ino", encode "a.ino"] :=
    names_eq (by decide +kernel) (by decide +kernel)
  rw [openAt_of_names (by decide +kernel) rfl hnames]
  decide +kernel

theorem isHome_danglingTree : IsHome danglingTree [47] [] {} where
  resolve := by decide +kernel
  directory := rfl
  isName := by decide +kernel
  namesNoSketch := namesNoSketch_default

theorem hasRoom_danglingTree : danglingTree.HasRoom [encode ".ino.cpp"] :=
  hasRoom_of_free (by decide +kernel) (by decide +kernel)

def firstText : String :=
  ((blink.document .empty {} ⟨0, 0, 0⟩).map (·.render defaultSentinel)).getD ""

/-- What the first run leaves. -/
def filledTree : FileTree := danglingTree.set [encode ".ino.cpp"] (.file (encode firstText))

def linked : Project where
  name := "Blink"
  root := [47]
  members :=
    [⟨".ino.cpp", encode "/.ino.cpp", none⟩, ⟨"Blink.ino", blinkPath, none⟩,
     ⟨"a.ino", encode "/a.ino", some (encode "/.ino.cpp")⟩]

theorem openAt_filledTree : openAt filledTree [47] (some "Blink") = .ok linked := by
  have hnames : filledTree.names [] = [encode ".ino.cpp", encode "Blink.ino", encode "a.ino"] :=
    names_eq (by decide +kernel) (by decide +kernel)
  rw [openAt_of_names (by decide +kernel) rfl hnames]
  decide +kernel

/-- Where no extension is that of a source nothing is indexed. -/
theorem buildIndex_nil (tree : FileTree) (parse : String → SyntaxTree) (project : Project) :
    project.buildIndex tree parse [] = .empty := by
  have hnone (m : Member) : (indexMember tree parse [] m).unit? = none := by
    unfold indexMember
    split
    · rfl
    · simp [isSourceExtension, Indexing.unit?]
  simp [buildIndex, hnone]
  rfl

theorem regenerate_danglingTree :
    regenerate danglingTree parseBlink [47] (some "Blink") {} [] ⟨0, 0, 0⟩ =
      (.ok (.written (pathOf [encode ".ino.cpp"])), filledTree) := by
  obtain ⟨first, hfirst⟩ : ∃ first, blink.document .empty {} ⟨0, 0, 0⟩ = some first :=
    ⟨_, Document.assemble_eq_foldl {} .empty ⟨0, 0, 0⟩ (by decide +kernel)⟩
  have htext : firstText = first.render defaultSentinel := by
    rw [firstText, hfirst]
    rfl
  rw [filledTree, htext]
  exact isHome_danglingTree.regenerate_eq_set hasRoom_danglingTree openAt_danglingTree
    parseBlink [] ⟨0, 0, 0⟩ (by rw [buildIndex_nil, hfirst])

theorem SameButTime.eq {instant : Calendar.Instant} {node other : Option FileNode}
    (h : SameButTime settings instant instant node other) : node = other := by
  cases h <;> rfl

/-- No sketch is a link to the artifact before the first run, and one is after it. So the second
run includes it, and leaves something else although it is made at the same time. -/
theorem not_runsAlike_dangling :
    openAt danglingTree [47] (some "Blink") = .ok blink ∧
    IsHome danglingTree [47] [] {} ∧ danglingTree.node? [encode ".ino.cpp"] = none ∧
    AlikeBut [encode ".ino.cpp"] danglingTree danglingTree ∧
    IsSpared danglingTree [47] (some "Blink") {} ∧
    let run := fun tree => regenerate tree parseBlink [47] (some "Blink") {} []
    ¬ RunsAlike run [encode ".ino.cpp"] {} danglingTree (run danglingTree ⟨0, 0, 0⟩).2
      ⟨0, 0, 0⟩ ⟨0, 0, 0⟩ := by
  have hspared : IsSpared danglingTree [47] (some "Blink") {} :=
    (isSpared_iff openAt_danglingTree).mpr (by decide +kernel)
  refine ⟨openAt_danglingTree, isHome_danglingTree, by decide +kernel,
    hasRoom_danglingTree.alikeBut_refl, hspared, ?_⟩
  intro run halike
  have hfilled : AlikeBut [encode ".ino.cpp"] danglingTree filledTree :=
    hasRoom_danglingTree.alikeBut_set _
  obtain ⟨outcome, again, hagain, -, hnode⟩ :=
    (isHome_danglingTree.of_alikeBut hfilled).regenerate_ok hfilled.otherRoom openAt_filledTree
      parseBlink [] ⟨0, 0, 0⟩
  have hfirst : run danglingTree ⟨0, 0, 0⟩ = _ := regenerate_danglingTree
  rw [hfirst] at halike
  obtain ⟨_, _, changed, changed', hrun, hrun', -, -, hsame⟩ := halike
  cases hfirst.symm.trans hrun
  cases hagain.symm.trans hrun'
  rw [buildIndex_nil] at hnode
  exact absurd (hsame.eq.trans hnode) (by decide +kernel)

end Project

end Sketchbook
