import Sketchbook.Proofs.FileTree.WritePlace
import Sketchbook.Proofs.Project.ErrorBlocks
import Sketchbook.Proofs.Text.Lines

/-! Projects opened on trees that differ in the artifact only. The artifact may be a member of one
and not of the other, and links may lead to it, but as long as no sketch does the sketches are the
same, and the index has the same under their names. -/
namespace Sketchbook.Project
open Text FileTree

variable {tree other : FileTree} {location place : Location} {path entry : Bytes}
  {name : Option String} {settings : Settings} {m : Member} {sketch : Sketch}

/-- An entry of the root is the same member in the other tree, if there is a file at the end of
its path where that ends at the place in question. -/
theorem member?_of_alikeBut {root : Bytes} (halike : AlikeBut place tree other)
    (hentry : entry :: location ≠ place)
    (hplace : tree.resolve (Path.join root entry) = .ok place →
      ∃ content, other.node? place = some (.file content))
    (hm : member? tree root location entry = some m) :
    member? other root location entry = some m := by
  obtain ⟨hname, hpath, hfile, hlink⟩ := member?_eq_some_iff.mp hm
  obtain ⟨found, content, hresolve, hnode⟩ := isFile_iff.mp hfile
  have hend : found = place → ∃ content, other.node? place = some (.file content) :=
    fun hfound => hplace (hpath ▸ hfound ▸ hresolve)
  have hother := halike.resolve hend hresolve
  have hotherFile : other.isFile m.path = true := by
    refine isFile_iff.mpr ⟨found, ?_⟩
    by_cases hfound : found = place
    · obtain ⟨written, hwritten⟩ := hend hfound
      exact ⟨written, hother, hfound ▸ hwritten⟩
    · exact ⟨content, hother, (halike.elsewhere found hfound).trans hnode⟩
  refine member?_eq_some_iff.mpr ⟨hname, hpath, hotherFile, ?_⟩
  rw [hlink, linkTarget?, linkTarget?, halike.elsewhere _ hentry, canonical, canonical, hresolve,
    hother]

def sketchAt? (tree : FileTree) (location : Location) (project : String) (settings : Settings)
    (entry : Bytes) : Option Sketch :=
  (member? tree (pathOf location) location entry).bind (Member.sketch? project settings)

theorem sketches_opened (tree : FileTree) (location : Location) (name : Option String)
    (settings : Settings) : (opened tree location name).sketches settings =
      (rootNames tree location).filterMap
        (sketchAt? tree location (opened tree location name).name settings) :=
  List.filterMap_filterMap

theorem encode_name_of_sketchAt? {project : String}
    (h : sketchAt? tree location project settings entry = some sketch) :
    encode sketch.name = entry := by
  obtain ⟨m, hm, hsketch⟩ := Option.bind_eq_some_iff.mp h
  obtain ⟨own, -, -, rfl⟩ := Member.sketch?_eq_some_iff.mp hsketch
  exact (member?_eq_some_iff.mp hm).1

theorem sketchAt?_of_alikeBut {project : String} (halike : AlikeBut place tree other)
    (hentry : entry :: location ≠ place)
    (hplace : tree.resolve (Path.join (pathOf location) entry) = .ok place →
      ∃ content, other.node? place = some (.file content))
    (h : sketchAt? tree location project settings entry = some sketch) :
    sketchAt? other location project settings entry = some sketch := by
  obtain ⟨m, hm, hsketch⟩ := Option.bind_eq_some_iff.mp h
  exact Option.bind_eq_some_iff.mpr ⟨m, member?_of_alikeBut halike hentry hplace hm, hsketch⟩

def NamesNoSketch (settings : Settings) : Prop :=
  ∀ own, extensionOf settings.artifactName = some own → settings.isSketchExtension own = false

theorem sketchAt?_artifact (hextension : NamesNoSketch settings) (tree : FileTree)
    (location : Location) (project : String) :
    sketchAt? tree location project settings (encode settings.artifactName) = none := by
  refine Option.eq_none_iff_forall_ne_some.mpr fun sketch h => ?_
  obtain ⟨m, hm, hsketch⟩ := Option.bind_eq_some_iff.mp h
  obtain ⟨own, hown, hmarks, -⟩ := Member.sketch?_eq_some_iff.mp hsketch
  rw [encode_injective (member?_eq_some_iff.mp hm).1] at hown
  exact absurd hmarks (by simp [hextension own hown])

/-- No sketch of the project at a path is a link that leads to the artifact. -/
def IsSpared (tree : FileTree) (path : Bytes) (name : Option String) (settings : Settings) :
    Prop :=
  ∀ project, openAt tree path name = .ok project →
    ∀ sketch ∈ project.sketches settings,
      sketch.linkTarget ≠ some (project.artifactPath settings)

theorem isSpared_iff {project : Project} (hopen : openAt tree path name = .ok project) :
    IsSpared tree path name settings ↔ ∀ sketch ∈ project.sketches settings,
      sketch.linkTarget ≠ some (project.artifactPath settings) := by
  constructor
  · intro hspared
    exact hspared project hopen
  · intro hsketches project' hopen'
    cases hopen.symm.trans hopen'
    exact hsketches

/-- A directory at a path, and settings whose artifact is no sketch. -/
structure IsHome (tree : FileTree) (path : Bytes) (location : Location) (settings : Settings) :
    Prop where
  resolve : tree.resolve path = .ok location
  directory : tree.node? location = some .directory
  isName : IsName (encode settings.artifactName)
  namesNoSketch : NamesNoSketch settings

def artifactPlace (location : Location) (settings : Settings) : Location :=
  encode settings.artifactName :: location

theorem artifactPlace_ne (hne : entry ≠ encode settings.artifactName) :
    entry :: location ≠ artifactPlace location settings :=
  fun hplace => hne (List.cons.inj hplace).1

/-- No link in the directory that is named like a sketch leads to the place of the artifact, be
there a file or nothing: what is written to the path of the link is not written there. -/
def IsClear (tree : FileTree) (location : Location) (settings : Settings) : Prop :=
  ∀ name own target, extensionOf name = some own → settings.isSketchExtension own = true →
    tree.node? (encode name :: location) = some (.link target) →
    tree.writePlace linkLimit tree.workingDirectory
      (Route.ofPath (pathOf (encode name :: location))) ≠ .ok (artifactPlace location settings)

/-- A link leads to the place or elsewhere whatever there is in the place. -/
theorem IsClear.of_alikeBut (h : IsClear tree location settings)
    (halike : AlikeBut (artifactPlace location settings) tree other) :
    IsClear other location settings := by
  intro name own target hown hmarks hlink hplace
  rw [halike.base] at hplace
  exact h name own target hown hmarks (halike.symm.keeps _ _ hlink (by simp))
    (halike.symm.writePlace hplace)

namespace IsHome

theorem of_alikeBut (h : IsHome tree path location settings)
    (halike : AlikeBut (artifactPlace location settings) tree other) :
    IsHome other path location settings where
  resolve := (halike.resolve_directory h.resolve h.directory).1
  directory := (halike.resolve_directory h.resolve h.directory).2
  isName := h.isName
  namesNoSketch := h.namesNoSketch

theorem artifactPath_opened (h : IsHome tree path location settings) (name : Option String) :
    (opened tree location name).artifactPath settings =
      pathOf (artifactPlace location settings) :=
  join_pathOf h.isName (isName_of_mem h.directory)

theorem rootNames_eq (h : IsHome tree path location settings) :
    rootNames tree location = tree.names location := by
  rw [rootNames, h.directory]

theorem name_opened (h : IsHome tree path location settings) (name : Option String) :
    (opened tree location name).name =
      name.getD (((Path.fileName? (pathOf location)).bind decode?).getD "project") := by
  rw [opened, nameOfPath, canonical, resolve_pathOf h.directory]
  rfl

/-- The artifact's own name can be passed over when the sketches are gathered. -/
theorem sketches_opened (h : IsHome tree path location settings) (name : Option String) :
    (opened tree location name).sketches settings =
      ((tree.names location).filter (· != encode settings.artifactName)).filterMap
        (sketchAt? tree location (opened tree location name).name settings) := by
  rw [Project.sketches_opened, h.rootNames_eq, List.filterMap_filter]
  refine List.filterMap_congr fun entry _ => ?_
  by_cases hentry : entry = encode settings.artifactName
  · simp [hentry, sketchAt?_artifact h.namesNoSketch]
  · simp [hentry]

theorem mem_sketches_iff (h : IsHome tree path location settings) :
    sketch ∈ (opened tree location name).sketches settings ↔
      ∃ entry ∈ tree.names location, entry ≠ encode settings.artifactName ∧
        sketchAt? tree location (opened tree location name).name settings entry =
          some sketch := by
  rw [h.sketches_opened]
  simp [List.mem_filterMap, List.mem_filter, and_assoc]

/-- The path of an entry that is no link leads to the entry. -/
theorem resolve_entry_of_member? (h : IsHome tree path location settings)
    (hentry : entry ∈ tree.names location)
    (hm : member? tree (pathOf location) location entry = some m) :
    tree.resolve m.path = .ok (entry :: location) ∨
      m.linkTarget = (tree.canonical m.path).toOption := by
  obtain ⟨-, hpath, -, hlink⟩ := member?_eq_some_iff.mp hm
  obtain ⟨node, hnode⟩ := Option.ne_none_iff_exists'.mp (mem_names_iff.mp hentry)
  have hname := isName_of_node? hnode
  rw [hlink, linkTarget?, hnode]
  have hresolve := resolve_entry h.directory hname
  rw [← join_pathOf hname (isName_of_mem h.directory), ← hpath] at hresolve
  cases node with
  | link target => exact .inr rfl
  | directory => exact .inl (hresolve.trans (by rw [walk_enter h.directory hnode (by simp), walk_nil]; rfl))
  | file content => exact .inl (hresolve.trans (by rw [walk_enter h.directory hnode (by simp), walk_nil]; rfl))

/-- The path of a sketch does not lead to the artifact, unless the sketch is a link to it. -/
theorem resolve_sketch_ne (h : IsHome tree path location settings)
    (hspared : IsSpared tree path name settings)
    (hsketch : sketch ∈ (opened tree location name).sketches settings) :
    tree.resolve ((opened tree location name).filePath sketch.name) ≠
      .ok (artifactPlace location settings) := by
  intro hresolve
  have hlink := hspared _ (openAt_of_resolve h.resolve name) sketch hsketch
  rw [h.artifactPath_opened] at hlink
  obtain ⟨entry, hentry, hne, hmade⟩ := h.mem_sketches_iff.mp hsketch
  rw [filePath, encode_name_of_sketchAt? hmade] at hresolve
  obtain ⟨m, hm, hmember⟩ := Option.bind_eq_some_iff.mp hmade
  obtain ⟨own, -, -, rfl⟩ := Member.sketch?_eq_some_iff.mp hmember
  have hpath : m.path = Path.join (opened tree location name).root entry :=
    (member?_eq_some_iff.mp hm).2.1
  rw [← hpath] at hresolve
  cases h.resolve_entry_of_member? hentry hm with
  | inl hself => exact artifactPlace_ne hne (Except.ok.inj (hself.symm.trans hresolve))
  | inr htarget => exact hlink (by simp [htarget, canonical, hresolve, Except.map, Except.toOption])

/-- A sketch that is a link to the artifact leads to its place, so there is none if the directory
is clear of such links. -/
theorem isSpared_of_isClear (h : IsHome tree path location settings)
    (hclear : IsClear tree location settings) (name : Option String) :
    IsSpared tree path name settings := by
  refine (isSpared_iff (openAt_of_resolve h.resolve name)).mpr fun sketch hsketch htarget => ?_
  rw [h.artifactPath_opened] at htarget
  obtain ⟨entry, hentry, -, hmade⟩ := h.mem_sketches_iff.mp hsketch
  obtain ⟨m, hm, hmember⟩ := Option.bind_eq_some_iff.mp hmade
  obtain ⟨own, hown, hmarks, rfl⟩ := Member.sketch?_eq_some_iff.mp hmember
  obtain ⟨rfl, hpath, hfile, hlink⟩ := member?_eq_some_iff.mp hm
  obtain ⟨node, hnode⟩ := Option.ne_none_iff_exists'.mp (mem_names_iff.mp hentry)
  obtain ⟨found, content, hresolve, hfound⟩ := isFile_iff.mp hfile
  rw [join_pathOf (isName_of_node? hnode) (isName_of_mem h.directory)] at hpath
  cases node with
  | file content => simp [hlink, linkTarget?, hnode] at htarget
  | directory => simp [hlink, linkTarget?, hnode] at htarget
  | link target =>
    have hsame : pathOf found = pathOf (artifactPlace location settings) := by
      simpa [hlink, linkTarget?, hnode, canonical, hresolve, Except.map, Except.toOption]
        using htarget
    have hnames : ∀ n ∈ artifactPlace location settings, IsName n :=
      List.forall_mem_cons.mpr ⟨h.isName, isName_of_mem h.directory⟩
    have hplace := eq_of_pathOf_eq (isName_of_mem hfound) hnames hsame
    rw [hpath] at hresolve
    exact hclear m.name own target hown hmarks hnode (writePlace_of_resolve
      (isAbsolute_pathOf _) (hplace ▸ hresolve) (hplace ▸ hfound))

/-- Where the artifact is a file, to be clear of links that lead to its place is to have no sketch
that is a link to it. -/
theorem isClear_iff (h : IsHome tree path location settings) {content : Bytes}
    (hfile : tree.node? (artifactPlace location settings) = some (.file content))
    (name : Option String) :
    IsClear tree location settings ↔ IsSpared tree path name settings := by
  refine ⟨fun hclear => h.isSpared_of_isClear hclear name, fun hspared => ?_⟩
  intro entry own target hown hmarks hlink hplace
  have hkeeps : Keeps tree tree := fun _ _ hnode _ => hnode
  obtain ⟨left, hwalk⟩ := hkeeps.walk_writePlace hplace hfile
  have hresolve : tree.resolve (pathOf (encode entry :: location)) =
      .ok (artifactPlace location settings) :=
    resolve_eq_ok_iff.mpr ⟨pathOf_cons_ne_nil _ _, left, hwalk⟩
  have hjoin : pathOf (encode entry :: location) = Path.join (pathOf location) (encode entry) :=
    (join_pathOf (isName_of_node? hlink) (isName_of_mem h.directory)).symm
  have hmember : member? tree (pathOf location) location (encode entry) =
      some ⟨entry, pathOf (encode entry :: location),
        some (pathOf (artifactPlace location settings))⟩ := by
    refine member?_eq_some_iff.mpr ⟨rfl, hjoin, isFile_iff.mpr ⟨_, content, hresolve, hfile⟩, ?_⟩
    simp [linkTarget?, hlink, canonical, hresolve, Except.map, Except.toOption]
  have hentry : encode entry ∈ tree.names location := mem_names_iff.mpr (by simp [hlink])
  have hsketch : (⟨entry, entry == (opened tree location name).name ++ "." ++ own,
      some (pathOf (artifactPlace location settings))⟩ : Sketch) ∈
        (opened tree location name).sketches settings := by
    refine Project.mem_sketches_iff.mpr ⟨_, List.mem_filterMap.mpr ⟨encode entry, ?_, hmember⟩, ?_⟩
    · rwa [h.rootNames_eq]
    · exact Member.sketch?_eq_some_iff.mpr ⟨own, hown, hmarks, rfl⟩
  refine hspared _ (openAt_of_resolve h.resolve name) _ hsketch ?_
  rw [h.artifactPath_opened]

section Both

/-! Two trees that differ in the artifact, where no sketch is a link to it. -/

variable (h : IsHome tree path location settings)
  (halike : AlikeBut (artifactPlace location settings) tree other)
  (hspared : IsSpared tree path name settings)

include h halike hspared

theorem sketchAt?_of_alikeBut (hne : entry ≠ encode settings.artifactName)
    (hentry : entry ∈ tree.names location)
    (hmade : sketchAt? tree location (opened tree location name).name settings entry =
      some sketch) :
    sketchAt? other location (opened tree location name).name settings entry = some sketch := by
  have hends := h.resolve_sketch_ne hspared (h.mem_sketches_iff.mpr ⟨entry, hentry, hne, hmade⟩)
  rw [filePath, encode_name_of_sketchAt? hmade] at hends
  exact Project.sketchAt?_of_alikeBut halike (artifactPlace_ne hne)
    (fun hresolve => absurd hresolve hends) hmade

theorem sketches_eq (hother : IsSpared other path name settings) :
    (opened other location name).sketches settings =
      (opened tree location name).sketches settings := by
  have hhome := h.of_alikeBut halike
  have hname : (opened other location name).name = (opened tree location name).name :=
    (hhome.name_opened name).trans (h.name_opened name).symm
  have hmem (entry : Bytes) (hentry : (entry != encode settings.artifactName) = true) :
      entry ∈ other.names location ↔ entry ∈ tree.names location := by
    rw [mem_names_iff, mem_names_iff, halike.elsewhere _ (artifactPlace_ne (bne_iff_ne.mp hentry))]
  rw [h.sketches_opened, hhome.sketches_opened, filter_names_congr hmem]
  refine List.filterMap_congr fun entry hentry => Option.ext fun sketch => ?_
  obtain ⟨hlisted, hne⟩ := List.mem_filter.mp hentry
  constructor
  · intro hmade
    rw [← hname]
    exact hhome.sketchAt?_of_alikeBut halike.symm hother (bne_iff_ne.mp hne)
      ((hmem entry hne).mpr hlisted) hmade
  · intro hmade
    rw [hname]
    exact h.sketchAt?_of_alikeBut halike hspared (bne_iff_ne.mp hne) hlisted hmade

/-- The sketches are indexed alike, whatever is indexed besides. -/
theorem resolve_sketch_eq (hother : IsSpared other path name settings)
    (hsketch : sketch ∈ (opened tree location name).sketches settings)
    (parse : String → SyntaxTree) (sourceExtensions : List String) :
    ((opened other location name).buildIndex other parse sourceExtensions).resolve sketch.name =
      ((opened tree location name).buildIndex tree parse sourceExtensions).resolve
        sketch.name := by
  have hopen := openAt_of_resolve h.resolve name
  have hopenOther := openAt_of_resolve (h.of_alikeBut halike).resolve name
  obtain ⟨own, hown, -, hresolve⟩ := resolve_sketch hopen hsketch tree parse sourceExtensions
  obtain ⟨own', hown', -, hresolve'⟩ := resolve_sketch hopenOther
    (h.sketches_eq halike hspared hother ▸ hsketch) other parse sourceExtensions
  obtain rfl := Option.some.inj (hown.symm.trans hown')
  obtain ⟨found, content, hfound, -⟩ := exists_resolve_sketch hopen hsketch
  have hne : found ≠ artifactPlace location settings := by
    rintro rfl
    exact h.resolve_sketch_ne hspared hsketch hfound
  have hread : other.read ((opened other location name).filePath sketch.name) =
      tree.read ((opened tree location name).filePath sketch.name) :=
    halike.read_of_ne hfound hne
  rw [hresolve, hresolve', hread]

/-- The same document is assembled. -/
theorem document_eq (hother : IsSpared other path name settings)
    (parse : String → SyntaxTree) (sourceExtensions : List String)
    (instant : Calendar.Instant) :
    (opened other location name).document
        ((opened other location name).buildIndex other parse sourceExtensions) settings instant =
      (opened tree location name).document
        ((opened tree location name).buildIndex tree parse sourceExtensions) settings instant := by
  rw [document, h.sketches_eq halike hspared hother]
  exact Document.assemble_congr fun sketch hsketch =>
    h.resolve_sketch_eq halike hspared hother hsketch parse sourceExtensions

end Both

end IsHome

end Sketchbook.Project
