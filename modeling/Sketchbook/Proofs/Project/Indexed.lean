import Mathlib.Data.List.Basic
import Sketchbook.Project
import Sketchbook.Proofs.Snapshot.Store

/-! What the index of a project finds: under every file name the unit of the last indexed member
of that name. An index that is saved as a snapshot finds the same when it is loaded, so either
serves to assemble the unified source. -/
namespace Sketchbook.Project
open Text

variable {tree indexed saved : FileTree} {parse : String → SyntaxTree} {project : Project}
  {sourceExtensions : List String} {path : Bytes}

def indexedUnits (tree : FileTree) (parse : String → SyntaxTree) (project : Project)
    (sourceExtensions : List String) : List (String × SourceUnit) :=
  project.members.filterMap fun m =>
    (indexMember tree parse sourceExtensions m).unit?.map (m.name, ·)

theorem file_of_indexMember {m : Member} {unit : SourceUnit}
    (h : (indexMember tree parse sourceExtensions m).unit? = some unit) : unit.file = m.name := by
  unfold indexMember at h
  split at h
  · contradiction
  split at h
  · split at h
    · cases h
      rfl
    · contradiction
  · contradiction

theorem file_of_mem_indexedUnits {entry : String × SourceUnit}
    (h : entry ∈ indexedUnits tree parse project sourceExtensions) : entry.2.file = entry.1 := by
  obtain ⟨m, -, hm⟩ := List.mem_filterMap.mp h
  obtain ⟨unit, hunit, rfl⟩ := Option.map_eq_some_iff.mp hm
  exact file_of_indexMember hunit

theorem buildIndex_eq (tree : FileTree) (parse : String → SyntaxTree) (project : Project)
    (sourceExtensions : List String) :
    project.buildIndex tree parse sourceExtensions =
      .ofUnits ((indexedUnits tree parse project sourceExtensions).map Prod.snd) := by
  rw [buildIndex, indexedUnits, List.map_filterMap]
  simp [Function.comp_def]

theorem find?_map_snd {entries : List (String × SourceUnit)}
    (h : ∀ entry ∈ entries, entry.2.file = entry.1) (file : String) :
    (entries.map Prod.snd).find? (·.file == file) = entries.lookup file := by
  induction entries with
  | nil => rfl
  | cons entry rest ih =>
    obtain ⟨hentry, hrest⟩ := List.forall_mem_cons.mp h
    rw [List.map_cons, List.find?_cons, hentry, ih hrest, List.lookup_cons, BEq.comm]

/-- The last indexed member of a name is found under it. -/
theorem resolve_buildIndex (tree : FileTree) (parse : String → SyntaxTree) (project : Project)
    (sourceExtensions : List String) (file : String) :
    (project.buildIndex tree parse sourceExtensions).resolve file =
      (indexedUnits tree parse project sourceExtensions).reverse.lookup file := by
  rw [buildIndex_eq, Index.resolve_ofUnits, ← List.map_reverse]
  exact find?_map_snd (fun entry hentry =>
    file_of_mem_indexedUnits (List.mem_reverse.mp hentry)) file

/-- A saved index is loaded unchanged. -/
theorem load_of_save_buildIndex
    (h : Snapshot.save tree (project.buildIndex indexed parse sourceExtensions).units path =
      (.ok (), saved)) :
    Snapshot.load saved path = .ok (project.buildIndex indexed parse sourceExtensions) := by
  have hordered : Index.Ordered (project.buildIndex indexed parse sourceExtensions).units :=
    Index.ordered_ofUnits _
  rw [Snapshot.load_of_save h, Index.ofUnits_units hordered]

def blinkPath : Bytes := encode "/Blink.ino"

def blinkText : String := "#define LED 13\n"

def parseBlink (_ : String) : SyntaxTree :=
  ⟨"translation_unit", .cons ⟨"preproc_def", none, 0, 15, 0, 1⟩
    (.cons ⟨"identifier", some "name", 8, 11, 0, 0⟩ .nil
      (.cons ⟨"preproc_arg", some "value", 12, 14, 0, 0⟩ .nil .nil)) .nil⟩

def blinkTree : FileTree where
  entries := [([encode "Blink.ino"], .file (encode blinkText))]
  distinct := by decide +kernel
  fit := by decide +kernel

def blink : Project := ⟨"Blink", [47], [⟨"Blink.ino", blinkPath, none⟩]⟩

theorem read_blinkPath : blinkTree.read blinkPath = .ok (encode blinkText) := by decide +kernel

theorem buildIndex_blink : blink.buildIndex blinkTree parseBlink ["ino"] =
    .ofUnits [Outline.unit "Blink.ino" blinkText (parseBlink blinkText)] := by
  have hextension : Member.extension? ⟨"Blink.ino", blinkPath, none⟩ = some "ino" := by
    decide +kernel
  have hsource : isSourceExtension ["ino"] "ino" = true := by decide +kernel
  simp [buildIndex, blink, indexMember, hextension, hsource, read_blinkPath, Indexing.unit?]

/-- The index that is loaded finds what the index found that was saved, the last unit of every
member's name, and the same document is assembled with either. -/
theorem assemble_loaded
    (h : Snapshot.save tree (project.buildIndex indexed parse sourceExtensions).units path =
      (.ok (), saved)) :
    ∃ loaded, Snapshot.load saved path = .ok loaded ∧
      (∀ file,
        (project.buildIndex indexed parse sourceExtensions).resolve file =
          (indexedUnits indexed parse project sourceExtensions).reverse.lookup file ∧
        loaded.resolve file =
          (indexedUnits indexed parse project sourceExtensions).reverse.lookup file) ∧
      ∀ settings sketches instant,
        Document.assemble settings sketches loaded instant =
          Document.assemble settings sketches
            (project.buildIndex indexed parse sourceExtensions) instant :=
  have hresolve := resolve_buildIndex indexed parse project sourceExtensions
  ⟨_, load_of_save_buildIndex h, fun file => ⟨hresolve file, hresolve file⟩,
    fun _ _ _ => rfl⟩

theorem assemble_loaded_blink :
    blink.buildIndex blinkTree parseBlink ["ino"] =
      .ofUnits [Outline.unit "Blink.ino" blinkText (parseBlink blinkText)] ∧
    ∃ saved loaded,
      Snapshot.save blinkTree (blink.buildIndex blinkTree parseBlink ["ino"]).units
        Snapshot.factsPath = (.ok (), saved) ∧
      Snapshot.load saved Snapshot.factsPath = .ok loaded ∧
      ∀ settings sketches instant, Document.assemble settings sketches loaded instant =
        Document.assemble settings sketches (blink.buildIndex blinkTree parseBlink ["ino"])
          instant := by
  have hfree : blinkTree.node? (Snapshot.factsPath :: blinkTree.workingDirectory) = none := by
    decide +kernel
  have hsaved := Snapshot.save_factsPath
    (blink.buildIndex blinkTree parseBlink ["ino"]).units rfl hfree
  obtain ⟨loaded, hload, -, hassemble⟩ := assemble_loaded hsaved
  exact ⟨buildIndex_blink, _, loaded, hsaved, hload, hassemble⟩

end Sketchbook.Project
