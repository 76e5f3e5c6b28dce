import Sketchbook.Proofs.Document.Segments
import Sketchbook.Proofs.Project.Members

/-! The error blocks of the unified source. A sketch gets one if its extension is none of a source
file or its file could not be read for the index, and in no other case: the block of a sketch that
is indexed ends differently from every error block. -/
namespace Sketchbook
open Text

namespace Document

variable {index : Index} {name : String}

/-- Prototypes end with a semicolon and error blocks with a full stop. -/
theorem inLines_prototypes_ne (declarations : List Declaration) (name : String) :
    inLines (Prototype.all declarations) ≠ missingBlock name := by
  intro h
  obtain ⟨before, hmissing⟩ : ∃ before, (missingBlock name).toList = before ++ ['.', '\n'] :=
    ⟨_, String.toList_append⟩
  cases List.eq_nil_or_concat (Prototype.all declarations) with
  | inl hnone =>
    have hempty := congrArg String.toList h
    rw [hnone, hmissing] at hempty
    simp [inLines] at hempty
  | inr hlast =>
    obtain ⟨lines, line, hlines⟩ := hlast
    rw [List.concat_eq_append] at hlines
    have hmem : line ∈ Prototype.all declarations := by simp [hlines]
    obtain ⟨signature, -, hline⟩ := Prototype.exists_of_mem_all hmem
    have hends := congrArg String.toList h
    rw [hlines, inLines_append, hmissing, String.toList_append] at hends
    have hshape : (inLines [line]).toList = signature ++ [';', '\n'] := by
      simp [inLines, hline]
    rw [hshape, ← List.append_assoc] at hends
    simpa using (List.append_inj' hends rfl).2

theorem block_eq_missingBlock_iff :
    block index name = missingBlock name ↔ index.resolve name = none := by
  rw [block_eq]
  cases index.resolve name with
  | none => simp [segmentOf]
  | some unit => simp [segmentOf, inLines_prototypes_ne]

theorem isFreeOfErrors_join {blocks : List String} (h : ∀ block ∈ blocks, IsFreeOfErrors block) :
    IsFreeOfErrors (String.join blocks) := by
  induction blocks with
  | nil => exact ⟨[], rfl, by simp⟩
  | cons block rest ih =>
    obtain ⟨hblock, hrest⟩ := List.forall_mem_cons.mp h
    obtain ⟨lines, rfl, hlines⟩ := hblock
    obtain ⟨more, hmore, hmoreLines⟩ := ih hrest
    refine ⟨lines ++ more, ?_, fun line hline => ?_⟩
    · rw [String.join_cons, hmore, inLines_append]
    · cases List.mem_append.mp hline with
      | inl hline => exact hlines line hline
      | inr hline => exact hmoreLines line hline

end Document

namespace Project

variable {tree indexed : FileTree} {parse : String → SyntaxTree} {path : Bytes}
  {name : Option String} {project : Project} {settings : Settings}
  {sourceExtensions : List String} {sketch : Sketch}

/-- The extension of the sketch is none of a source file, in whatever case it is written, or its
file could not be read. -/
def IsUnindexed (project : Project) (indexed : FileTree) (sourceExtensions : List String)
    (sketch : Sketch) : Prop :=
  (∀ own, extensionOf sketch.name = some own →
    ∀ extension ∈ sourceExtensions, equalIgnoringCase extension own = false) ∨
  ∃ fault, indexed.read (project.filePath sketch.name) = .error fault

/-- What the index has under the name of a sketch: nothing, or the unit of what was read. -/
theorem resolve_sketch (hopen : openAt tree path name = .ok project)
    (hsketch : sketch ∈ project.sketches settings) (indexed : FileTree)
    (parse : String → SyntaxTree) (sourceExtensions : List String) :
    ∃ own, extensionOf sketch.name = some own ∧ settings.isSketchExtension own = true ∧
      (project.buildIndex indexed parse sourceExtensions).resolve sketch.name =
        if isSourceExtension sourceExtensions own then
          (indexed.read (project.filePath sketch.name)).toOption.map fun content =>
            Outline.unit sketch.name (decodeLossy content) (parse (decodeLossy content))
        else none := by
  obtain ⟨m, hm, hmade⟩ := mem_sketches_iff.mp hsketch
  obtain ⟨own, hown, hmarks, rfl⟩ := Member.sketch?_eq_some_iff.mp hmade
  refine ⟨own, hown, hmarks, ?_⟩
  have hextension : m.extension? = some own := hown
  rw [resolve_buildIndex_of_mem hopen hm, indexMember, hextension, (isFile_of_mem hopen hm).1]
  dsimp only
  split
  · cases indexed.read (project.filePath m.name) with
    | error fault => rfl
    | ok content => rfl
  · rfl

theorem resolve_sketch_eq_none_iff (hopen : openAt tree path name = .ok project)
    (hsketch : sketch ∈ project.sketches settings) :
    (project.buildIndex indexed parse sourceExtensions).resolve sketch.name = none ↔
      project.IsUnindexed indexed sourceExtensions sketch := by
  obtain ⟨own, hown, -, hresolve⟩ := resolve_sketch hopen hsketch indexed parse sourceExtensions
  have hsource : isSourceExtension sourceExtensions own = false ↔ ∀ other,
      extensionOf sketch.name = some other →
        ∀ extension ∈ sourceExtensions, equalIgnoringCase extension other = false := by
    simp [isSourceExtension, hown]
  rw [hresolve, IsUnindexed, ← hsource]
  cases hread : indexed.read (project.filePath sketch.name) with
  | error fault => simp [Except.toOption]
  | ok content => simp [Except.toOption]

/-- The body has one block for every sketch, in their order. It is an error block exactly for the
sketches that are no source files or could not be read, and where all are source files and could
be read there is no error line in the body. -/
theorem errorBlock_iff (hopen : openAt tree path name = .ok project) (settings : Settings)
    (parse : String → SyntaxTree) (sourceExtensions : List String) (indexed : FileTree)
    (instant : Calendar.Instant) (hne : project.sketches settings ≠ []) :
    let index := project.buildIndex indexed parse sourceExtensions
    ∃ document, project.document index settings instant = some document ∧
      document.body =
        String.join ((project.sketches settings).map (Document.block index ·.name)) ∧
      (∀ sketch ∈ project.sketches settings,
        (Document.block index sketch.name = Document.missingBlock sketch.name ↔
          project.IsUnindexed indexed sourceExtensions sketch) ∧
        (¬ project.IsUnindexed indexed sourceExtensions sketch →
          Document.IsFreeOfErrors (Document.block index sketch.name))) ∧
      ((∀ extension ∈ settings.sketchExtensions,
          isSourceExtension sourceExtensions extension = true) →
        (∀ sketch ∈ project.sketches settings, ∃ content,
          indexed.read (project.filePath sketch.name) = .ok content) →
        (∀ sketch ∈ project.sketches settings, ∃ content,
          indexed.read (project.filePath sketch.name) = .ok content ∧
          index.resolve sketch.name = some
            (Outline.unit sketch.name (decodeLossy content) (parse (decodeLossy content)))) ∧
        Document.IsFreeOfErrors document.body) := by
  intro index
  have hfree (sketch : Sketch) (hknown : index.resolve sketch.name ≠ none) :
      Document.IsFreeOfErrors (Document.block index sketch.name) := by
    obtain ⟨unit, hunit⟩ := Option.ne_none_iff_exists'.mp hknown
    rw [Document.block_eq, hunit]
    exact Document.isFreeOfErrors_prototypes unit.declarations
  have hnone (sketch : Sketch) (hsketch : sketch ∈ project.sketches settings) :
      index.resolve sketch.name = none ↔ project.IsUnindexed indexed sourceExtensions sketch :=
    resolve_sketch_eq_none_iff hopen hsketch
  refine ⟨_, if_neg (by simpa using hne), rfl, fun sketch hsketch => ⟨?_, fun hindexed => ?_⟩, ?_⟩
  · rw [Document.block_eq_missingBlock_iff, hnone sketch hsketch]
  · exact hfree sketch (mt (hnone sketch hsketch).mp hindexed)
  · intro hextensions hreadable
    have hresolve (sketch : Sketch) (hsketch : sketch ∈ project.sketches settings) :
        ∃ content, indexed.read (project.filePath sketch.name) = .ok content ∧
          index.resolve sketch.name = some
            (Outline.unit sketch.name (decodeLossy content) (parse (decodeLossy content))) := by
      obtain ⟨own, -, hmarks, hunit⟩ :=
        resolve_sketch hopen hsketch indexed parse sourceExtensions
      obtain ⟨content, hcontent⟩ := hreadable sketch hsketch
      have hsource := hextensions own (List.contains_iff_mem.mp hmarks)
      refine ⟨content, hcontent, ?_⟩
      rw [hunit, if_pos hsource, hcontent]
      rfl
    refine ⟨hresolve, Document.isFreeOfErrors_join fun block hblock => ?_⟩
    obtain ⟨sketch, hsketch, rfl⟩ := List.mem_map.mp hblock
    obtain ⟨content, -, hunit⟩ := hresolve sketch hsketch
    exact hfree sketch (by simp [hunit])

/-- Of two sketches the one that is no source file gets an error block. -/
theorem errorBlock_twins : openAt twinTree [47] (some "Blink") = .ok twins ∧
    twins.sketches {} ≠ [] ∧
    ∃ document, twins.document (twins.buildIndex twinTree parseBlink ["INO"]) {} ⟨0, 0, 0⟩ =
        some document ∧
      Document.block (twins.buildIndex twinTree parseBlink ["INO"]) "Blink.ino" ≠
        Document.missingBlock "Blink.ino" ∧
      Document.block (twins.buildIndex twinTree parseBlink ["INO"]) "Blink.pde" =
        Document.missingBlock "Blink.pde" := by
  have hsketches : twins.sketches {} =
      [⟨"Blink.ino", true, none⟩, ⟨"Blink.pde", true, none⟩] := by decide +kernel
  have hne : twins.sketches {} ≠ [] := by simp [hsketches]
  obtain ⟨document, hdocument, -, hblocks, -⟩ :=
    errorBlock_iff openAt_twins {} parseBlink ["INO"] twinTree ⟨0, 0, 0⟩ hne
  obtain ⟨hino, hpde⟩ : (_ ∧ _) := by
    simpa only [hsketches, List.forall_mem_cons] using hblocks
  have hextension : extensionOf "Blink.ino" = some "ino" := by decide +kernel
  have hread : twinTree.read (twins.filePath "Blink.ino") = .ok [] := by decide +kernel
  refine ⟨openAt_twins, hne, document, hdocument, fun hblock => ?_, hpde.1.1.mpr (.inl ?_)⟩
  · cases hino.1.mp hblock with
    | inl hforeign =>
      have hsame : equalIgnoringCase "INO" "ino" = true := by decide +kernel
      exact absurd (hforeign "ino" hextension "INO" List.mem_cons_self) (by simp [hsame])
    | inr hfault =>
      obtain ⟨fault, hfault⟩ := hfault
      exact absurd (hread.symm.trans hfault) (by simp)
  · decide +kernel

end Project

end Sketchbook
