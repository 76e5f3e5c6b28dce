import Sketchbook.Document
import Sketchbook.Proofs.Outline.Linkage

/-! How an include of a sketch is written into the unified source: bare or within a C linkage
block of its own, between what the includes before it and behind it make. -/
namespace Sketchbook

def inLines (texts : List String) : String := String.join (texts.map (· ++ "\n"))

theorem inLines_append (texts more : List String) :
    inLines (texts ++ more) = inLines texts ++ inLines more := by
  rw [inLines, List.map_append, String.join_append]
  rfl

theorem inLines_cons (text : String) (texts : List String) :
    inLines (text :: texts) = text ++ "\n" ++ inLines texts := by
  rw [inLines, List.map_cons, String.join_cons]
  rfl

theorem sortByLine_of_ascending {directives : List Directive}
    (h : directives.Pairwise (·.line ≤ ·.line)) : sortByLine directives = directives :=
  List.mergeSort_of_pairwise (h.imp decide_eq_true)

namespace Header

def lastLine (previous : LineNumber) (directives : List Directive) : LineNumber :=
  (directives.getLast?.map (·.line)).getD previous

theorem entries_append (ranges : List LineRange) (macros : List Directive)
    (previous : LineNumber) (before after : List Directive) :
    entries ranges macros previous (before ++ after) =
      entries ranges macros previous before ++
        entries ranges macros (lastLine previous before) after := by
  induction before generalizing previous with
  | nil => rfl
  | cons directive before ih =>
    have hlast : lastLine previous (directive :: before) = lastLine directive.line before := by
      cases before with
      | nil => rfl
      | cons => simp [lastLine, List.getLast?_cons]
    rw [List.cons_append, entries, entries, ih, hlast, List.append_assoc, List.cons_append]

end Header

namespace Document

def entriesOf (unit : SourceUnit) (previous : LineNumber) (includes : List Directive) :
    List String :=
  Header.entries (cLinkageRanges unit.file unit.declarations) (sortByLine unit.macros) previous
    includes

def wrappedText (directive : Directive) : String :=
  "extern \"C\" \x7b\n" ++ directive.raw ++ "\n\x7d\n"

theorem wrappedText_ne (directive : Directive) :
    wrappedText directive ≠ directive.raw ++ "\n" := by
  intro h
  have hlength := congrArg String.length h
  simp only [wrappedText, String.length_append] at hlength
  have hopen : "extern \"C\" \x7b\n".length = 13 := by decide
  have hclose : "\n\x7d\n".length = 3 := by decide
  have hfeed : "\n".length = 1 := by decide
  omega

/-- The document of one sketch has the directive among the includes, bare or wrapped, between what
the includes before it and behind it make. -/
def WritesInclude (settings : Settings) (sketch : Sketch) (instant : Calendar.Instant)
    (unit : SourceUnit) (directive : Directive) (wrapped : Prop) [Decidable wrapped] : Prop :=
  ∀ before after, unit.includes = before ++ directive :: after →
    (assemble settings [sketch] (Index.ofUnits [unit]) instant).map (·.includePart) = some
      (settings.frameworkInclude ++ "\n" ++ inLines (entriesOf unit 0 before) ++
        inLines ((Header.between (Header.lastLine 0 before) directive.line
          (sortByLine unit.macros)).map (·.raw)) ++
        (if wrapped then wrappedText directive else directive.raw ++ "\n") ++
        inLines (entriesOf unit directive.line after))

variable {settings : Settings} {sketch : Sketch} {instant : Calendar.Instant}
  {unit : SourceUnit} {directive : Directive}

theorem includePart_assemble (hfile : unit.file = sketch.name) :
    (assemble settings [sketch] (Index.ofUnits [unit]) instant).map (·.includePart) = some
      (settings.frameworkInclude ++ "\n" ++ Header.fragment unit.includes unit.macros
        (cLinkageRanges unit.file unit.declarations)) := by
  have hresolve : (Index.ofUnits [unit]).resolve sketch.name = some unit := by
    simp [Index.ofUnits, Index.insertAll, Index.insert, Index.insertUnit, Index.empty,
      Index.resolve, hfile]
  simp [assemble, fragment, hresolve, hfile]

theorem writesInclude_isLinked (hfile : unit.file = sketch.name)
    (hsorted : unit.includes.Pairwise (·.line ≤ ·.line)) :
    WritesInclude settings sketch instant unit directive
      (isLinked (cLinkageRanges unit.file unit.declarations) directive.line = true) := by
  intro before after hsplit
  have htext : Header.includeText (cLinkageRanges unit.file unit.declarations) directive ++ "\n" =
      if isLinked (cLinkageRanges unit.file unit.declarations) directive.line = true then
        wrappedText directive
      else directive.raw ++ "\n" := by
    rw [Header.includeText]
    split
    · simp [wrappedText, String.append_assoc]
    · rfl
  have hfragment : Header.fragment unit.includes unit.macros
      (cLinkageRanges unit.file unit.declarations) = inLines (entriesOf unit 0 unit.includes) := by
    rw [Header.fragment, sortByLine_of_ascending hsorted]
    rfl
  rw [includePart_assemble hfile, hfragment, hsplit, entriesOf, Header.entries_append,
    Header.entries, inLines_append, inLines_append, inLines_cons, htext]
  simp only [String.append_assoc, entriesOf]

/-- An include is either written bare or wrapped. -/
theorem WritesInclude.iff_of_mem {a b : Prop} [Decidable a] [Decidable b]
    (hmem : directive ∈ unit.includes)
    (ha : WritesInclude settings sketch instant unit directive a)
    (hb : WritesInclude settings sketch instant unit directive b) : a ↔ b := by
  obtain ⟨before, after, hsplit⟩ := List.append_of_mem hmem
  have h := Option.some.inj ((ha before after hsplit).symm.trans (hb before after hsplit))
  rw [String.append_left_inj, String.append_right_inj] at h
  have hne := wrappedText_ne directive
  by_cases hwrapped : a <;> by_cases hwrapped' : b
  · exact iff_of_true hwrapped hwrapped'
  · rw [if_pos hwrapped, if_neg hwrapped'] at h
    exact absurd h hne
  · rw [if_neg hwrapped, if_pos hwrapped'] at h
    exact absurd h.symm hne
  · exact iff_of_false hwrapped hwrapped'

theorem WritesInclude.congr {a b : Prop} [Decidable a] [Decidable b] (h : a ↔ b)
    (ha : WritesInclude settings sketch instant unit directive a) :
    WritesInclude settings sketch instant unit directive b := by
  intro before after hsplit
  rw [ha before after hsplit]
  simp only [h]

open Outline

theorem writesInclude_isInDeclaredC {text : String} {tree : SyntaxTree} {p : Place}
    (hrows : tree.HasNestedRows) (hp : p ∈ tree.places) (hapart : HasLineApart tree p) :
    WritesInclude settings sketch instant (Outline.unit sketch.name text tree)
      (directiveAt text p) (IsInDeclaredC tree.rootKind text p) :=
  (writesInclude_isLinked rfl (isSortedByLine_includes text sketch.name tree).ascending).congr
    (isLinked_lineOfRow_iff sketch.name text hrows hp hapart)

theorem directiveAt_mem_includes (file : String) {text : String} {tree : SyntaxTree} {p : Place}
    (hp : p ∈ tree.places) (hcollected : IsCollected ["preproc_include"] p) :
    directiveAt text p ∈ (Outline.unit file text tree).includes := by
  rw [(isSortedByLine_includes text file tree).perm.mem_iff]
  exact List.mem_map.mpr ⟨p, List.mem_filter.mpr ⟨hp, decide_eq_true hcollected⟩, rfl⟩

/-- An include that is collected is written, and it is wrapped exactly if a C linkage block that
is declared is around it. -/
theorem include_written (settings : Settings) (sketch : Sketch) (instant : Calendar.Instant)
    (text : String) (tree : SyntaxTree) (p : Place) (hrows : tree.HasNestedRows)
    (hp : p ∈ tree.places) (hcollected : IsCollected ["preproc_include"] p)
    (hapart : HasLineApart tree p) :
    directiveAt text p ∈ (Outline.unit sketch.name text tree).includes ∧
    WritesInclude settings sketch instant (Outline.unit sketch.name text tree)
      (directiveAt text p) (IsInDeclaredC tree.rootKind text p) :=
  ⟨directiveAt_mem_includes sketch.name hp hcollected, writesInclude_isInDeclaredC hrows hp hapart⟩

def blocksText : String :=
  "namespace n \x7b extern \"C\" \x7b\n#include \"a.h\"\n\x7d \x7d\n#ifdef A\n" ++
  "#else\nextern \"C\" \x7b\n#include \"b.h\"\n\x7d\n#endif\n" ++
  "extern \"C\" \x7b\nextern \"C++\" \x7b\n#include \"c.h\"\n\x7d\n\x7d\n"

def blocksTree : SyntaxTree := .ofListing
  [(0, ⟨"translation_unit", none, 0, 145, 0, 14⟩),
   (1, ⟨"namespace_definition", none, 0, 45, 0, 2⟩),
   (2, ⟨"namespace_identifier", some "name", 10, 11, 0, 0⟩),
   (2, ⟨"declaration_list", some "body", 12, 45, 0, 2⟩),
   (3, ⟨"linkage_specification", none, 14, 43, 0, 2⟩),
   (4, ⟨"string_literal", some "value", 21, 24, 0, 0⟩),
   (5, ⟨"string_content", none, 22, 23, 0, 0⟩),
   (4, ⟨"declaration_list", some "body", 25, 43, 0, 2⟩),
   (5, ⟨"preproc_include", none, 27, 42, 1, 2⟩),
   (6, ⟨"string_literal", some "path", 36, 41, 1, 1⟩),
   (7, ⟨"string_content", none, 37, 40, 1, 1⟩),
   (1, ⟨"preproc_ifdef", none, 46, 97, 3, 8⟩),
   (2, ⟨"identifier", some "name", 53, 54, 3, 3⟩),
   (2, ⟨"preproc_else", some "alternative", 55, 90, 4, 7⟩),
   (3, ⟨"linkage_specification", none, 61, 90, 5, 7⟩),
   (4, ⟨"string_literal", some "value", 68, 71, 5, 5⟩),
   (5, ⟨"string_content", none, 69, 70, 5, 5⟩),
   (4, ⟨"declaration_list", some "body", 72, 90, 5, 7⟩),
   (5, ⟨"preproc_include", none, 74, 89, 6, 7⟩),
   (6, ⟨"string_literal", some "path", 83, 88, 6, 6⟩),
   (7, ⟨"string_content", none, 84, 87, 6, 6⟩),
   (1, ⟨"linkage_specification", none, 98, 144, 9, 13⟩),
   (2, ⟨"string_literal", some "value", 105, 108, 9, 9⟩),
   (3, ⟨"string_content", none, 106, 107, 9, 9⟩),
   (2, ⟨"declaration_list", some "body", 109, 144, 9, 13⟩),
   (3, ⟨"linkage_specification", none, 111, 142, 10, 12⟩),
   (4, ⟨"string_literal", some "value", 118, 123, 10, 10⟩),
   (5, ⟨"string_content", none, 119, 122, 10, 10⟩),
   (4, ⟨"declaration_list", some "body", 124, 142, 10, 12⟩),
   (5, ⟨"preproc_include", none, 126, 141, 11, 12⟩),
   (6, ⟨"string_literal", some "path", 135, 140, 11, 11⟩),
   (7, ⟨"string_content", none, 136, 139, 11, 11⟩)]

def blocksSketch : Sketch := { name := "Blink.ino", isPrimary := true }

def innerInclude : Place := blocksTree.places.get ⟨28, by decide +kernel⟩

theorem include_written_innerInclude :
    blocksTree.HasNestedRows ∧ innerInclude ∈ blocksTree.places ∧
    IsCollected ["preproc_include"] innerInclude ∧ HasLineApart blocksTree innerInclude ∧
    directiveAt blocksText innerInclude ∈
      (Outline.unit blocksSketch.name blocksText blocksTree).includes ∧
    WritesInclude {} blocksSketch ⟨0, 0, 0⟩
      (Outline.unit blocksSketch.name blocksText blocksTree)
      (directiveAt blocksText innerInclude)
      (IsInDeclaredC blocksTree.rootKind blocksText innerInclude) :=
  have hrows : blocksTree.HasNestedRows := by decide +kernel
  have hplace : innerInclude ∈ blocksTree.places := List.get_mem _ _
  have hcollected : IsCollected ["preproc_include"] innerInclude := by decide +kernel
  have hapart : HasLineApart blocksTree innerInclude := by decide +kernel
  ⟨hrows, hplace, hcollected, hapart,
    include_written {} blocksSketch ⟨0, 0, 0⟩ blocksText blocksTree innerInclude hrows hplace
      hcollected hapart⟩

/-- The nearest linkage block around the place is one for C. -/
def IsInnermostC (text : String) (p : Place) : Prop :=
  ∃ block ∈ p.ancestors.find? (·.node.kind = "linkage_specification"), literalAt text block = "C"

instance (text : String) (p : Place) : Decidable (IsInnermostC text p) :=
  inferInstanceAs (Decidable (∃ block ∈ p.ancestors.find? _, _))

/-- None of the three includes is written as the nearest block around it asks. -/
theorem not_writesInclude_isInnermostC :
    blocksTree.HasNestedRows ∧
    (blocksTree.places.filter (IsCollected ["preproc_include"] ·)).map (·.node.startRow) =
      [1, 6, 11] ∧
    ∀ p ∈ blocksTree.places, IsCollected ["preproc_include"] p →
      HasLineApart blocksTree p ∧
      ¬ WritesInclude {} blocksSketch ⟨0, 0, 0⟩
        (Outline.unit blocksSketch.name blocksText blocksTree) (directiveAt blocksText p)
        (IsInnermostC blocksText p) := by
  have hrows : blocksTree.HasNestedRows := by decide +kernel
  have hapart : ∀ p ∈ blocksTree.places, IsCollected ["preproc_include"] p →
      HasLineApart blocksTree p := by decide +kernel
  have hdiffer : ∀ p ∈ blocksTree.places, IsCollected ["preproc_include"] p →
      ¬ (IsInDeclaredC blocksTree.rootKind blocksText p ↔ IsInnermostC blocksText p) := by
    decide +kernel
  refine ⟨hrows, by decide +kernel, fun p hp hcollected => ⟨hapart p hp hcollected, fun h => ?_⟩⟩
  exact hdiffer p hp hcollected
    ((writesInclude_isInDeclaredC hrows hp (hapart p hp hcollected)).iff_of_mem
      (directiveAt_mem_includes blocksSketch.name hp hcollected) h)

end Document

end Sketchbook
