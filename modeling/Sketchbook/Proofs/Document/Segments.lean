import Sketchbook.Proofs.Document.IncludePart
import Sketchbook.Proofs.Index.Resolve
import Sketchbook.Proofs.Prototype.Line

/-! The unified source as a row of segments. The sketches are written one behind another into the
same texts, and yet what a sketch adds is settled by its name and by what the index has under that
name. -/
namespace Sketchbook

def writeBehind (text : String) (lines : List String) : String :=
  lines.foldl (fun text line => text ++ line ++ "\n") text

theorem writeBehind_eq (text : String) (lines : List String) :
    writeBehind text lines = text ++ inLines lines := by
  induction lines generalizing text with
  | nil => simp [writeBehind, inLines]
  | cons line rest ih =>
    have hstep : writeBehind text (line :: rest) = writeBehind (text ++ line ++ "\n") rest := rfl
    rw [hstep, ih, inLines_cons]
    simp only [String.append_assoc]

namespace Header

def extend (ranges : List LineRange) (macros : List Directive) (previous : LineNumber)
    (text : String) : List Directive → String
  | [] => text
  | directive :: rest =>
    let withMacros := writeBehind text ((between previous directive.line macros).map (·.raw))
    extend ranges macros directive.line
      (withMacros ++ includeText ranges directive ++ "\n") rest

theorem extend_eq (ranges : List LineRange) (macros : List Directive) (previous : LineNumber)
    (text : String) (includes : List Directive) :
    extend ranges macros previous text includes =
      text ++ inLines (entries ranges macros previous includes) := by
  induction includes generalizing previous text with
  | nil => simp [extend, entries, inLines]
  | cons directive rest ih =>
    rw [extend, ih, writeBehind_eq, entries, inLines_append, inLines_cons]
    simp only [String.append_assoc]

end Header

namespace Prototype

def extend (text : String) : List Declaration → String
  | [] => text
  | declaration :: rest =>
    if declaration.kind = .functionDefinition then
      match ofDefinition? declaration.raw with
      | some prototype => extend (text ++ prototype ++ "\n") rest
      | none => extend text rest
    else extend text rest

theorem extend_eq (text : String) (declarations : List Declaration) :
    extend text declarations = text ++ inLines (all declarations) := by
  induction declarations generalizing text with
  | nil => simp [extend, all, inLines]
  | cons declaration rest ih =>
    rw [extend]
    by_cases hkind : declaration.kind = .functionDefinition
    · rw [if_pos hkind]
      cases hprototype : ofDefinition? declaration.raw with
      | none =>
        have hall : all (declaration :: rest) = all rest := by simp [all, hkind, hprototype]
        rw [hall]
        exact ih text
      | some prototype =>
        have hall : all (declaration :: rest) = prototype :: all rest := by
          simp [all, hkind, hprototype]
        rw [hall, inLines_cons]
        simp only [ih, String.append_assoc]
    · have hall : all (declaration :: rest) = all rest := by simp [all, hkind]
      rw [if_neg hkind, hall, ih]

end Prototype

namespace Document

def start (settings : Settings) (instant : Calendar.Instant) : Document where
  banner := bannerText instant.render
  includePart := settings.frameworkInclude ++ "\n"
  body := ""
  selfIncludes := []

def placeSelfInclude (lines : List String) (sketch : Sketch) : List String :=
  if sketch.isPrimary then sketch.selfInclude :: lines else lines ++ [sketch.selfInclude]

def add (index : Index) (document : Document) (sketch : Sketch) : Document :=
  let selfIncludes := placeSelfInclude document.selfIncludes sketch
  match index.resolve sketch.name with
  | none => { document with selfIncludes, body := document.body ++ missingBlock sketch.name }
  | some unit =>
    { document with
      selfIncludes
      includePart := Header.extend (cLinkageRanges sketch.name unit.declarations)
        (sortByLine unit.macros) 0 document.includePart (sortByLine unit.includes)
      body := Prototype.extend document.body unit.declarations }

variable {settings : Settings} {sketches more : List Sketch} {index : Index}
  {instant : Calendar.Instant}

/-- One sketch adds its fragment and its block at the ends. -/
theorem add_eq (index : Index) (document : Document) (sketch : Sketch) :
    add index document sketch = { document with
      selfIncludes := placeSelfInclude document.selfIncludes sketch
      includePart := document.includePart ++ fragment index sketch.name
      body := document.body ++ block index sketch.name } := by
  unfold add fragment block
  cases index.resolve sketch.name with
  | none => simp
  | some unit =>
    simp only [Header.extend_eq, Prototype.extend_eq]
    rfl

theorem foldl_placeSelfInclude (lines : List String) (sketches : List Sketch) :
    sketches.foldl placeSelfInclude lines =
      (sketches.filter (·.isPrimary)).reverse.map Sketch.selfInclude ++ lines ++
        (sketches.filter (!·.isPrimary)).map Sketch.selfInclude := by
  induction sketches generalizing lines with
  | nil => simp
  | cons sketch rest ih =>
    rw [List.foldl_cons, ih]
    by_cases hprimary : sketch.isPrimary = true <;> simp [placeSelfInclude, hprimary]

theorem foldl_add (index : Index) (document : Document) (sketches : List Sketch) :
    sketches.foldl (add index) document = { document with
      selfIncludes := sketches.foldl placeSelfInclude document.selfIncludes
      includePart := document.includePart ++
        String.join (sketches.map (fragment index ·.name))
      body := document.body ++ String.join (sketches.map (block index ·.name)) } := by
  induction sketches generalizing document with
  | nil => simp
  | cons sketch rest ih =>
    rw [List.foldl_cons, ih, add_eq]
    simp [String.append_assoc]

/-- The unified source is what comes of writing one sketch after another. -/
theorem assemble_eq_foldl (settings : Settings) (index : Index) (instant : Calendar.Instant)
    (hne : sketches ≠ []) :
    assemble settings sketches index instant =
      some (sketches.foldl (add index) (start settings instant)) := by
  rw [assemble, if_neg (by simpa using hne), foldl_add, foldl_placeSelfInclude]
  simp [start, selfIncludesOf]

theorem assemble_eq_none (hnone : sketches = []) :
    assemble settings sketches index instant = none := by
  rw [assemble, if_pos (by simp [hnone])]

structure Segment where
  fragment : String
  block : String
  deriving DecidableEq

def segmentOf (name : String) : Option SourceUnit → Segment
  | none => ⟨"", missingBlock name⟩
  | some unit =>
    ⟨inLines (Header.entries (cLinkageRanges name unit.declarations) (sortByLine unit.macros) 0
      (sortByLine unit.includes)), inLines (Prototype.all unit.declarations)⟩

def segments (index : Index) (sketches : List Sketch) : List Segment :=
  sketches.map fun sketch => segmentOf sketch.name (index.resolve sketch.name)

theorem fragment_eq (index : Index) (name : String) :
    fragment index name = (segmentOf name (index.resolve name)).fragment := by
  unfold fragment
  cases index.resolve name <;> rfl

theorem block_eq (index : Index) (name : String) :
    block index name = (segmentOf name (index.resolve name)).block := by
  unfold block
  cases index.resolve name <;> rfl

structure IsRow (settings : Settings) (row : List Segment) (document : Document) : Prop where
  includePart : document.includePart =
    settings.frameworkInclude ++ "\n" ++ String.join (row.map (·.fragment))
  body : document.body = String.join (row.map (·.block))

theorem isRow_foldl (settings : Settings) (index : Index) (instant : Calendar.Instant)
    (sketches : List Sketch) :
    IsRow settings (segments index sketches)
      (sketches.foldl (add index) (start settings instant)) := by
  rw [foldl_add]
  constructor
  · simp only [start, segments, List.map_map, fragment_eq]
    rfl
  · simp only [start, segments, List.map_map, block_eq, String.empty_append]
    rfl

def missingLines (name : String) : List String :=
  ["",
   "#error the file: " ++ name ++
     " is not found in the indexer though it exists on the file system.",
   "#error this is probably due to a bad configuration: " ++
     "ino and pde are not marked as C++ source files.",
   "#error please check that *.ino and *.pde are associated with C++ source code " ++
     "in the indexer's file types.",
   "#error no forward declarations were generated for " ++ name ++ "."]

theorem missingBlock_eq (name : String) : missingBlock name = inLines (missingLines name) := by
  -- the line feeds stand within the pieces of the block
  have h1 : "\n#error the file: " = "\n" ++ "#error the file: " := by simp
  have h2 : " is not found in the indexer though it exists on the file system.\n" =
      " is not found in the indexer though it exists on the file system." ++ "\n" := by simp
  have h3 : "ino and pde are not marked as C++ source files.\n" =
      "ino and pde are not marked as C++ source files." ++ "\n" := by simp
  have h4 : "in the indexer's file types.\n" = "in the indexer's file types." ++ "\n" := by simp
  have h5 : ".\n" = "." ++ "\n" := by simp
  unfold missingBlock missingLines
  simp only [h1, h2, h3, h4, h5, inLines, List.map_cons, List.map_nil, String.join_cons,
    String.join_nil, String.append_assoc, String.empty_append, String.append_empty]

theorem getLast?_append_fullStop (before last : String) (h : last.toList.getLast? = some '.') :
    (before ++ last).toList.getLast? = some '.' := by
  rw [String.toList_append, List.getLast?_append, h, Option.some_or]

theorem getLast?_of_mem_missingLines {name line : String} (h : line ∈ missingLines name) :
    line.toList.getLast? ≠ some ';' := by
  have hends : line = "" ∨ line.toList.getLast? = some '.' := by
    simp only [missingLines, List.mem_cons, List.not_mem_nil, or_false] at h
    rcases h with rfl | rfl | rfl | rfl | rfl
    · exact .inl rfl
    all_goals exact .inr (getLast?_append_fullStop _ _ (by simp))
  rcases hends with rfl | hstop
  · simp
  · simp [hstop]

def IsFreeOfErrors (block : String) : Prop :=
  ∃ lines, block = inLines lines ∧
    ∀ line ∈ lines, '\n' ∉ line.toList ∧ ∀ name, line ∉ missingLines name

theorem isFreeOfErrors_prototypes (declarations : List Declaration) :
    IsFreeOfErrors (inLines (Prototype.all declarations)) := by
  refine ⟨Prototype.all declarations, rfl, fun line hline => ?_⟩
  obtain ⟨signature, hfeed, htext⟩ := Prototype.exists_of_mem_all hline
  constructor
  · rw [htext, List.mem_append]
    simp [hfeed]
  · intro name hmissing
    exact getLast?_of_mem_missingLines hmissing (by simp [htext])

/-- The segments under another index, which finds the same under every name but one. -/
theorem segments_of_agree {other : Index} {name : String}
    (h : ∀ file, file ≠ name → other.resolve file = index.resolve file) :
    segments other sketches = sketches.map fun sketch =>
      if sketch.name = name then segmentOf name (other.resolve name)
      else segmentOf sketch.name (index.resolve sketch.name) := by
  refine List.map_congr_left fun sketch _ => ?_
  split
  · next hname => rw [hname]
  · next hname => rw [h sketch.name hname]

theorem assemble_congr {other : Index}
    (h : ∀ sketch ∈ sketches, other.resolve sketch.name = index.resolve sketch.name) :
    assemble settings sketches other instant = assemble settings sketches index instant := by
  have hfragments : sketches.map (fragment other ·.name) = sketches.map (fragment index ·.name) :=
    List.map_congr_left fun sketch hs => by rw [fragment_eq, fragment_eq, h sketch hs]
  have hblocks : sketches.map (block other ·.name) = sketches.map (block index ·.name) :=
    List.map_congr_left fun sketch hs => by rw [block_eq, block_eq, h sketch hs]
  rw [assemble, assemble, hfragments, hblocks]

theorem zip_segments (index : Index) (sketches : List Sketch) :
    sketches.zip (segments index sketches) =
      sketches.map fun sketch => (sketch, segmentOf sketch.name (index.resolve sketch.name)) := by
  induction sketches with
  | nil => rfl
  | cons sketch rest ih => exact congrArg (_ :: ·) ih

/-- The document is made of one segment for each sketch, each from what the index has under the
name of that sketch and from nothing else. -/
structure IsComposed (settings : Settings) (sketches : List Sketch) (index : Index)
    (instant : Calendar.Instant) (document : Document) : Prop where
  /-- The sketches are written one behind another. -/
  written : document = sketches.foldl (add index) (start settings instant)
  row : IsRow settings (segments index sketches) document
  missing : ∀ sketch ∈ sketches, index.resolve sketch.name = none →
    segmentOf sketch.name (index.resolve sketch.name) = ⟨"", inLines (missingLines sketch.name)⟩
  known : ∀ sketch ∈ sketches, index.resolve sketch.name ≠ none →
    IsFreeOfErrors (segmentOf sketch.name (index.resolve sketch.name)).block
  /-- An index that finds the same under the names of the sketches gives the same document. -/
  agree : ∀ other : Index,
    (∀ sketch ∈ sketches, other.resolve sketch.name = index.resolve sketch.name) →
      assemble settings sketches other instant = some document
  /-- Another unit under one name changes the segments of that name only. -/
  change : ∀ (other : Index) (name : String),
    (∀ file, file ≠ name → other.resolve file = index.resolve file) →
      segments other sketches = sketches.map fun sketch =>
        if sketch.name = name then segmentOf name (other.resolve name)
        else segmentOf sketch.name (index.resolve sketch.name)
  insert : ∀ unit : SourceUnit,
    segments (index.insert unit) sketches = sketches.map fun sketch =>
      if sketch.name = unit.file then segmentOf unit.file (some unit)
      else segmentOf sketch.name (index.resolve sketch.name)
  /-- In another order each sketch takes its segment along. -/
  permute : ∀ more : List Sketch, more.Perm sketches →
    (more.zip (segments index more)).Perm (sketches.zip (segments index sketches)) ∧
      ∃ other, assemble settings more index instant = some other ∧
        IsRow settings (segments index more) other

theorem segments_insert (index : Index) (sketches : List Sketch) (unit : SourceUnit) :
    segments (index.insert unit) sketches = sketches.map fun sketch =>
      if sketch.name = unit.file then segmentOf unit.file (some unit)
      else segmentOf sketch.name (index.resolve sketch.name) := by
  have hother : ∀ file, file ≠ unit.file →
      (index.insert unit).resolve file = index.resolve file := by
    intro file hfile
    rw [Index.resolve_insert, if_neg (Ne.symm hfile)]
  rw [segments_of_agree hother, Index.resolve_insert, if_pos rfl]

theorem zip_segments_perm (index : Index) (h : more.Perm sketches) :
    (more.zip (segments index more)).Perm (sketches.zip (segments index sketches)) := by
  rw [zip_segments, zip_segments]
  exact h.map _

/-- The unified source of some sketches is composed of their segments. -/
theorem assemble_isComposed (settings : Settings) (sketches : List Sketch) (index : Index)
    (instant : Calendar.Instant) (hne : sketches ≠ []) :
    ∃ document, assemble settings sketches index instant = some document ∧
      IsComposed settings sketches index instant document := by
  have hassemble := assemble_eq_foldl settings index instant hne
  refine ⟨_, hassemble, ?_⟩
  constructor
  case written => rfl
  case row => exact isRow_foldl settings index instant sketches
  case missing =>
    intro sketch _ hnone
    rw [hnone, segmentOf, missingBlock_eq]
  case known =>
    intro sketch _ hknown
    obtain ⟨unit, hunit⟩ := Option.ne_none_iff_exists'.mp hknown
    rw [hunit]
    exact isFreeOfErrors_prototypes unit.declarations
  case agree =>
    intro other h
    rw [assemble_congr h, hassemble]
  case change => exact fun other name h => segments_of_agree h
  case insert => exact segments_insert index sketches
  case permute =>
    intro more hperm
    refine ⟨zip_segments_perm index hperm, _, assemble_eq_foldl settings index instant ?_,
      isRow_foldl settings index instant more⟩
    intro hmore
    exact hne (List.Perm.nil_eq (hmore ▸ hperm)).symm

def mixedSketches : List Sketch :=
  [⟨"helpers.pde", false, none⟩, ⟨"Blink.ino", true, none⟩]

def mixedIndex : Index := .ofUnits
  [{ file := "Blink.ino"
     declarations := [⟨.functionDefinition, "void setup() \x7b \x7d", 3, 3, "Blink.ino"⟩]
     includes := [⟨"#include <Servo.h>", 2⟩]
     macros := [⟨"#define LED 13", 1⟩] }]

theorem assemble_isComposed_mixed : mixedSketches ≠ [] ∧
    ∃ document, assemble {} mixedSketches mixedIndex ⟨0, 0, 0⟩ = some document ∧
      IsComposed {} mixedSketches mixedIndex ⟨0, 0, 0⟩ document :=
  have hne : mixedSketches ≠ [] := List.cons_ne_nil _ _
  ⟨hne, assemble_isComposed {} mixedSketches mixedIndex ⟨0, 0, 0⟩ hne⟩

end Document

end Sketchbook
