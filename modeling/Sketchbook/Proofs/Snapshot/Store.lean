import Sketchbook.Proofs.FileTree.Change
import Sketchbook.Proofs.Index.Resolve
import Sketchbook.Proofs.Snapshot.Record
import Sketchbook.Proofs.StableSort
import Sketchbook.Proofs.Text.Lines
import Sketchbook.Snapshot.Store

/-! A file whose lines spell units is loaded as the index of these units, and so is a snapshot that
has been saved: every record stays on a line of its own, and units of one file keep their order. -/
namespace Sketchbook.Snapshot
open Text

/-! ### Records as lines -/

theorem openBrace_mem_of_spells {u : SourceUnit} {cs : List Char} (h : SpellsRecord u cs) :
    '\x7b' ∈ cs := by
  obtain ⟨⟨_, ⟨_, ⟨_, _, _⟩⟩⟩, _⟩ := h
  simp

theorem not_isBlankText_of_spells {u : SourceUnit} {row : String}
    (h : SpellsRecord u row.toList) : isBlankText row = false := by
  have hbrace : isBlank '\x7b' = false := by decide
  exact List.all_eq_false.mpr ⟨_, openBrace_mem_of_spells h, by simp [hbrace]⟩

/-- Every line that spells a unit gives that unit. -/
theorem readLines_of_spells (path : Bytes) (line : Nat) {units : List SourceUnit}
    {rows : List String} (h : SpellsAll (units.map SpellsRecord) (rows.map String.toList)) :
    readLines path line (rows.map encode) = .ok units := by
  induction units generalizing line rows with
  | nil =>
    cases rows with
    | nil => rfl
    | cons row more => cases h
  | cons u units ih =>
    cases rows with
    | nil => cases h
    | cons row more =>
      obtain _ | ⟨hrow, hmore⟩ := h
      have hrecord : (readRecord row).mapError (Failure.snapshot line) = .ok u := by
        rw [readRecord_of_spells hrow]
        rfl
      simp [readLines, not_isBlankText_of_spells hrow, hrecord, ih (line + 1) hmore, bind,
        Except.bind]

theorem noBreak_of_spellsAll {units : List SourceUnit} {rows : List String}
    (h : SpellsAll (units.map SpellsRecord) (rows.map String.toList)) :
    ∀ row ∈ rows, NoBreak row.toList ∧ row ≠ "" := by
  intro row hrow
  obtain ⟨_, hmem, hspells⟩ := h.exists_of_mem (List.mem_map_of_mem hrow)
  obtain ⟨u, -, rfl⟩ := List.mem_map.mp hmem
  refine ⟨onOneLine_record u _ hspells, ?_⟩
  rintro rfl
  exact absurd (openBrace_mem_of_spells hspells) (by simp)

/-! ### Files of records -/

theorem onPath_ok {α : Type} (path : Bytes) (a : α) : onPath path (.ok a) = .ok a := rfl

/-- A file whose lines spell units is read as these units. -/
theorem readUnits_of_spells {tree : FileTree} {path : Bytes} {units : List SourceUnit}
    {rows : List String} {text : String}
    (hspells : SpellsAll (units.map SpellsRecord) (rows.map String.toList))
    (hrows : IsRows rows text) (hfile : tree.read path = .ok (encode text)) :
    readUnits tree path = .ok units := by
  rw [readUnits, hfile, onPath_ok]
  simp only [bind, Except.bind, hrows.lines_encode (noBreak_of_spellsAll hspells)]
  exact readLines_of_spells path 1 hspells

theorem load_of_readUnits {tree : FileTree} {path : Bytes} {units : List SourceUnit}
    (h : readUnits tree path = .ok units) : load tree path = .ok (Index.ofUnits units) := by
  rw [load, h]
  rfl

/-- What is written of units is a file whose lines spell them. -/
theorem spellsAll_writeRecord (units : List SourceUnit) :
    SpellsAll (units.map SpellsRecord) ((units.map writeRecord).map String.toList) := by
  rw [List.map_map]
  exact spellsAll_map spellsRecord_writeRecord units

theorem isRows_render (units : List SourceUnit) :
    IsRows ((sortByFile units).map writeRecord) (render units) := by
  refine .inl ?_
  rw [render, List.map_map]
  rfl

theorem filter_sortByFile (units : List SourceUnit) (file : String) :
    (sortByFile units).filter (·.file == file) = units.filter (·.file == file) := by
  refine filter_mergeSort (fun a b c hab hbc => ?_) (fun a b => ?_) (fun a b ha hb => ?_) units
  · exact decide_eq_true (Std.le_trans (of_decide_eq_true hab) (of_decide_eq_true hbc))
  · simpa using Std.le_total
  · rw [beq_iff_eq.mp ha, beq_iff_eq.mp hb]
    exact decide_eq_true (Std.le_refl file)

/-- The order in which a snapshot is written does not change what is found in it. -/
theorem ofUnits_sortByFile (units : List SourceUnit) :
    Index.ofUnits (sortByFile units) = Index.ofUnits units :=
  Index.ofUnits_congr (filter_sortByFile units)

theorem save_ok {tree saved : FileTree} {units : List SourceUnit} {path : Bytes}
    (h : save tree units path = (.ok (), saved)) :
    ∃ prepared, makeParent tree path = (.ok (), prepared) ∧
      prepared.write path (encode (render units)) = .ok saved := by
  unfold save at h
  split at h
  · cases h
  · next prepared hprepared =>
    split at h
    · next written hwritten =>
      cases h
      exact ⟨prepared, hprepared, hwritten⟩
    · cases h

/-- A snapshot that has been saved is loaded as the index of its units. -/
theorem load_of_save {tree saved : FileTree} {units : List SourceUnit} {path : Bytes}
    (h : save tree units path = (.ok (), saved)) :
    load saved path = .ok (Index.ofUnits units) := by
  obtain ⟨prepared, -, hwrite⟩ := save_ok h
  have hread := readUnits_of_spells (spellsAll_writeRecord (sortByFile units))
    (isRows_render units) (FileTree.read_write hwrite)
  rw [load_of_readUnits hread, ofUnits_sortByFile]

def factsPath : Bytes := encode "facts.jsonl"

/-- A file can be written under a free name in the working directory. -/
theorem write_factsPath {tree : FileTree} (content : Bytes)
    (hbase : tree.node? tree.workingDirectory = some .directory)
    (hfree : tree.node? (factsPath :: tree.workingDirectory) = none) :
    tree.write factsPath content =
      .ok (tree.set (factsPath :: tree.workingDirectory) (.file content)) := by
  have hroute : Route.ofPath factsPath = ⟨false, [.down factsPath], false⟩ := by decide +kernel
  have hname : IsName factsPath := by decide +kernel
  exact FileTree.write_name (by decide +kernel) hroute hbase
    (FileTree.hasRoom_of_free ⟨hname, hbase⟩ hfree) content

/-- A snapshot can be saved under a free name in the working directory. -/
theorem save_factsPath {tree : FileTree} (units : List SourceUnit)
    (hbase : tree.node? tree.workingDirectory = some .directory)
    (hfree : tree.node? (factsPath :: tree.workingDirectory) = none) :
    save tree units factsPath = (.ok (),
      tree.set (factsPath :: tree.workingDirectory) (.file (encode (render units)))) := by
  have hparent : Path.parent? factsPath = some [] := by decide +kernel
  have hmade : tree.makeDirectories [] = (.ok (), tree) := rfl
  simp [save, makeParent, hparent, hmade, onPath_ok, write_factsPath _ hbase hfree]

/-- Loading what has been saved gives the index of the units, in which the last unit of every file
is found. -/
theorem load_save {tree saved : FileTree} {units : List SourceUnit} {path : Bytes}
    (h : save tree units path = (.ok (), saved)) :
    load saved path = .ok (Index.ofUnits units) ∧
    ∀ file, (Index.ofUnits units).resolve file = units.reverse.find? (·.file == file) :=
  ⟨load_of_save h, Index.resolve_ofUnits units⟩

def mixedUnits : List SourceUnit :=
  [{ file := "b.ino"
     declarations :=
      [⟨.other, "char quote = '\"';", 1, 1, "b.ino"⟩,
       ⟨.linkageSpecification "C", "extern \"C\" \x7b\r\n\tvoid g();\n\x7d", 2, 4, "b.ino"⟩] },
   { file := "a.ino", macros := [⟨"#define BELL \\\n'\x07'", 4294967295⟩] },
   { file := "b.ino"
     declarations := [⟨.functionDefinition, "void f() \x7b \x7d", 1, 1, "b.ino"⟩]
     includes := [⟨"#include <π.h>", 2⟩] }]

theorem load_save_mixed : ∃ saved, save {} mixedUnits factsPath = (.ok (), saved) ∧
    load saved factsPath = .ok (Index.ofUnits mixedUnits) ∧
    ∀ file, (Index.ofUnits mixedUnits).resolve file =
      mixedUnits.reverse.find? (·.file == file) :=
  have hsaved := save_factsPath mixedUnits rfl rfl
  ⟨_, hsaved, load_save hsaved⟩

end Sketchbook.Snapshot
