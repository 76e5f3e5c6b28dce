import Sketchbook.Proofs.Snapshot.Store

/-! Snapshots that another program has written. A unit is found in a file however its record is
spelled there: the order of the fields, the padding, the escapes, fields that no record has and
empty lists that are left out make no difference. -/
namespace Sketchbook.Snapshot
open Text

/-- A file whose lines spell units is loaded as exactly these units. -/
theorem load_spelled {tree : FileTree} {path : Bytes} {units : List SourceUnit}
    {rows : List String} {text : String}
    (hspells : SpellsAll (units.map SpellsRecord) (rows.map String.toList))
    (hrows : IsRows rows text) (hfile : tree.read path = .ok (encode text)) :
    readUnits tree path = .ok units ∧ load tree path = .ok (Index.ofUnits units) ∧
    ∀ file, (Index.ofUnits units).resolve file = units.reverse.find? (·.file == file) :=
  have hread := readUnits_of_spells hspells hrows hfile
  ⟨hread, load_of_readUnits hread, Index.resolve_ofUnits units⟩

def lintedUnit : SourceUnit :=
  { file := "a.ino"
    declarations := [⟨.linkageSpecification "C", "extern \"C\" int é;", 1, 1, "a.ino"⟩]
    includes := [⟨"#include <a.h>", 2⟩] }

def lintedRow : String :=
  "\x7b\"tool\":\"lint\",\t\"includes\":[\x7b\"line\":2, \"raw\":\"#include <a.h>\" \x7d]," ++
  "\"declarations\" : [\x7b\"id\":\"7\",\"containing_file\":\"a.ino\",\"end_line\":1," ++
  "\"start_line\":1,\"raw\":\"extern \\\"C\\\" int \\u00E9;\",\"literal\":\"C\"," ++
  "\"kind\":\"linkage_specification\"\x7d],\"file\":\"a.ino\"\x7d "

theorem spells_lintedRow : SpellsRecord lintedUnit lintedRow.toList := by
  have hextra (key s : String) (hkey : key ∉ fieldNames) :
      ∀ f ∈ [(⟨key, .text s⟩ : Field)], f.IsExtra := by
    simpa [Field.IsExtra] using hkey
  have hspace : IsPadding [' '] := by decide
  have htab : IsPadding ['\t'] := by decide
  have hdigits : SpellsNumber 'é'.toNat ['0', '0', 'E', '9'] :=
    .digits (by decide : IsHexDigit 0 '0') (by decide : IsHexDigit 0 '0')
      (by decide : IsHexDigit 14 'E') (by decide : IsHexDigit 9 '9')
  have hraw : SpellsText "extern \"C\" int é;" _ :=
    .quoted <| (spellsBody_flatMap "extern \"C\" int ".toList).append <|
      .cons (.number hdigits) (spellsBody_flatMap [';'])
  have hdeclaration :
      SpellsDeclaration ⟨.linkageSpecification "C", "extern \"C\" int é;", 1, 1, "a.ino"⟩ _ :=
    SpellsObject.braces (hextra "id" "7" (by decide)) (List.reverse_perm _) <| SpellsAll.entries <|
      .cons (spells_textMember "id" "7") <| .cons (spells_textMember "containing_file" "a.ino") <|
      .cons (spells_lineMember "end_line" 1) <| .cons (spells_lineMember "start_line" 1) <|
      .cons (spells_writeMember hraw) <| .cons (spells_textMember "literal" "C") <|
      .cons (spells_textMember "kind" "linkage_specification") .nil
  have hinclude : SpellsDirective ⟨"#include <a.h>", 2⟩ _ :=
    SpellsObject.braces (List.forall_mem_nil _) (List.reverse_perm _) <|
      .cons (padded_of_spells (spells_lineMember "line" 2)) <|
      .cons isPadding_nil (.behind hspace (spells_textMember "raw" "#include <a.h>")) (.nil hspace)
  have hdeclarations : Field.Spells ⟨"declarations", .list [SpellsDeclaration _]⟩ _ :=
    .pair (spellsText_writeText "declarations") hspace <| .behind hspace <|
      SpellsList.brackets (SpellsAll.cons hdeclaration .nil).entries
  have hincludes : Field.Spells ⟨"includes", .list [SpellsDirective _]⟩ _ :=
    spells_writeMember (SpellsList.brackets (SpellsAll.cons hinclude .nil).entries)
  have hfields : UnitFieldList lintedUnit _ := .fields (.written _) (.written _) .omitted
  have hunit : SpellsUnit lintedUnit _ :=
    .object hfields <| .braces (hextra "tool" "lint" (by decide)) (List.reverse_perm _) <|
      .cons (padded_of_spells (spells_textMember "tool" "lint")) <|
      .cons isPadding_nil (.behind htab hincludes) <|
      (SpellsAll.cons hdeclarations (.cons (spells_textMember "file" "a.ino") .nil)).further
  have hrecord : SpellsRecord lintedUnit _ := .padded (padded_of_spells hunit) hspace
  have happend {s t : String} {cs ds : List Char} (hs : s.toList = cs) (ht : t.toList = ds) :
      (s ++ t).toList = cs ++ ds := by rw [String.toList_append, hs, ht]
  have hrow : lintedRow.toList = _ :=
    happend (happend (happend String.toList_ofList String.toList_ofList) String.toList_ofList)
      String.toList_ofList
  rw [hrow]
  refine Eq.subst (motive := SpellsRecord lintedUnit) ?_ hrecord
  decide +kernel

/-- The unit is read from a file with its row alone, even if no line feed ends the row. -/
theorem load_spelled_linted :
    SpellsAll ([lintedUnit].map SpellsRecord) ([lintedRow].map String.toList) ∧
    IsRows [lintedRow] lintedRow ∧
    ∃ tree : FileTree, tree.read factsPath = .ok (encode lintedRow) ∧
      readUnits tree factsPath = .ok [lintedUnit] ∧
      load tree factsPath = .ok (Index.ofUnits [lintedUnit]) ∧
      ∀ file, (Index.ofUnits [lintedUnit]).resolve file =
        [lintedUnit].reverse.find? (·.file == file) :=
  have hspells : SpellsAll ([lintedUnit].map SpellsRecord) ([lintedRow].map String.toList) :=
    .cons spells_lintedRow .nil
  have hrows : IsRows [lintedRow] lintedRow := .inr (by simp)
  have hwrite : FileTree.write {} factsPath (encode lintedRow) = _ := write_factsPath _ rfl rfl
  have hread := FileTree.read_write hwrite
  ⟨hspells, hrows, _, hread, load_spelled hspells hrows hread⟩

end Sketchbook.Snapshot
