import Mathlib.Data.List.Basic
import Sketchbook.Linkage
import Sketchbook.Proofs.Outline.Declarations
import Sketchbook.Proofs.Outline.Directives

/-! Which lines of a file are in a C linkage block, told by the syntax tree. A block counts only
where declarations are taken from, so one within a namespace, another block or a later branch of a
conditional is none, and nothing within a block that counts takes a line out of it. -/
namespace Sketchbook

def SyntaxTree.HasNestedRows (tree : SyntaxTree) : Prop :=
  ∀ p ∈ tree.places, p.node.startRow ≤ p.node.endRow ∧
    ∀ parent ∈ p.ancestors.head?,
      parent.node.startRow ≤ p.node.startRow ∧ p.node.endRow ≤ parent.node.endRow

instance (tree : SyntaxTree) : Decidable tree.HasNestedRows :=
  inferInstanceAs (Decidable (∀ p ∈ tree.places, _))

theorem SyntaxTree.HasNestedRows.within {tree : SyntaxTree} (h : tree.HasNestedRows) {p a : Place}
    (hp : p ∈ tree.places) (ha : a ∈ p.ancestors) :
    a.node.startRow ≤ p.node.startRow ∧ p.node.endRow ≤ a.node.endRow := by
  generalize hline : p.ancestors = ancestors at ha
  induction ancestors generalizing p with
  | nil => simp at ha
  | cons parent outer ih =>
    obtain ⟨hstart, hend⟩ := (h p hp).2 parent (by simp [hline])
    cases List.mem_cons.mp ha with
    | inl ha =>
      rw [ha]
      exact ⟨hstart, hend⟩
    | inr ha =>
      have hparent : parent ∈ tree.places :=
        mem_places_of_mem_ancestors hp (by simp [hline])
      obtain ⟨hstart', hend'⟩ := ih hparent (ancestors_of_ancestors_eq_cons hline) ha
      exact ⟨Nat.le_trans hstart' hstart, Nat.le_trans hend hend'⟩

def IsInC (file : String) (declarations : List Declaration) (line : LineNumber) : Prop :=
  ∃ d ∈ declarations, d.kind = .linkageSpecification "C" ∧ d.containingFile = file ∧
    d.startLine ≤ line ∧ line ≤ d.endLine

instance (file : String) (declarations : List Declaration) (line : LineNumber) :
    Decidable (IsInC file declarations line) :=
  inferInstanceAs (Decidable (∃ d ∈ declarations, _))

theorem LineRange.contains_iff {range : LineRange} {line : LineNumber} :
    range.contains line = true ↔ range.first ≤ line ∧ line ≤ range.last := by
  simp [LineRange.contains]

def LineRange.lines (range : LineRange) : List LineNumber := (range.first...=range.last).toList

/-- Every line that some range covers. -/
def linkedLines (ranges : List LineRange) : Std.HashSet LineNumber :=
  .ofList (ranges.flatMap LineRange.lines)

theorem LineRange.mem_lines_iff {range : LineRange} {line : LineNumber} :
    line ∈ range.lines ↔ range.first ≤ line ∧ line ≤ range.last := by
  rw [lines, Std.Rcc.mem_toList_iff_mem, Std.Rcc.mem_iff]

theorem mem_linkedLines_iff {ranges : List LineRange} {line : LineNumber} :
    line ∈ linkedLines ranges ↔ ∃ range ∈ ranges, range.first ≤ line ∧ line ≤ range.last := by
  simp [linkedLines, LineRange.mem_lines_iff]

/-- To ask the ranges is to look the line up in the set of their lines. -/
theorem isLinked_eq_contains (ranges : List LineRange) (line : LineNumber) :
    isLinked ranges line = (linkedLines ranges).contains line := by
  rw [Bool.eq_iff_iff, Std.HashSet.contains_iff_mem, mem_linkedLines_iff]
  simp [isLinked, LineRange.contains_iff]

theorem isLinked_cLinkageRanges_iff {file : String} {declarations : List Declaration}
    {line : LineNumber} : isLinked (cLinkageRanges file declarations) line = true ↔
      IsInC file declarations line := by
  simp [isLinked, cLinkageRanges, LineRange.contains_iff, IsInC, and_assoc]

namespace Outline

def rangeAt (p : Place) : LineRange := ⟨lineOfRow p.node.startRow, lineOfRow p.node.endRow⟩

/-- The place is in a linkage block for C that is declared. -/
def IsInDeclaredC (rootKind text : String) (p : Place) : Prop :=
  ∃ block ∈ p.ancestors, block.node.kind = "linkage_specification" ∧
    literalAt text block = "C" ∧ IsDeclared rootKind block

instance (rootKind text : String) (p : Place) : Decidable (IsInDeclaredC rootKind text p) :=
  inferInstanceAs (Decidable (∃ block ∈ p.ancestors, _))

theorem declarationAt_kind (file text : String) (p : Place) (language : String) :
    (declarationAt file text p).kind = .linkageSpecification language ↔
      p.node.kind = "linkage_specification" ∧ literalAt text p = language := by
  rw [declarationAt]
  split
  · next h => simp [h]
  · split <;> simp [*]

theorem isLinked_unit_iff (file text : String) (tree : SyntaxTree) (line : LineNumber) :
    isLinked (cLinkageRanges file (unit file text tree).declarations) line = true ↔
      ∃ block ∈ tree.places, IsDeclared tree.rootKind block ∧
        (block.node.kind = "linkage_specification" ∧ literalAt text block = "C") ∧
        (rangeAt block).contains line = true := by
  rw [isLinked_cLinkageRanges_iff, unit_declarations_eq]
  constructor
  · intro h
    obtain ⟨declaration, hdeclaration, hkind, -, hline⟩ := h
    obtain ⟨block, hblock, rfl⟩ := List.mem_map.mp hdeclaration
    obtain ⟨hplace, hdeclared⟩ := List.mem_filter.mp hblock
    exact ⟨block, hplace, of_decide_eq_true hdeclared,
      (declarationAt_kind file text block _).mp hkind, LineRange.contains_iff.mpr hline⟩
  · intro h
    obtain ⟨block, hplace, hdeclared, hkind, hline⟩ := h
    refine ⟨declarationAt file text block, List.mem_map.mpr ⟨block, ?_, rfl⟩, ?_⟩
    · exact List.mem_filter.mpr ⟨hplace, decide_eq_true hdeclared⟩
    · exact ⟨(declarationAt_kind file text block _).mpr hkind, rfl, LineRange.contains_iff.mp hline⟩

theorem lineOfRow_le {a b : Nat} (h : a ≤ b) : lineOfRow a ≤ lineOfRow b := by
  have hsize (row : Nat) : min (row + 1) 4294967295 < UInt32.size :=
    Nat.lt_of_le_of_lt (Nat.min_le_right _ _) (by decide)
  rw [UInt32.le_iff_toNat_le, lineOfRow, lineOfRow, UInt32.toNat_ofNat_of_lt' (hsize a),
    UInt32.toNat_ofNat_of_lt' (hsize b)]
  omega

theorem contains_rangeAt {tree : SyntaxTree} (h : tree.HasNestedRows) {p a : Place}
    (hp : p ∈ tree.places) (ha : a ∈ p.ancestors) :
    (rangeAt a).contains (lineOfRow p.node.startRow) = true := by
  obtain ⟨hstart, hend⟩ := h.within hp ha
  have hlast : p.node.startRow ≤ a.node.endRow := Nat.le_trans (h p hp).1 hend
  exact LineRange.contains_iff.mpr ⟨lineOfRow_le hstart, lineOfRow_le hlast⟩

def HasLineApart (tree : SyntaxTree) (p : Place) : Prop :=
  ∀ block ∈ tree.places, block.node.kind = "linkage_specification" →
    (rangeAt block).contains (lineOfRow p.node.startRow) = true → block ∈ p.ancestors

instance (tree : SyntaxTree) (p : Place) : Decidable (HasLineApart tree p) :=
  inferInstanceAs (Decidable (∀ block ∈ tree.places, _))

/-- Of a place that no other block shares the line with, the lines tell the blocks around it. -/
theorem isLinked_lineOfRow_iff (file text : String) {tree : SyntaxTree} {p : Place}
    (hrows : tree.HasNestedRows) (hp : p ∈ tree.places) (hapart : HasLineApart tree p) :
    isLinked (cLinkageRanges file (unit file text tree).declarations)
        (lineOfRow p.node.startRow) = true ↔
      IsInDeclaredC tree.rootKind text p := by
  rw [isLinked_unit_iff]
  constructor
  · intro h
    obtain ⟨block, hblock, hdeclared, ⟨hkind, hliteral⟩, hline⟩ := h
    exact ⟨block, hapart block hblock hkind hline, hkind, hliteral, hdeclared⟩
  · intro h
    obtain ⟨block, hancestor, hkind, hliteral, hdeclared⟩ := h
    exact ⟨block, mem_places_of_mem_ancestors hp hancestor, hdeclared, ⟨hkind, hliteral⟩,
      contains_rangeAt hrows hp hancestor⟩

end Outline

end Sketchbook
