import Sketchbook.Proofs.Snapshot.Store

/-! Snapshots in which something may be wrong. The lines of a file are read from the first on,
blank ones are passed over, and the first line that is no text or no record decides how loading
fails, whatever stands behind it. -/
namespace Sketchbook
open Text

/-- Nothing is left of a text by trimming it if and only if it is blank. -/
theorem Text.trim_eq_nil_iff (s : String) : trim s.toList = [] ↔ isBlankText s = true := by
  rw [isBlankText, List.all_eq_true]
  constructor
  · intro h c hc
    obtain ⟨tail, htail, hblank⟩ := dropRightWhile_append isBlank (s.toList.dropWhile isBlank)
    have hrest : s.toList.dropWhile isBlank = tail := by
      rw [htail]
      exact congrArg (· ++ tail) h
    rw [← List.takeWhile_append_dropWhile (p := isBlank) (l := s.toList), hrest] at hc
    cases List.mem_append.mp hc with
    | inl hfront => exact List.all_eq_true.mp List.all_takeWhile c hfront
    | inr hback => exact hblank c hback
  · intro h
    have hall : (s.toList ++ []).dropWhile isBlank = [].dropWhile isBlank :=
      List.dropWhile_append_of_pos h
    have hnone : s.toList.dropWhile isBlank = [] := by simpa using hall
    rw [trim, hnone]
    rfl

namespace Snapshot

variable {tree : FileTree} {path row content : Bytes} {line : Nat} {before after rows : List Bytes}
  {units : List SourceUnit} {failure : Failure}

def IsBlankRow (row : Bytes) : Prop := ∃ text, row = encode text ∧ trim text.toList = []

def IsRecordOf (unit : SourceUnit) (row : Bytes) : Prop :=
  ∃ text, row = encode text ∧ trim text.toList ≠ [] ∧ readRecord text = .ok unit

inductive Records : List Bytes → List SourceUnit → Prop where
  | nil : Records [] []
  | blank {row : Bytes} {rows : List Bytes} {units : List SourceUnit} (hrow : IsBlankRow row)
      (h : Records rows units) : Records (row :: rows) units
  | record {row : Bytes} {rows : List Bytes} {unit : SourceUnit} {units : List SourceUnit}
      (hrow : IsRecordOf unit row) (h : Records rows units) :
      Records (row :: rows) (unit :: units)

inductive Fails (path : Bytes) (line : Nat) (row : Bytes) : Failure → Prop where
  | notText (h : ∀ text, row ≠ encode text) : Fails path line row (.file path .notText)
  | notRecord {text : String} {fault : Fault} (hrow : row = encode text)
      (hshown : trim text.toList ≠ []) (h : readRecord text = .error fault) :
      Fails path line row (.snapshot line fault)

/-! ### One line -/

theorem readLines_blank (hrow : IsBlankRow row) (path : Bytes) (line : Nat) (rows : List Bytes) :
    readLines path line (row :: rows) = readLines path (line + 1) rows := by
  obtain ⟨text, rfl, hblank⟩ := hrow
  simp [readLines, (trim_eq_nil_iff text).mp hblank]

theorem readLines_record {unit : SourceUnit} (hrow : IsRecordOf unit row) (path : Bytes)
    (line : Nat) (rows : List Bytes) :
    readLines path line (row :: rows) =
      (readLines path (line + 1) rows).map (unit :: ·) := by
  obtain ⟨text, rfl, hshown, hrecord⟩ := hrow
  have hblank : isBlankText text = false := by simpa [trim_eq_nil_iff] using hshown
  simp only [readLines, decode?_encode, hblank, hrecord]
  cases readLines path (line + 1) rows <;> rfl

theorem readLines_fails (hrow : Fails path line row failure) (rows : List Bytes) :
    readLines path line (row :: rows) = .error failure := by
  cases hrow with
  | notText h =>
    have hdecode : decode? row = none := by
      cases htext : decode? row with
      | none => rfl
      | some text => exact absurd (encode_of_decode? htext).symm (h text)
    simp [readLines, hdecode]
  | @notRecord text fault hrow hshown h =>
    subst hrow
    have hblank : isBlankText text = false := by simpa [trim_eq_nil_iff] using hshown
    simp only [readLines, decode?_encode, hblank, h]
    rfl

/-- A line is blank, a record or at fault. -/
theorem isBlankRow_or (path : Bytes) (line : Nat) (row : Bytes) :
    IsBlankRow row ∨ (∃ unit, IsRecordOf unit row) ∨ ∃ failure, Fails path line row failure := by
  cases htext : decode? row with
  | none =>
    refine .inr (.inr ⟨_, .notText fun text hrow => ?_⟩)
    rw [hrow, decode?_encode] at htext
    contradiction
  | some text =>
    have hrow := (encode_of_decode? htext).symm
    by_cases hblank : trim text.toList = []
    · exact .inl ⟨text, hrow, hblank⟩
    · cases hrecord : readRecord text with
      | ok unit => exact .inr (.inl ⟨unit, text, hrow, hblank, hrecord⟩)
      | error fault => exact .inr (.inr ⟨_, .notRecord hrow hblank hrecord⟩)

/-! ### All lines -/

theorem Records.readLines_append (h : Records before units) (path : Bytes) (line : Nat)
    (rows : List Bytes) : readLines path line (before ++ rows) =
      (readLines path (line + before.length) rows).map (units ++ ·) := by
  induction h generalizing line with
  | nil =>
    rw [List.nil_append, List.length_nil, Nat.add_zero]
    cases readLines path line rows <;> rfl
  | blank hrow h ih =>
    rw [List.cons_append, readLines_blank hrow, ih, List.length_cons, Nat.add_right_comm,
      Nat.add_assoc]
  | @record row before unit units hrow h ih =>
    rw [List.cons_append, readLines_record hrow, ih, List.length_cons, Nat.add_right_comm,
      Nat.add_assoc]
    cases readLines path (line + (before.length + 1)) rows <;> rfl

theorem Records.readLines_eq (h : Records rows units) (path : Bytes) (line : Nat) :
    readLines path line rows = .ok units := by
  have hall := h.readLines_append path line []
  rw [List.append_nil] at hall
  rw [hall]
  simp [readLines, Except.map]

/-- The first line at fault fails the lines, the first of which has number `line`. -/
def FirstFails (path : Bytes) (line : Nat) (rows : List Bytes) (failure : Failure) : Prop :=
  ∃ before row after units, rows = before ++ row :: after ∧ Records before units ∧
    Fails path (line + before.length) row failure

theorem FirstFails.readLines_eq (h : FirstFails path line rows failure) :
    readLines path line rows = .error failure := by
  obtain ⟨before, row, after, units, rfl, hbefore, hrow⟩ := h
  rw [hbefore.readLines_append, readLines_fails hrow]
  rfl

theorem records_or_firstFails (path : Bytes) (line : Nat) (rows : List Bytes) :
    (∃ units, Records rows units) ∨ ∃ failure, FirstFails path line rows failure := by
  induction rows generalizing line with
  | nil => exact .inl ⟨[], .nil⟩
  | cons row rows ih =>
    -- a line that is at fault is the first; otherwise the lines behind it decide
    have hbehind {units : List SourceUnit} (hrow : Records [row] units) :
        (∃ failure, FirstFails path (line + 1) rows failure) →
          ∃ failure, FirstFails path line (row :: rows) failure := by
      rintro ⟨failure, before, faulty, after, more, rfl, hbefore, hfaulty⟩
      refine ⟨failure, row :: before, faulty, after, units ++ more, rfl, ?_, ?_⟩
      · cases hrow with
        | blank hrow h => cases h; exact .blank hrow hbefore
        | record hrow h => cases h; exact .record hrow hbefore
      · rwa [List.length_cons, Nat.add_comm before.length, ← Nat.add_assoc]
    rcases isBlankRow_or path line row with hrow | ⟨unit, hrow⟩ | ⟨failure, hrow⟩
    · exact (ih (line + 1)).imp (fun ⟨units, h⟩ => ⟨units, .blank hrow h⟩)
        (hbehind (.blank hrow .nil))
    · exact (ih (line + 1)).imp (fun ⟨units, h⟩ => ⟨unit :: units, .record hrow h⟩)
        (hbehind (.record hrow .nil))
    · exact .inr ⟨failure, [], row, rows, [], rfl, .nil, hrow⟩

/-! ### Files -/

theorem readLines_eq_ok_iff : readLines path line rows = .ok units ↔ Records rows units := by
  refine ⟨fun h => ?_, fun h => h.readLines_eq path line⟩
  rcases records_or_firstFails path line rows with ⟨all, hall⟩ | ⟨failure, hfails⟩
  · cases h.symm.trans (hall.readLines_eq path line)
    exact hall
  · cases h.symm.trans hfails.readLines_eq

theorem readLines_eq_error_iff :
    readLines path line rows = .error failure ↔ FirstFails path line rows failure := by
  refine ⟨fun h => ?_, fun h => h.readLines_eq⟩
  rcases records_or_firstFails path line rows with ⟨all, hall⟩ | ⟨other, hfails⟩
  · cases h.symm.trans (hall.readLines_eq path line)
  · cases h.symm.trans hfails.readLines_eq
    exact hfails

theorem load_of_read (hread : tree.read path = .ok content) :
    load tree path = (readLines path 1 (lines content)).map Index.ofUnits := by
  rw [load, readUnits, hread, onPath_ok]
  rfl

/-- A file is cut into lines in one way. If each of them is blank or a record, loading gives the
index of the units of the records, filed in the order of the lines; otherwise it fails as the
first line at fault does, under the number of that line. -/
theorem load_lines (hread : tree.read path = .ok content) : ∃ rows,
    (∀ other, IsCut content other ↔ other = rows) ∧
    (∀ index, load tree path = .ok index ↔
      ∃ units, Records rows units ∧ index = Index.ofUnits units) ∧
    ∀ failure, load tree path = .error failure ↔
      ∃ before row after units, rows = before ++ row :: after ∧ Records before units ∧
        Fails path (before.length + 1) row failure := by
  refine ⟨lines content, fun other => isCut_iff, fun index => ?_, fun failure => ?_⟩
  · rw [load_of_read hread]
    constructor
    · intro h
      cases hlines : readLines path 1 (lines content) with
      | error fault => simp [hlines, Except.map] at h
      | ok units =>
        simp only [hlines, Except.map, Except.ok.injEq] at h
        exact ⟨units, readLines_eq_ok_iff.mp hlines, h.symm⟩
    · rintro ⟨units, hrecords, rfl⟩
      rw [hrecords.readLines_eq]
      rfl
  · have hfirst : load tree path = .error failure ↔
        readLines path 1 (lines content) = .error failure := by
      rw [load_of_read hread]
      cases readLines path 1 (lines content) <;> simp [Except.map]
    simp only [hfirst, readLines_eq_error_iff, FirstFails, Nat.add_comm 1]

def tornContent : Bytes :=
  encode " \r\n\x7b\"file\":\"a.ino\"\x7d\n\u00a0\nnull\n" ++ [255]

theorem firstFails_torn : FirstFails factsPath 1 (lines tornContent)
    (.snapshot 4 (.wrongShape .null .unit)) := by
  have hrows : lines tornContent =
      [encode " ", encode "\x7b\"file\":\"a.ino\"\x7d", encode "\u00a0"] ++
        encode "null" :: [[255]] := by decide +kernel
  have hspace : IsBlankRow (encode " ") := ⟨_, rfl, by decide⟩
  have hunit : IsRecordOf { file := "a.ino" } (encode "\x7b\"file\":\"a.ino\"\x7d") :=
    ⟨_, rfl, by decide +kernel, by cbv⟩
  have hwide : IsBlankRow (encode "\u00a0") := ⟨_, rfl, by decide +kernel⟩
  exact ⟨_, _, _, _, hrows, .blank hspace (.record hunit (.blank hwide .nil)),
    .notRecord rfl (by decide +kernel) (by cbv)⟩

/-- The fourth line fails the file, with the number it has among all lines. -/
theorem load_lines_torn : ∃ tree : FileTree, tree.read factsPath = .ok tornContent ∧
    load tree factsPath = .error (.snapshot 4 (.wrongShape .null .unit)) ∧
    ∃ rows, (∀ other, IsCut tornContent other ↔ other = rows) ∧
      (∀ index, load tree factsPath = .ok index ↔
        ∃ units, Records rows units ∧ index = Index.ofUnits units) ∧
      ∀ failure, load tree factsPath = .error failure ↔
        ∃ before row after units, rows = before ++ row :: after ∧ Records before units ∧
          Fails factsPath (before.length + 1) row failure := by
  have hwrite : FileTree.write {} factsPath tornContent = _ := write_factsPath _ rfl rfl
  have hread := FileTree.read_write hwrite
  refine ⟨_, hread, ?_, load_lines hread⟩
  rw [load_of_read hread, firstFails_torn.readLines_eq]
  rfl

end Snapshot

end Sketchbook
