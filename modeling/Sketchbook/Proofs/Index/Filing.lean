import Mathlib.Data.Finset.Card
import Mathlib.Data.String.Basic
import Sketchbook.Proofs.Index.Resolve
import Sketchbook.Proofs.Text.Order

/-! What an index holds after any units have been filed in it one after the other: the last unit of
every file, each under the name of its file, in the order of the bytes of the names. Nothing else
can be told from an index, so the units that were replaced leave no trace. -/
namespace Sketchbook.Index
open Text

variable {units more : List SourceUnit} {unit : SourceUnit} {file : String}

/-- The last of the units that have this file name. -/
def IsLast (file : String) (units : List SourceUnit) (unit : SourceUnit) : Prop :=
  unit.file = file ∧ ∃ before after, units = before ++ unit :: after ∧ ∀ u ∈ after, u.file ≠ file

theorem find?_reverse_eq_some_iff :
    units.reverse.find? (·.file == file) = some unit ↔ IsLast file units unit := by
  rw [List.find?_eq_some_iff_append, beq_iff_eq]
  refine and_congr_right fun _ => ?_
  constructor
  · rintro ⟨after, before, hunits, hafter⟩
    refine ⟨before.reverse, after.reverse, ?_, fun u hu => ?_⟩
    · rw [← List.reverse_reverse units, hunits]
      simp
    · simpa using hafter u (List.mem_reverse.mp hu)
  · rintro ⟨before, after, rfl, hafter⟩
    refine ⟨after.reverse, before.reverse, by simp, fun u hu => ?_⟩
    simpa using hafter u (List.mem_reverse.mp hu)

theorem resolve_ofUnits_eq_some_iff :
    (ofUnits units).resolve file = some unit ↔ IsLast file units unit := by
  rw [resolve_ofUnits, find?_reverse_eq_some_iff]

theorem resolve_ofUnits_eq_none_iff :
    (ofUnits units).resolve file = none ↔ ∀ u ∈ units, u.file ≠ file := by
  rw [resolve_ofUnits, List.find?_eq_none]
  simp

/-- Where every file is named once, a unit is found under its name and under no other. -/
theorem Ordered.resolve_eq_some_iff {index : Index} (h : Ordered index.units) :
    index.resolve file = some unit ↔ unit ∈ index.units ∧ unit.file = file := by
  rw [resolve, ← h.find?_reverse, find?_reverse_eq_some_iff, IsLast, and_comm]
  refine and_congr_left fun hfile => ?_
  constructor
  · rintro ⟨before, after, hunits, -⟩
    simp [hunits]
  · intro hmem
    obtain ⟨before, after, hunits⟩ := List.append_of_mem hmem
    refine ⟨before, after, hunits, fun u hu => ?_⟩
    -- what stands behind the unit has a larger name
    rw [Ordered, hunits, List.pairwise_append, List.pairwise_cons] at h
    exact hfile ▸ (Std.ne_of_lt (h.2.1.1 u hu)).symm

def mapOf (units : List SourceUnit) : Std.TreeMap String SourceUnit :=
  units.foldl (fun map unit => map.insert unit.file unit) ∅

theorem getElem?_foldl_insert (map : Std.TreeMap String SourceUnit) (units : List SourceUnit)
    (file : String) : (units.foldl (fun map unit => map.insert unit.file unit) map)[file]? =
      (units.reverse.find? (·.file == file)).or map[file]? := by
  induction units generalizing map with
  | nil => rfl
  | cons unit rest ih =>
    rw [List.foldl_cons, ih, Std.TreeMap.getElem?_insert, List.reverse_cons, List.find?_append,
      Option.or_assoc]
    by_cases hfile : unit.file = file <;> simp [hfile]

theorem getElem?_mapOf (units : List SourceUnit) (file : String) :
    (mapOf units)[file]? = (ofUnits units).resolve file := by
  rw [mapOf, getElem?_foldl_insert, resolve_ofUnits]
  simp

/-- The names stand in the map in the order of the index, and each has its own unit beside it. -/
theorem toList_mapOf (units : List SourceUnit) :
    (mapOf units).toList = (ofUnits units).units.map fun u => (u.file, u) := by
  have hordered := ordered_ofUnits units
  have hmap : (mapOf units).toList.Pairwise fun a b => a.1 < b.1 :=
    (Std.TreeMap.ordered_keys_toList (t := mapOf units)).imp compare_lt_iff_lt.mp
  have hindex : ((ofUnits units).units.map fun u => (u.file, u)).Pairwise fun a b => a.1 < b.1 :=
    List.pairwise_map.mpr hordered
  have hne {a b : String × SourceUnit} (h : a.1 < b.1) : a ≠ b :=
    fun hsame => Std.ne_of_lt h (congrArg Prod.fst hsame)
  have hperm : (mapOf units).toList.Perm ((ofUnits units).units.map fun u => (u.file, u)) := by
    refine (List.perm_ext_iff_of_nodup (hmap.imp hne) (hindex.imp hne)).mpr ?_
    rintro ⟨file, unit⟩
    rw [Std.TreeMap.mem_toList_iff_getElem?_eq_some, getElem?_mapOf,
      hordered.resolve_eq_some_iff, List.mem_map]
    constructor
    · rintro ⟨hmem, rfl⟩
      exact ⟨unit, hmem, rfl⟩
    · rintro ⟨u, hmem, hsame⟩
      cases hsame
      exact ⟨hmem, rfl⟩
  -- both are in ascending order of the names, in which no two lists of the same entries differ
  refine hperm.eq_of_pairwise (fun a b _ _ hab hba => ?_) hmap hindex
  exact absurd (Std.lt_trans hab hba) Std.lt_irrefl

theorem mem_files_ofUnits (units : List SourceUnit) (file : String) :
    file ∈ (ofUnits units).units.map (·.file) ↔ file ∈ units.map (·.file) := by
  calc
    file ∈ (ofUnits units).units.map (·.file)
        ↔ ∃ unit, (ofUnits units).resolve file = some unit := by
          simp only [List.mem_map, (ordered_ofUnits units).resolve_eq_some_iff]
    _ ↔ ¬ ∀ u ∈ units, u.file ≠ file := by
          rw [← resolve_ofUnits_eq_none_iff, ← ne_eq, Option.ne_none_iff_exists']
    _ ↔ file ∈ units.map (·.file) := by simp

/-- An index has as many units as there are different names. -/
theorem size_ofUnits (units : List SourceUnit) :
    (ofUnits units).size = (units.map (·.file)).toFinset.card := by
  have hnodup : ((ofUnits units).units.map (·.file)).Nodup :=
    List.pairwise_map.mpr ((ordered_ofUnits units).imp Std.ne_of_lt)
  have hsame : ((ofUnits units).units.map (·.file)).toFinset = (units.map (·.file)).toFinset := by
    ext file
    rw [List.mem_toFinset, List.mem_toFinset, mem_files_ofUnits]
  rw [← hsame, List.toFinset_card_of_nodup hnodup, List.length_map]
  rfl

/-- The index holds what is left of the units when each has been filed in the place of the one
before it with the same name. -/
structure Holds (index : Index) (units : List SourceUnit) : Prop where
  found : ∀ file unit, index.resolve file = some unit ↔ IsLast file units unit
  missing : ∀ file, index.resolve file = none ↔ ∀ u ∈ units, u.file ≠ file
  own : ∀ file unit, index.resolve file = some unit ↔ unit ∈ index.units ∧ unit.file = file
  keyed : (mapOf units).toList = index.units.map fun u => (u.file, u)
  ascending : index.units.Pairwise fun u v => encode u.file < encode v.file
  size : index.size = (units.map (·.file)).toFinset.card

theorem ofUnits_eq_iff : ofUnits units = ofUnits more ↔
    ∀ file unit, IsLast file units unit ↔ IsLast file more unit := by
  constructor
  · intro h file unit
    rw [← resolve_ofUnits_eq_some_iff, h, resolve_ofUnits_eq_some_iff]
  · intro h
    refine congrArg Index.mk ((ordered_ofUnits units).ext (ordered_ofUnits more) fun file => ?_)
    refine Option.ext fun unit => ?_
    exact resolve_ofUnits_eq_some_iff.trans ((h file unit).trans resolve_ofUnits_eq_some_iff.symm)

/-- Whatever units are filed in an empty index, it holds the last of every file under the name of
the file and nothing else. Two indexes are the same just when the last units are. -/
theorem insertAll_holds (units more : List SourceUnit) :
    Holds (empty.insertAll units) units ∧
      (empty.insertAll units = empty.insertAll more ↔
        ∀ file unit, IsLast file units unit ↔ IsLast file more unit) := by
  have hordered : Ordered (empty.insertAll units).units := ordered_ofUnits units
  refine ⟨?_, ofUnits_eq_iff⟩
  exact {
    found := fun _ _ => resolve_ofUnits_eq_some_iff
    missing := fun _ => resolve_ofUnits_eq_none_iff
    own := fun _ _ => hordered.resolve_eq_some_iff
    keyed := toList_mapOf units
    ascending := hordered.imp encode_lt_encode
    size := size_ofUnits units }

end Sketchbook.Index
