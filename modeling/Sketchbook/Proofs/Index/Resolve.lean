import Sketchbook.Index

/-! What an index finds under a file name after units have been filed. The last unit of a file
wins, and the names stay in ascending order, so an index is settled by what it finds. -/
namespace Sketchbook.Index

variable {units more : List SourceUnit} {unit : SourceUnit} {file : String}

theorem find?_insertUnit (unit : SourceUnit) (units : List SourceUnit) (file : String) :
    (insertUnit unit units).find? (·.file == file) =
      if unit.file = file then some unit else units.find? (·.file == file) := by
  induction units with
  | nil => by_cases hfile : unit.file = file <;> simp [insertUnit, hfile]
  | cons u rest ih =>
    rw [insertUnit]
    split
    · by_cases hfile : unit.file = file <;> simp [List.find?_cons, hfile]
    · split
      · next hsame => by_cases hfile : unit.file = file <;> simp [hfile, ← hsame]
      · next hdiffer =>
        by_cases hfile : u.file = file
        · have hother : unit.file ≠ file := hfile ▸ hdiffer
          simp [hfile, hother]
        · simp [hfile, ih]

/-- A unit is found under its own name, and nothing else is found in another way. -/
theorem resolve_insert (index : Index) (unit : SourceUnit) (file : String) :
    (index.insert unit).resolve file =
      if unit.file = file then some unit else index.resolve file :=
  find?_insertUnit unit index.units file

/-- The last of the units filed under a name is found, and what was found before if there is
none. -/
theorem resolve_insertAll (index : Index) (units : List SourceUnit) (file : String) :
    (index.insertAll units).resolve file =
      (units.reverse.find? (·.file == file)).or (index.resolve file) := by
  induction units generalizing index with
  | nil => rfl
  | cons unit rest ih =>
    have hstep : index.insertAll (unit :: rest) = (index.insert unit).insertAll rest := rfl
    rw [hstep, ih, resolve_insert, List.reverse_cons, List.find?_append, Option.or_assoc]
    by_cases hfile : unit.file = file <;> simp [hfile]

theorem resolve_ofUnits (units : List SourceUnit) (file : String) :
    (ofUnits units).resolve file = units.reverse.find? (·.file == file) := by
  rw [ofUnits, resolve_insertAll]
  exact Option.or_none

def Ordered (units : List SourceUnit) : Prop := units.Pairwise (·.file < ·.file)

theorem mem_insertUnit {u : SourceUnit} (h : u ∈ insertUnit unit units) :
    u = unit ∨ u ∈ units := by
  induction units with
  | nil => exact .inl (List.mem_singleton.mp h)
  | cons v rest ih =>
    rw [insertUnit] at h
    split at h
    · exact List.mem_cons.mp h
    · split at h
      · exact (List.mem_cons.mp h).imp_right (List.mem_cons_of_mem v)
      · cases List.mem_cons.mp h with
        | inl h => exact .inr (List.mem_cons.mpr (.inl h))
        | inr h => exact (ih h).imp_right (List.mem_cons_of_mem v)

theorem Ordered.insertUnit (h : Ordered units) (unit : SourceUnit) :
    Ordered (insertUnit unit units) := by
  induction units with
  | nil => exact List.pairwise_singleton _ _
  | cons u rest ih =>
    obtain ⟨hfirst, hrest⟩ := List.pairwise_cons.mp h
    rw [Index.insertUnit]
    split
    · next hless =>
      refine List.pairwise_cons.mpr ⟨fun v hv => ?_, h⟩
      cases List.mem_cons.mp hv with
      | inl hv => exact hv ▸ hless
      | inr hv => exact Std.lt_trans hless (hfirst v hv)
    · next hnotLess =>
      split
      · next hsame => exact List.pairwise_cons.mpr ⟨fun v hv => hsame ▸ hfirst v hv, hrest⟩
      · next hdiffer =>
        refine List.pairwise_cons.mpr ⟨fun v hv => ?_, ih hrest⟩
        cases mem_insertUnit hv with
        | inl hv => exact hv ▸ Std.lt_of_le_of_ne (Std.not_lt.mp hnotLess) (Ne.symm hdiffer)
        | inr hv => exact hfirst v hv

theorem ordered_insertAll {index : Index} (h : Ordered index.units) (units : List SourceUnit) :
    Ordered (index.insertAll units).units := by
  induction units generalizing index with
  | nil => exact h
  | cons unit rest ih => exact ih (h.insertUnit unit)

theorem ordered_ofUnits (units : List SourceUnit) : Ordered (ofUnits units).units :=
  ordered_insertAll List.Pairwise.nil units

theorem find?_of_lt (h : ∀ u ∈ units, file < u.file) : units.find? (·.file == file) = none := by
  rw [List.find?_eq_none]
  intro u hu hfile
  exact Std.ne_of_lt (h u hu) (beq_iff_eq.mp hfile).symm

/-- Ordered lists in which the same is found are equal. -/
theorem Ordered.ext (h : Ordered units) (hmore : Ordered more)
    (hfind : ∀ file, units.find? (·.file == file) = more.find? (·.file == file)) :
    units = more := by
  induction units generalizing more with
  | nil =>
    cases more with
    | nil => rfl
    | cons v rest => simpa using hfind v.file
  | cons u rest ih =>
    obtain ⟨hfirst, hrest⟩ := List.pairwise_cons.mp h
    cases more with
    | nil => simpa using hfind u.file
    | cons v more =>
      obtain ⟨hfirst', hmore'⟩ := List.pairwise_cons.mp hmore
      -- the unit with the smaller name would be found in one of the lists only
      have hnotLess : ¬ u.file < v.file := by
        intro hless
        have hnone : (v :: more).find? (·.file == u.file) = none := find?_of_lt
          (List.forall_mem_cons.mpr ⟨hless, fun w hw => Std.lt_trans hless (hfirst' w hw)⟩)
        simpa [hnone] using hfind u.file
      have hnotLess' : ¬ v.file < u.file := by
        intro hless
        have hnone : (u :: rest).find? (·.file == v.file) = none := find?_of_lt
          (List.forall_mem_cons.mpr ⟨hless, fun w hw => Std.lt_trans hless (hfirst w hw)⟩)
        simpa [hnone] using (hfind v.file).symm
      have hfile : u.file = v.file :=
        Std.le_antisymm (Std.not_lt.mp hnotLess') (Std.not_lt.mp hnotLess)
      have hsame : u = v := by simpa [hfile] using hfind u.file
      subst hsame
      refine congrArg (u :: ·) (ih hrest hmore' fun file => ?_)
      by_cases hown : u.file = file
      · rw [find?_of_lt (hown ▸ hfirst), find?_of_lt (hown ▸ hfirst')]
      · simpa [hown] using hfind file

/-- Only the order of the units of each file matters. -/
theorem ofUnits_congr (h : ∀ file, units.filter (·.file == file) = more.filter (·.file == file)) :
    ofUnits units = ofUnits more := by
  have hunits : (ofUnits units).units = (ofUnits more).units := by
    refine (ordered_ofUnits units).ext (ordered_ofUnits more) fun file => ?_
    have hfind := resolve_ofUnits units file
    rw [← List.head?_filter, List.filter_reverse, h file, ← List.filter_reverse,
      List.head?_filter, ← resolve_ofUnits] at hfind
    exact hfind
  exact congrArg Index.mk hunits

theorem Ordered.find?_reverse (h : Ordered units) (file : String) :
    units.reverse.find? (·.file == file) = units.find? (·.file == file) := by
  induction units with
  | nil => rfl
  | cons u rest ih =>
    obtain ⟨hfirst, hrest⟩ := List.pairwise_cons.mp h
    rw [List.reverse_cons, List.find?_append, ih hrest]
    by_cases hown : u.file = file
    · rw [find?_of_lt (hown ▸ hfirst)]
      simp [hown]
    · simp [hown]

/-- Filing the units of an index anew gives the same index. -/
theorem ofUnits_units {index : Index} (h : Ordered index.units) : ofUnits index.units = index := by
  have hunits : (ofUnits index.units).units = index.units := by
    refine (ordered_ofUnits index.units).ext h fun file => ?_
    rw [← h.find?_reverse]
    exact resolve_ofUnits index.units file
  exact congrArg Index.mk hunits

end Sketchbook.Index
