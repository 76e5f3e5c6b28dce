import Sketchbook.Proofs.Project.Members

/-! The primary sketches of an opened project. There is one for every recognised extension with
which a file of the root is named after the project, so a project has several where it has such
files with different extensions. -/
namespace Sketchbook.Project
open Text

variable {tree : FileTree} {path : Bytes} {name : Option String} {project : Project}
  {settings : Settings} {sketch : Sketch}

def primaries (project : Project) (settings : Settings) : List Sketch :=
  (project.sketches settings).filter (·.isPrimary)

def HasNamesake (project : Project) (extension : String) : Prop :=
  extensionOf (project.name ++ "." ++ extension) = some extension ∧
    ∃ m ∈ project.members, m.name = project.name ++ "." ++ extension

/-- Sketches have names of their own, as their members do. -/
theorem nodup_sketches (hopen : openAt tree path name = .ok project) (settings : Settings) :
    (project.sketches settings).Pairwise (·.name ≠ ·.name) := by
  have hmembers := nodup_members hopen
  rw [List.Nodup, List.pairwise_map] at hmembers
  refine List.Pairwise.filterMap _ ?_ hmembers
  intro m m' hne sketch hsketch sketch' hsketch'
  obtain ⟨-, -, -, rfl⟩ := Member.sketch?_eq_some_iff.mp hsketch
  obtain ⟨-, -, -, rfl⟩ := Member.sketch?_eq_some_iff.mp hsketch'
  exact hne

/-- A sketch is primary if its name is that of the project with its own extension. -/
theorem mem_primaries_iff : sketch ∈ project.primaries settings ↔
    ∃ m ∈ project.members, ∃ extension ∈ settings.sketchExtensions,
      extensionOf m.name = some extension ∧ m.name = project.name ++ "." ++ extension ∧
      sketch = ⟨m.name, true, m.linkTarget⟩ := by
  rw [primaries, List.mem_filter, mem_sketches_iff]
  constructor
  · rintro ⟨⟨m, hm, hsketch⟩, hprimary⟩
    obtain ⟨extension, hextension, hmarks, rfl⟩ := Member.sketch?_eq_some_iff.mp hsketch
    have hname := beq_iff_eq.mp hprimary
    refine ⟨m, hm, extension, List.contains_iff_mem.mp hmarks, hextension, hname, ?_⟩
    simp [hname]
  · rintro ⟨m, hm, extension, hmarks, hextension, hname, rfl⟩
    refine ⟨⟨m, hm, Member.sketch?_eq_some_iff.mpr ⟨extension, hextension, ?_, ?_⟩⟩, rfl⟩
    · exact List.contains_iff_mem.mpr hmarks
    · simp [hname]

theorem mem_extensions_primaries_iff {extension : String} :
    some extension ∈ (project.primaries settings).map (extensionOf ·.name) ↔
      extension ∈ settings.sketchExtensions ∧ project.HasNamesake extension := by
  rw [List.mem_map]
  constructor
  · rintro ⟨sketch, hprimary, hextension⟩
    obtain ⟨m, hm, own, hmarks, hown, hname, rfl⟩ := mem_primaries_iff.mp hprimary
    cases hown.symm.trans hextension
    exact ⟨hmarks, hname ▸ hown, m, hm, hname⟩
  · rintro ⟨hmarks, hextension, m, hm, hname⟩
    rw [← hname] at hextension
    exact ⟨⟨m.name, true, m.linkTarget⟩, mem_primaries_iff.mpr
      ⟨m, hm, extension, hmarks, hextension, hname, rfl⟩, hextension⟩

theorem exists_of_mem_extensions_primaries {extension : Option String}
    (h : extension ∈ (project.primaries settings).map (extensionOf ·.name)) :
    ∃ own, extension = some own ∧ own ∈ settings.sketchExtensions ∧
      project.HasNamesake own := by
  obtain ⟨sketch, hprimary, rfl⟩ := List.mem_map.mp h
  obtain ⟨m, -, own, -, hown, -, rfl⟩ := mem_primaries_iff.mp hprimary
  exact ⟨own, hown, mem_extensions_primaries_iff.mp (hown ▸ h)⟩

/-- Primary sketches have different extensions. -/
theorem nodup_extensions_primaries (hopen : openAt tree path name = .ok project)
    (settings : Settings) : ((project.primaries settings).map (extensionOf ·.name)).Nodup := by
  have hnames := (nodup_sketches hopen settings).filter (·.isPrimary)
  rw [List.Nodup, List.pairwise_map]
  refine List.Pairwise.imp_of_mem ?_ hnames
  intro sketch sketch' hsketch hsketch' hne hsame
  -- the extension settles the name of a primary sketch
  obtain ⟨m, -, extension, -, hextension, hname, rfl⟩ := mem_primaries_iff.mp hsketch
  obtain ⟨m', -, extension', -, hextension', hname', rfl⟩ := mem_primaries_iff.mp hsketch'
  cases hextension.symm.trans (hsame.trans hextension')
  exact hne (hname.trans hname'.symm)

theorem length_le_one_iff {α : Type} {xs : List α} (hnodup : xs.Nodup) :
    xs.length ≤ 1 ↔ ∀ a ∈ xs, ∀ b ∈ xs, a = b := by
  match xs, hnodup with
  | [], _ => simp
  | [a], _ => simp
  | a :: b :: rest, hnodup =>
    have hne : a ≠ b := fun hsame => (List.nodup_cons.mp hnodup).1 (hsame ▸ List.mem_cons_self)
    simp [hne]

/-- The primary sketches stand for the recognised extensions with which a file is named after the
project, each for one. There is one primary sketch at most just where there are no two such
extensions. -/
theorem primaries_le_one_iff (hopen : openAt tree path name = .ok project)
    (settings : Settings) :
    ((project.primaries settings).map (extensionOf ·.name)).Nodup ∧
    (∀ extension, some extension ∈ (project.primaries settings).map (extensionOf ·.name) ↔
      extension ∈ settings.sketchExtensions ∧ project.HasNamesake extension) ∧
    ((project.sketches settings).countP (·.isPrimary) ≤ 1 ↔
      ∀ extension ∈ settings.sketchExtensions, ∀ extension' ∈ settings.sketchExtensions,
        project.HasNamesake extension → project.HasNamesake extension' →
          extension = extension') := by
  have hnodup := nodup_extensions_primaries hopen settings
  refine ⟨hnodup, fun _ => mem_extensions_primaries_iff, ?_⟩
  have hlength := length_le_one_iff hnodup
  rw [List.length_map, primaries, ← List.countP_eq_length_filter, ← primaries] at hlength
  rw [hlength]
  constructor
  · intro h extension hmarks extension' hmarks' hnamesake hnamesake'
    exact Option.some.inj (h _ (mem_extensions_primaries_iff.mpr ⟨hmarks, hnamesake⟩) _
      (mem_extensions_primaries_iff.mpr ⟨hmarks', hnamesake'⟩))
  · intro h a ha b hb
    obtain ⟨extension, rfl, hmarks, hnamesake⟩ := exists_of_mem_extensions_primaries ha
    obtain ⟨extension', rfl, hmarks', hnamesake'⟩ := exists_of_mem_extensions_primaries hb
    exact congrArg some (h _ hmarks _ hmarks' hnamesake hnamesake')

/-- With the usual settings both files are primary sketches. -/
theorem not_primaries_le_one_twins :
    openAt twinTree [47] (some "Blink") = .ok twins ∧
      ¬ (twins.sketches {}).countP (·.isPrimary) ≤ 1 := by
  have hino : twins.HasNamesake "ino" := ⟨by decide +kernel, _, List.mem_cons_self, rfl⟩
  have hpde : twins.HasNamesake "pde" :=
    ⟨by decide +kernel, _, List.mem_cons_of_mem _ List.mem_cons_self, rfl⟩
  refine ⟨openAt_twins, fun hle => ?_⟩
  have hsame := (primaries_le_one_iff openAt_twins {}).2.2.mp hle "ino" List.mem_cons_self "pde"
    (List.mem_cons_of_mem _ List.mem_cons_self) hino hpde
  exact absurd hsame (by decide)

end Sketchbook.Project
