import Sketchbook.Proofs.FileTree.Change

/-! File trees that differ in one place where each has a file or nothing. A way that ends
elsewhere goes through directories and links only, which both have, so it leads to the same
location in both. -/
namespace Sketchbook.FileTree
open Text

variable {tree other : FileTree} {place location found : Location} {path content : Bytes}

theorem HasRoom.ne_directory (hroom : tree.HasRoom place)
    (h : tree.node? location = some .directory) : location ≠ place := by
  rintro rfl
  exact hroom.not_directory h

theorem isFile_iff : tree.isFile path = true ↔ ∃ location content,
    tree.resolve path = .ok location ∧ tree.node? location = some (.file content) := by
  unfold isFile nodeAt?
  cases hresolve : tree.resolve path with
  | error fault => simp
  | ok location =>
    cases hnode : tree.node? location with
    | none => simp [hnode]
    | some node => cases node <;> simp [hnode]

theorem read_eq_ok_iff : tree.read path = .ok content ↔ ∃ location,
    tree.resolve path = .ok location ∧ tree.node? location = some (.file content) := by
  unfold read
  cases hresolve : tree.resolve path with
  | error fault => simp [bind, Except.bind]
  | ok location =>
    cases hnode : tree.node? location with
    | none => simp [hnode, bind, Except.bind]
    | some node => cases node <;> simp [hnode, bind, Except.bind]

/-- The trees differ in one place at most, and there each has a file or nothing. -/
structure AlikeBut (place : Location) (tree other : FileTree) : Prop where
  elsewhere : tree.DiffersOnlyAt other place
  room : tree.HasRoom place
  otherRoom : other.HasRoom place
  base : other.workingDirectory = tree.workingDirectory

/-- Where an entry is fit to be does not depend on the files. -/
theorem HasRoom.isFit_of_elsewhere (hroom : tree.HasRoom place)
    (helsewhere : tree.DiffersOnlyAt other place) : other.entries.IsFit place := by
  obtain ⟨hfit, -⟩ := hroom
  cases place with
  | nil => exact hfit
  | cons name outer => exact ⟨hfit.1, (helsewhere outer (by simp)).trans hfit.2⟩

theorem HasRoom.alikeBut_set (hroom : tree.HasRoom place) (content : Bytes) :
    AlikeBut place tree (tree.set place (.file content)) where
  elsewhere := tree.differsOnlyAt_set place _
  room := hroom
  otherRoom := hasRoom_of_file (hroom.isFit_of_elsewhere (tree.differsOnlyAt_set place _))
    (node?_set_self (hroom.admits content))
  base := workingDirectory_set _ _ _

theorem HasRoom.alikeBut_erase (hroom : tree.HasRoom place) :
    AlikeBut place tree (tree.erase place) where
  elsewhere := tree.differsOnlyAt_erase place
  room := hroom
  otherRoom := hasRoom_of_free (hroom.isFit_of_elsewhere (tree.differsOnlyAt_erase place))
    (node?_erase_self hroom.not_directory)
  base := workingDirectory_erase _ _

theorem HasRoom.alikeBut_refl (hroom : tree.HasRoom place) : AlikeBut place tree tree where
  elsewhere _ _ := rfl
  room := hroom
  otherRoom := hroom
  base := rfl

namespace AlikeBut

theorem symm (h : AlikeBut place tree other) : AlikeBut place other tree where
  elsewhere location hne := (h.elsewhere location hne).symm
  room := h.otherRoom
  otherRoom := h.room
  base := h.base.symm

theorem keeps (h : AlikeBut place tree other) : Keeps tree other := by
  intro location node hnode hkind
  have hne : location ≠ place := by
    rintro rfl
    obtain ⟨content, hfile⟩ := h.room.2 node hnode
    exact hkind content hfile
  rw [h.elsewhere location hne, hnode]

/-- A path leads to the same location in the other tree, if there is a file at its end where it
ends at the place in question. -/
theorem resolve (h : AlikeBut place tree other)
    (hplace : found = place → ∃ content, other.node? place = some (.file content))
    (hresolve : tree.resolve path = .ok found) : other.resolve path = .ok found := by
  obtain ⟨hne, left, hwalk⟩ := resolve_eq_ok_iff.mp hresolve
  refine resolve_eq_ok_iff.mpr ⟨hne, left, ?_⟩
  rw [h.base]
  refine h.keeps.walk (fun content hfile => ?_) hwalk
  by_cases hfound : found = place
  · exact hfound ▸ hplace hfound
  · exact ⟨content, (h.elsewhere found hfound).trans hfile⟩

theorem resolve_of_ne (h : AlikeBut place tree other) (hfound : found ≠ place)
    (hresolve : tree.resolve path = .ok found) : other.resolve path = .ok found :=
  h.resolve (fun hplace => absurd hplace hfound) hresolve

/-- A path to a directory does not depend on the place. -/
theorem resolve_directory (h : AlikeBut place tree other)
    (hresolve : tree.resolve path = .ok location)
    (hdirectory : tree.node? location = some .directory) :
    other.resolve path = .ok location ∧ other.node? location = some .directory := by
  have hne := h.room.ne_directory hdirectory
  exact ⟨h.resolve_of_ne hne hresolve, (h.elsewhere _ hne).trans hdirectory⟩

/-- What a path to another place reads is the same. -/
theorem read_of_ne (h : AlikeBut place tree other) (hresolve : tree.resolve path = .ok found)
    (hfound : found ≠ place) : other.read path = tree.read path := by
  simp only [read, hresolve, h.resolve_of_ne hfound hresolve, bind, Except.bind,
    h.elsewhere found hfound]

end AlikeBut

end Sketchbook.FileTree
