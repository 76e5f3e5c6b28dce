import Sketchbook.FileTree.Basic

/-! The names in a directory. A name is listed once if something stands under it and not at all
otherwise, and the order is that of the bytes, so a listing is settled by which names are in it. -/
namespace Sketchbook.FileTree
open Text

variable {tree other : FileTree} {directory : Location} {name : Bytes}

def nameIn? (directory : Location) : Location → Option Bytes
  | name :: outer => if outer = directory then some name else none
  | [] => none

theorem nameIn?_eq_some_iff {location : Location} :
    nameIn? directory location = some name ↔ location = name :: directory := by
  cases location with
  | nil => simp [nameIn?]
  | cons first outer =>
    by_cases houter : outer = directory <;> simp [nameIn?, houter]

/-- The names before they are put in order. -/
theorem names_perm (tree : FileTree) (directory : Location) :
    (tree.names directory).Perm
      ((tree.entries.map Prod.fst).filterMap (nameIn? directory)) := by
  rw [List.filterMap_map, names]
  refine (List.mergeSort_perm _ _).trans (List.Perm.of_eq ?_)
  refine congrArg (List.filterMap · tree.entries) (funext fun entry => ?_)
  obtain ⟨location, node⟩ := entry
  cases location <;> rfl

theorem mem_names_iff : name ∈ tree.names directory ↔ tree.node? (name :: directory) ≠ none := by
  have hkey : name ∈ tree.names directory ↔ name :: directory ∈ tree.entries.map Prod.fst := by
    rw [(names_perm tree directory).mem_iff, List.mem_filterMap]
    simp [nameIn?_eq_some_iff]
  rw [hkey, node?, Entries.node?, if_neg (by simp), ne_eq, Option.map_eq_none_iff, List.find?_eq_none]
  simp

theorem nodup_names (tree : FileTree) (directory : Location) :
    (tree.names directory).Nodup := by
  rw [(names_perm tree directory).nodup_iff]
  refine List.Pairwise.filterMap (nameIn? directory) ?_ tree.distinct
  rintro location location' hne name hname _ hname' rfl
  exact hne ((nameIn?_eq_some_iff.mp hname).trans (nameIn?_eq_some_iff.mp hname').symm)

theorem pairwise_names (tree : FileTree) (directory : Location) :
    (tree.names directory).Pairwise (· ≤ ·) := by
  have htrans (a b c : Bytes) (hab : decide (a ≤ b) = true) (hbc : decide (b ≤ c) = true) :
      decide (a ≤ c) = true :=
    decide_eq_true (Std.le_trans (of_decide_eq_true hab) (of_decide_eq_true hbc))
  have htotal (a b : Bytes) : (decide (a ≤ b) || decide (b ≤ a)) = true := by
    simpa using Std.le_total
  exact (List.pairwise_mergeSort htrans htotal _).imp of_decide_eq_true

theorem names_eq {names : List Bytes} (hsorted : names.Pairwise (· ≤ ·))
    (hperm : ((tree.entries.map Prod.fst).filterMap (nameIn? directory)).Perm names) :
    tree.names directory = names :=
  ((names_perm tree directory).trans hperm).eq_of_pairwise (fun _ _ _ _ => Std.le_antisymm)
    (pairwise_names tree directory) hsorted

/-- Listings with the same names of some kind have them in the same order. -/
theorem filter_names_congr {p : Bytes → Bool}
    (h : ∀ name, p name = true → (name ∈ tree.names directory ↔ name ∈ other.names directory)) :
    (tree.names directory).filter p = (other.names directory).filter p := by
  have hnodup (tree : FileTree) : ((tree.names directory).filter p).Nodup :=
    (nodup_names tree directory).sublist List.filter_sublist
  have hsorted (tree : FileTree) : ((tree.names directory).filter p).Pairwise (· ≤ ·) :=
    (pairwise_names tree directory).sublist List.filter_sublist
  have hperm := (List.perm_ext_iff_of_nodup (hnodup tree) (hnodup other)).mpr fun name => by
    simp only [List.mem_filter, and_congr_left_iff]
    exact h name
  exact hperm.eq_of_pairwise (fun _ _ _ _ => Std.le_antisymm) (hsorted tree) (hsorted other)

end Sketchbook.FileTree
