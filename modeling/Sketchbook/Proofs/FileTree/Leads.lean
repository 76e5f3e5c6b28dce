import Sketchbook.Proofs.FileTree.Names
import Sketchbook.Proofs.FileTree.Entry

/-! Ways through a file tree, told by the links that are followed on them. A path leads somewhere
if there is such a way with few enough links, and what stands where is all that decides it. -/
namespace Sketchbook.FileTree
open Text

variable {tree other : FileTree} {location found : Location} {steps : List PathStep}
  {limit links left : Nat}

/-- The steps lead from one location to another through directories, and so many links are
followed on the way. A link is replaced by the steps of its target. -/
inductive Leads (tree : FileTree) :
    (links : Nat) → Location → List PathStep → Location → Prop where
  | here {location : Location} : Leads tree 0 location [] location
  | stay {links : Nat} {location found : Location} {rest : List PathStep}
      (hdirectory : tree.node? location = some .directory)
      (h : Leads tree links location rest found) :
      Leads tree links location (.stay :: rest) found
  | up {links : Nat} {location found : Location} {rest : List PathStep}
      (hdirectory : tree.node? location = some .directory)
      (h : Leads tree links location.tail rest found) :
      Leads tree links location (.up :: rest) found
  | enter {links : Nat} {location found : Location} {rest : List PathStep} {name : Bytes}
      {node : FileNode} (hdirectory : tree.node? location = some .directory)
      (hnode : tree.node? (name :: location) = some node) (hplain : ∀ target, node ≠ .link target)
      (h : Leads tree links (name :: location) rest found) :
      Leads tree links location (.down name :: rest) found
  | follow {links : Nat} {location found : Location} {rest : List PathStep} {name target : Bytes}
      (hdirectory : tree.node? location = some .directory)
      (hlink : tree.node? (name :: location) = some (.link target))
      (h : Leads tree links ((Route.ofPath target).start location)
        ((Route.ofPath target).allSteps ++ rest) found) :
      Leads tree (links + 1) location (.down name :: rest) found

theorem leads_of_walk (h : tree.walk limit location steps = .ok (found, left)) :
    ∃ links, links + left = limit ∧ tree.Leads links location steps found := by
  induction limit, location, steps using tree.walk_induction with
  | here limit location =>
    rw [walk_nil] at h
    cases h
    exact ⟨0, Nat.zero_add left, .here⟩
  | stuck limit location next fault hstuck rest => cases (hstuck rest).symm.trans h
  | stay limit location rest hdirectory ih =>
    rw [walk_stay hdirectory] at h
    obtain ⟨links, hlinks, hrest⟩ := ih h
    exact ⟨links, hlinks, .stay hdirectory hrest⟩
  | up limit location rest hdirectory ih =>
    rw [walk_up hdirectory] at h
    obtain ⟨links, hlinks, hrest⟩ := ih h
    exact ⟨links, hlinks, .up hdirectory hrest⟩
  | enter limit location rest name node hdirectory hnode hplain ih =>
    rw [walk_enter hdirectory hnode hplain] at h
    obtain ⟨links, hlinks, hrest⟩ := ih h
    exact ⟨links, hlinks, .enter hdirectory hnode hplain hrest⟩
  | follow limit location rest name target hdirectory hlink ih =>
    rw [walk_follow hdirectory hlink] at h
    obtain ⟨links, hlinks, hrest⟩ := ih h
    exact ⟨links + 1, by omega, .follow hdirectory hlink hrest⟩

theorem Leads.walk_eq (h : tree.Leads links location steps found) (left : Nat) :
    tree.walk (links + left) location steps = .ok (found, left) := by
  induction h with
  | here => rw [walk_nil, Nat.zero_add]
  | stay hdirectory h ih =>
    rw [walk_stay hdirectory]
    exact ih
  | up hdirectory h ih =>
    rw [walk_up hdirectory]
    exact ih
  | enter hdirectory hnode hplain h ih =>
    rw [walk_enter hdirectory hnode hplain]
    exact ih
  | follow hdirectory hlink h ih =>
    rw [Nat.add_right_comm, walk_follow hdirectory hlink]
    exact ih

/-- Walking finds the ways on which no more links are followed than allowed. -/
theorem walk_eq_ok_iff : tree.walk limit location steps = .ok (found, left) ↔
    ∃ links, links + left = limit ∧ tree.Leads links location steps found := by
  refine ⟨leads_of_walk, ?_⟩
  rintro ⟨links, rfl, h⟩
  exact h.walk_eq left

structure SameNodes (tree other : FileTree) : Prop where
  node? : ∀ location, other.node? location = tree.node? location
  base : other.workingDirectory = tree.workingDirectory

namespace SameNodes

variable {path : Bytes}

theorem symm (h : SameNodes tree other) : SameNodes other tree where
  node? location := (h.node? location).symm
  base := h.base.symm

theorem leads (h : SameNodes tree other) (hleads : tree.Leads links location steps found) :
    other.Leads links location steps found := by
  induction hleads with
  | here => exact .here
  | stay hdirectory _ ih => exact .stay ((h.node? _).trans hdirectory) ih
  | up hdirectory _ ih => exact .up ((h.node? _).trans hdirectory) ih
  | enter hdirectory hnode hplain _ ih =>
    exact .enter ((h.node? _).trans hdirectory) ((h.node? _).trans hnode) hplain ih
  | follow hdirectory hlink _ ih =>
    exact .follow ((h.node? _).trans hdirectory) ((h.node? _).trans hlink) ih

theorem resolve (h : SameNodes tree other) (hresolve : tree.resolve path = .ok location) :
    other.resolve path = .ok location := by
  obtain ⟨hne, left, hwalk⟩ := resolve_eq_ok_iff.mp hresolve
  obtain ⟨links, hlinks, hleads⟩ := walk_eq_ok_iff.mp hwalk
  refine resolve_eq_ok_iff.mpr ⟨hne, left, ?_⟩
  rw [h.base]
  exact walk_eq_ok_iff.mpr ⟨links, hlinks, h.leads hleads⟩

/-- Paths lead to the same locations, or nowhere in both trees. -/
theorem resolve_iff (h : SameNodes tree other) :
    other.resolve path = .ok location ↔ tree.resolve path = .ok location :=
  ⟨h.symm.resolve, h.resolve⟩

theorem isFile (h : SameNodes tree other) (path : Bytes) :
    other.isFile path = tree.isFile path := by
  rw [Bool.eq_iff_iff, isFile_iff, isFile_iff]
  simp only [h.resolve_iff, h.node?]

theorem canonical (h : SameNodes tree other) (path : Bytes) :
    (other.canonical path).toOption = (tree.canonical path).toOption := by
  unfold FileTree.canonical
  cases hresolve : tree.resolve path with
  | ok location => rw [h.resolve hresolve]
  | error fault =>
    cases hother : other.resolve path with
    | ok location => simp [h.resolve_iff.mp hother] at hresolve
    | error fault => rfl

/-- Directories list the same names in the same order. -/
theorem names (h : SameNodes tree other) (directory : Location) :
    other.names directory = tree.names directory := by
  have hmem (name : Bytes) : name ∈ other.names directory ↔ name ∈ tree.names directory := by
    rw [mem_names_iff, mem_names_iff, h.node?]
  have hall (names : List Bytes) : names.filter (fun _ => true) = names :=
    List.filter_eq_self.mpr fun _ _ => rfl
  rw [← hall (other.names directory), filter_names_congr fun name _ => hmem name, hall]

end SameNodes

end Sketchbook.FileTree
