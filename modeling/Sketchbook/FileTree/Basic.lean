import Sketchbook.Path

/-! A file tree holds files, directories and links under their locations. A location lists
the names on the way up to the root, the innermost first. Every entry has a proper name and
stands in a directory, so a tree is always one that a disk could hold. -/
namespace Sketchbook
open Text

structure IsName (name : Bytes) : Prop where
  ne_nil : name ≠ []
  ne_dot : name ≠ [46]
  ne_dots : name ≠ [46, 46]
  separator : 47 ∉ name

theorem isName_iff {name : Bytes} :
    IsName name ↔ name ≠ [] ∧ name ≠ [46] ∧ name ≠ [46, 46] ∧ 47 ∉ name :=
  ⟨fun h => ⟨h.ne_nil, h.ne_dot, h.ne_dots, h.separator⟩, fun h => ⟨h.1, h.2.1, h.2.2.1, h.2.2.2⟩⟩

instance (name : Bytes) : Decidable (IsName name) := decidable_of_iff _ isName_iff.symm

abbrev Location := List Bytes

inductive FileNode where
  | file (content : Bytes)
  | directory
  | link (target : Bytes)
  deriving DecidableEq, Repr

abbrev Entries := List (Location × FileNode)

namespace Entries

variable {entries : Entries} {location other : Location} {node : FileNode}

def node? (entries : Entries) (location : Location) : Option FileNode :=
  if location = [] then some .directory
  else (entries.find? (·.1 == location)).map Prod.snd

def IsFit (entries : Entries) : Location → Prop
  | [] => False
  | name :: outer => IsName name ∧ entries.node? outer = some .directory

instance (entries : Entries) : (location : Location) → Decidable (entries.IsFit location)
  | [] => .isFalse id
  | name :: outer =>
    inferInstanceAs (Decidable (IsName name ∧ entries.node? outer = some .directory))

theorem IsFit.ne_nil (h : entries.IsFit location) : location ≠ [] := by
  rintro rfl
  exact h

/-- Entries that a condition keeps are found as before. -/
theorem node?_filter (keep : Location → Bool) (h : keep location = true) :
    node? (entries.filter (keep ·.1)) location = entries.node? location := by
  unfold node?
  congr 2
  rw [List.find?_filter]
  refine congrArg (List.find? · entries) (funext fun entry => ?_)
  by_cases hentry : entry.1 = location
  · simp [hentry, h]
  · simp [hentry]

def put (entries : Entries) (location : Location) (node : FileNode) : Entries :=
  (location, node) :: entries.filter (·.1 != location)

theorem node?_put_self (hlocation : location ≠ []) :
    node? (entries.put location node) location = some node := by
  simp [node?, hlocation, put]

theorem node?_put_of_ne (hne : other ≠ location) :
    node? (entries.put location node) other = entries.node? other := by
  have hrest : node? (entries.filter (·.1 != location)) other = entries.node? other :=
    node?_filter (· != location) (bne_iff_ne.mpr hne)
  unfold node? at hrest ⊢
  rw [put, List.find?_cons_of_neg (by simpa using hne.symm)]
  exact hrest

end Entries

/-- What stands where, and the directory from which relative paths start. No location is entered
twice, and each is fit for an entry. -/
structure FileTree where
  entries : Entries := []
  workingDirectory : Location := []
  distinct : (entries.map Prod.fst).Nodup := by exact List.nodup_nil
  fit : ∀ entry ∈ entries, entries.IsFit entry.1 := by exact List.forall_mem_nil _

inductive FileFault where
  | noEntry
  | alreadyExists
  | notDirectory
  | isDirectory
  | invalid
  | linkLoop
  deriving DecidableEq, Repr

def FileFault.message : FileFault → String
  | .noEntry => "No such file or directory (os error 2)"
  | .alreadyExists => "File exists (os error 17)"
  | .notDirectory => "Not a directory (os error 20)"
  | .isDirectory => "Is a directory (os error 21)"
  | .invalid => "Invalid argument (os error 22)"
  | .linkLoop => "Too many levels of symbolic links (os error 40)"

namespace FileTree

variable {tree : FileTree} {location other : Location} {node : FileNode}

def node? (tree : FileTree) (location : Location) : Option FileNode :=
  tree.entries.node? location

theorem node?_nil (tree : FileTree) : tree.node? [] = some .directory := rfl

theorem isFit_of_node? (hlocation : location ≠ []) (h : tree.node? location = some node) :
    tree.entries.IsFit location := by
  rw [node?, Entries.node?, if_neg hlocation] at h
  obtain ⟨entry, hfind, -⟩ := Option.map_eq_some_iff.mp h
  have hkey : entry.1 = location := by simpa using List.find?_some hfind
  exact hkey ▸ tree.fit entry (List.mem_of_find?_eq_some hfind)

/-- Whatever stands away from the root has a proper name. -/
theorem isName_of_node? {name : Bytes} (h : tree.node? (name :: location) = some node) :
    IsName name :=
  (isFit_of_node? (List.cons_ne_nil name location) h).1

/-- Whatever stands away from the root stands in a directory. -/
theorem node?_outer {name : Bytes} (h : tree.node? (name :: location) = some node) :
    tree.node? location = some .directory :=
  (isFit_of_node? (List.cons_ne_nil name location) h).2

def restrict (tree : FileTree) (keep : Location → Bool)
    (hkeep : ∀ name outer, keep (name :: outer) = true → tree.node? outer = some .directory →
      keep outer = true) : FileTree where
  entries := tree.entries.filter (keep ·.1)
  workingDirectory := tree.workingDirectory
  distinct := tree.distinct.sublist (List.filter_sublist.map _)
  fit := by
    rintro ⟨location, node⟩ hentry
    obtain ⟨hentry, hkept⟩ := List.mem_filter.mp hentry
    have hfit := tree.fit _ hentry
    cases location with
    | nil => exact hfit
    | cons name outer =>
      have houter := hkeep name outer hkept hfit.2
      exact ⟨hfit.1, (Entries.node?_filter keep houter).trans hfit.2⟩

def prune (tree : FileTree) (location : Location) : FileTree :=
  tree.restrict (!location.isSuffixOf ·) fun name outer hkept _ => by
    rw [Bool.not_eq_true', Bool.eq_false_iff, ne_eq, List.isSuffixOf_iff_suffix] at hkept ⊢
    exact fun hsuffix => hkept (hsuffix.trans (List.suffix_cons name outer))

def erase (tree : FileTree) (location : Location) : FileTree :=
  if hdirectory : tree.node? location = some .directory then tree
  else tree.restrict (· != location) fun _ _ _ houter =>
    bne_iff_ne.mpr fun heq => hdirectory (heq ▸ houter)

/-- A node can be put where an entry is fit to be, but nothing else in place of a directory, in
which other entries may stand. -/
def Admits (tree : FileTree) (location : Location) (node : FileNode) : Prop :=
  tree.entries.IsFit location ∧ (tree.node? location = some .directory → node = .directory)

instance (tree : FileTree) (location : Location) (node : FileNode) :
    Decidable (tree.Admits location node) :=
  inferInstanceAs (Decidable (_ ∧ _))

theorem Admits.fit (h : tree.Admits location node) (entry : Location × FileNode)
    (hentry : entry ∈ tree.entries.put location node) :
    (tree.entries.put location node).IsFit entry.1 := by
  have hkeeps {outer : Location} (houter : tree.node? outer = some .directory) :
      (tree.entries.put location node).node? outer = some .directory := by
    by_cases heq : outer = location
    · subst heq
      rw [Entries.node?_put_self h.1.ne_nil, h.2 houter]
    · exact (Entries.node?_put_of_ne heq).trans houter
  have hfit : tree.entries.IsFit entry.1 := by
    cases List.mem_cons.mp hentry with
    | inl hown =>
      rw [hown]
      exact h.1
    | inr hother => exact tree.fit entry (List.mem_filter.mp hother).1
  obtain ⟨place, stands⟩ := entry
  cases place with
  | nil => exact hfit
  | cons name outer => exact ⟨hfit.1, hkeeps hfit.2⟩

def set (tree : FileTree) (location : Location) (node : FileNode) : FileTree :=
  if h : tree.Admits location node then
    { entries := tree.entries.put location node
      workingDirectory := tree.workingDirectory
      distinct := by
        refine List.nodup_cons.mpr ⟨?_, tree.distinct.sublist (List.filter_sublist.map _)⟩
        simp
      fit := h.fit }
  else tree

def names (tree : FileTree) (directory : Location) : List Bytes :=
  (tree.entries.filterMap fun (location, _) =>
    match location with
    | name :: outer => if outer = directory then some name else none
    | [] => none).mergeSort fun a b => decide (a ≤ b)

@[simp] theorem workingDirectory_set (tree : FileTree) (location : Location) (node : FileNode) :
    (tree.set location node).workingDirectory = tree.workingDirectory := by
  unfold set
  split <;> rfl

@[simp] theorem workingDirectory_erase (tree : FileTree) (location : Location) :
    (tree.erase location).workingDirectory = tree.workingDirectory := by
  unfold erase
  split <;> rfl

/-- Erasing one location changes no other. -/
theorem node?_erase_of_ne (tree : FileTree) (h : other ≠ location) :
    (tree.erase location).node? other = tree.node? other := by
  unfold erase
  split
  · rfl
  · exact Entries.node?_filter (· != location) (bne_iff_ne.mpr h)

theorem node?_erase_self (h : tree.node? location ≠ some .directory) :
    (tree.erase location).node? location = none := by
  have hlocation : location ≠ [] := by
    rintro rfl
    exact h rfl
  rw [erase, dif_neg h]
  simp [node?, Entries.node?, hlocation, restrict]

theorem node?_set_self (h : tree.Admits location node) :
    (tree.set location node).node? location = some node := by
  rw [set, dif_pos h]
  exact Entries.node?_put_self h.1.ne_nil

/-- Writing one location changes no other. -/
theorem node?_set_of_ne (tree : FileTree) (node : FileNode) (h : other ≠ location) :
    (tree.set location node).node? other = tree.node? other := by
  unfold set
  split
  · exact Entries.node?_put_of_ne h
  · rfl

end FileTree

end Sketchbook
