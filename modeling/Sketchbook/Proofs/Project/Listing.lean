import Mathlib.Data.List.Nodup
import Sketchbook.Proofs.FileTree.Leads
import Sketchbook.Proofs.Project.Members

/-! The members of a project are the files that stand directly in its directory or that links
there lead to. They are listed once each, by their names, and nothing but what stands in the file
tree decides the list. -/
namespace Sketchbook
open Text

namespace FileTree

variable {tree other : FileTree} {location root found : Location} {node : FileNode} {name : Bytes}

/-- Away from the root, what stands at a location is what the tree has an entry for. -/
theorem node?_eq_some_iff (hlocation : location ≠ []) :
    tree.node? location = some node ↔ (location, node) ∈ tree.entries := by
  rw [node?, Entries.node?, if_neg hlocation, Option.map_eq_some_iff]
  constructor
  · rintro ⟨entry, hfind, rfl⟩
    have hkey : entry.1 = location := by simpa using List.find?_some hfind
    exact hkey ▸ List.mem_of_find?_eq_some hfind
  · intro hentry
    cases hfind : tree.entries.find? (·.1 == location) with
    | none => exact absurd (List.find?_eq_none.mp hfind _ hentry) (by simp)
    | some entry =>
      have hkey : entry.1 = location := by simpa using List.find?_some hfind
      have hsame := List.inj_on_of_nodup_map tree.distinct
        (List.mem_of_find?_eq_some hfind) hentry hkey
      exact ⟨entry, rfl, congrArg Prod.snd hsame⟩

/-- The order in which a tree has its entries decides nothing about what stands where. -/
theorem sameNodes_of_perm (hentries : tree.entries.Perm other.entries)
    (hbase : other.workingDirectory = tree.workingDirectory) : SameNodes tree other where
  node? location := by
    by_cases hlocation : location = []
    · rw [hlocation]
      rfl
    · refine Option.ext fun node => ?_
      rw [node?_eq_some_iff hlocation, node?_eq_some_iff hlocation, hentries.mem_iff]
  base := hbase

/-- Where the path of an entry leads is told by a way from the directory of the entry. -/
theorem resolve_entry_iff (hroot : tree.node? root = some .directory) (hname : IsName name) :
    tree.resolve (pathOf (name :: root)) = .ok found ↔
      ∃ links, links ≤ linkLimit ∧ tree.Leads links root [.down name] found := by
  rw [resolve_entry hroot hname]
  cases hwalk : tree.walk linkLimit root [.down name] with
  | error fault =>
    simp only [Except.map, reduceCtorEq, false_iff, not_exists, not_and]
    intro links hlinks hleads
    have hreached := hleads.walk_eq (linkLimit - links)
    rw [Nat.add_sub_cancel' hlinks, hwalk] at hreached
    contradiction
  | ok reached =>
    obtain ⟨place, left⟩ := reached
    simp only [Except.map, Except.ok.injEq]
    constructor
    · rintro rfl
      obtain ⟨links, hlinks, hleads⟩ := walk_eq_ok_iff.mp hwalk
      exact ⟨links, by omega, hleads⟩
    · rintro ⟨links, hlinks, hleads⟩
      have hreached := hleads.walk_eq (linkLimit - links)
      rw [Nat.add_sub_cancel' hlinks, hwalk] at hreached
      cases hreached
      rfl

end FileTree

namespace Project
open FileTree

variable {tree other : FileTree} {path : Bytes} {name : Option String} {root : Location}
  {project : Project} {m : Member}

/-- What a directory has to offer as a member: a file under a name that is text, or a link under
such a name from which a way with few enough links leads to a file. A link is a member together
with the place where the file is. -/
inductive Offers (tree : FileTree) (root : Location) : Member → Prop where
  | plain {name : String} {content : Bytes}
      (hfile : tree.node? (encode name :: root) = some (.file content)) :
      Offers tree root ⟨name, pathOf (encode name :: root), none⟩
  | linked {name : String} {target content : Bytes} {found : Location} {links : Nat}
      (hlink : tree.node? (encode name :: root) = some (.link target))
      (hleads : tree.Leads links ((Route.ofPath target).start root)
        (Route.ofPath target).allSteps found)
      (hlinks : links < linkLimit) (hfile : tree.node? found = some (.file content)) :
      Offers tree root ⟨name, pathOf (encode name :: root), some (pathOf found)⟩

theorem Offers.exists_node (h : Offers tree root m) :
    ∃ node, tree.node? (encode m.name :: root) = some node := by
  cases h with
  | plain hfile => exact ⟨_, hfile⟩
  | linked hlink => exact ⟨_, hlink⟩

/-- An entry becomes a member if the directory offers it. -/
theorem member?_eq_some_iff_offers (hroot : tree.node? root = some .directory) {entry : Bytes}
    (hentry : tree.node? (entry :: root) ≠ none) :
    member? tree (pathOf root) root entry = some m ↔
      encode m.name = entry ∧ Offers tree root m := by
  obtain ⟨node, hnode⟩ := Option.ne_none_iff_exists'.mp hentry
  have hname := isName_of_node? hnode
  rw [member?_eq_some_iff, join_pathOf hname (isName_of_mem hroot)]
  obtain ⟨text, path, linkTarget⟩ := m
  dsimp only
  constructor
  · rintro ⟨rfl, rfl, hfile, rfl⟩
    refine ⟨rfl, ?_⟩
    obtain ⟨found, content, hresolve, hfound⟩ := isFile_iff.mp hfile
    obtain ⟨links, hlinks, hleads⟩ := (resolve_entry_iff hroot hname).mp hresolve
    cases hleads with
    | enter _ hplace hplain hrest =>
      cases hrest
      have htarget : linkTarget? tree (encode text :: root) (pathOf (encode text :: root)) =
          none := by simp [linkTarget?, hfound]
      rw [htarget]
      exact .plain hfound
    | follow _ hlink hrest =>
      have htarget : linkTarget? tree (encode text :: root) (pathOf (encode text :: root)) =
          some (pathOf found) := by
        simp [linkTarget?, hlink, canonical, hresolve, Except.map, Except.toOption]
      rw [htarget]
      rw [List.append_nil] at hrest
      exact .linked hlink hrest hlinks hfound
  · rintro ⟨rfl, hoffers⟩
    cases hoffers with
    | plain hfile =>
      have hresolve := (resolve_entry_iff hroot hname).mpr
        ⟨0, Nat.zero_le _, .enter hroot hfile (by simp) .here⟩
      exact ⟨rfl, rfl, isFile_iff.mpr ⟨_, _, hresolve, hfile⟩, by simp [linkTarget?, hfile]⟩
    | linked hlink hleads hlinks hfile =>
      have hresolve := (resolve_entry_iff hroot hname).mpr
        ⟨_, hlinks, .follow hroot hlink (by rwa [List.append_nil])⟩
      refine ⟨rfl, rfl, isFile_iff.mpr ⟨_, _, hresolve, hfile⟩, ?_⟩
      simp [linkTarget?, hlink, canonical, hresolve, Except.map, Except.toOption]

theorem mem_members_iff (hroot : tree.node? root = some .directory) :
    m ∈ (opened tree root name).members ↔ Offers tree root m := by
  have hnames : rootNames tree root = tree.names root := by simp [rootNames, hroot]
  simp only [opened, hnames, List.mem_filterMap, mem_names_iff]
  constructor
  · rintro ⟨entry, hentry, hmember⟩
    exact ((member?_eq_some_iff_offers hroot hentry).mp hmember).2
  · intro hoffers
    obtain ⟨node, hnode⟩ := hoffers.exists_node
    have hentry : tree.node? (encode m.name :: root) ≠ none := by simp [hnode]
    exact ⟨_, hentry, (member?_eq_some_iff_offers hroot hentry).mpr ⟨rfl, hoffers⟩⟩

/-- Names are listed in strictly ascending order. -/
theorem pairwise_lt_names (tree : FileTree) (root : Location) :
    (tree.names root).Pairwise (· < ·) :=
  ((pairwise_names tree root).and (nodup_names tree root)).imp fun hle =>
    Std.lt_of_le_of_ne hle.1 hle.2

theorem pairwise_lt_members (tree : FileTree) (root : Location) (name : Option String) :
    (opened tree root name).members.Pairwise fun a b => encode a.name < encode b.name := by
  have hnames : (rootNames tree root).Pairwise (· < ·) := by
    unfold rootNames
    split
    · exact pairwise_lt_names tree root
    · exact .nil
  refine List.Pairwise.filterMap _ ?_ hnames
  intro entry entry' hlt a ha b hb
  rwa [(member?_eq_some_iff.mp ha).1, (member?_eq_some_iff.mp hb).1]

/-- A directory is opened alike in trees where the same stands everywhere. -/
theorem opened_of_sameNodes (h : SameNodes tree other) (root : Location) (name : Option String) :
    opened other root name = opened tree root name := by
  have htarget (location : Location) (path : Bytes) :
      linkTarget? other location path = linkTarget? tree location path := by
    unfold linkTarget?
    rw [h.node?, h.canonical]
  have hmember (entry : Bytes) : member? other (pathOf root) root entry =
      member? tree (pathOf root) root entry := by
    refine Option.ext fun m => ?_
    rw [member?_eq_some_iff, member?_eq_some_iff, h.isFile, htarget]
  have hnames : rootNames other root = rootNames tree root := by
    unfold rootNames
    rw [h.node?, h.names]
  have hname : nameOfPath other (pathOf root) = nameOfPath tree (pathOf root) := by
    unfold nameOfPath
    rw [h.canonical]
  simp only [opened, hnames, hname, funext hmember]

/-- Opening a directory gives the files it offers and nothing else, once each in the ascending
order of their names, below the path without links that leads to the directory. In whatever order
the entries came to stand where they stand, the project is the same. -/
theorem openAt_directory (hresolve : tree.resolve path = .ok root)
    (hroot : tree.node? root = some .directory) (name : Option String) :
    ∃ project, openAt tree path name = .ok project ∧ project.root = pathOf root ∧
      (∀ m, m ∈ project.members ↔ Offers tree root m) ∧
      project.members.Pairwise (fun a b => encode a.name < encode b.name) ∧
      ∀ other, SameNodes tree other → openAt other path name = .ok project := by
  refine ⟨opened tree root name, openAt_eq_ok_iff.mpr ⟨root, hresolve, rfl⟩, rfl, fun m =>
    mem_members_iff hroot, pairwise_lt_members tree root name, fun other hsame => ?_⟩
  exact openAt_eq_ok_iff.mpr ⟨root, hsame.resolve hresolve, opened_of_sameNodes hsame root name⟩

def mixedEntries : Entries :=
  let p := encode "p"
  [([encode "x.txt"], .file []), ([p], .directory),
   ([encode "c.ino", p], .link (encode "a.ino")), ([encode "b.ino", p], .file []),
   ([encode "a.ino", p], .link (encode "../x.txt")), ([encode "d.ino", p], .directory),
   ([encode "e.ino", p], .link (encode "d.ino")), ([encode "f.ino", p], .link (encode "f.ino")),
   ([encode "g.ino", p], .link (encode "/gone.ino")), ([[255], p], .file [])]

def mixedTree : FileTree where
  entries := mixedEntries
  distinct := by decide +kernel
  fit := by decide +kernel

def reversedTree : FileTree where
  entries := mixedEntries.reverse
  distinct := by decide +kernel
  fit := by decide +kernel

def mixedProject : Project where
  name := "p"
  root := encode "/p"
  members :=
    [⟨"a.ino", encode "/p/a.ino", some (encode "/x.txt")⟩, ⟨"b.ino", encode "/p/b.ino", none⟩,
     ⟨"c.ino", encode "/p/c.ino", some (encode "/x.txt")⟩]

/-- The file and the two links that lead to a file are members, in either tree. -/
theorem openAt_directory_mixed :
    mixedTree.resolve (encode "/p") = .ok [encode "p"] ∧
    mixedTree.node? [encode "p"] = some .directory ∧
    (∃ project, openAt mixedTree (encode "/p") none = .ok project ∧
      project.root = pathOf [encode "p"] ∧
      (∀ m, m ∈ project.members ↔ Offers mixedTree [encode "p"] m) ∧
      project.members.Pairwise (fun a b => encode a.name < encode b.name) ∧
      ∀ other, SameNodes mixedTree other → openAt other (encode "/p") none = .ok project) ∧
    SameNodes mixedTree reversedTree ∧
    openAt mixedTree (encode "/p") none = .ok mixedProject ∧
    openAt reversedTree (encode "/p") none = .ok mixedProject := by
  have hresolve : mixedTree.resolve (encode "/p") = .ok [encode "p"] := by decide +kernel
  have hroot : mixedTree.node? [encode "p"] = some .directory := by decide +kernel
  have hsame : SameNodes mixedTree reversedTree :=
    sameNodes_of_perm (List.reverse_perm mixedEntries).symm rfl
  have hnames : mixedTree.names [encode "p"] =
      [encode "a.ino", encode "b.ino", encode "c.ino", encode "d.ino", encode "e.ino",
        encode "f.ino", encode "g.ino", [255]] :=
    names_eq (by decide +kernel) (by decide +kernel)
  have hmixed : openAt mixedTree (encode "/p") none = .ok mixedProject := by
    rw [openAt_of_names hresolve hroot hnames]
    decide +kernel
  have hreversed : openAt reversedTree (encode "/p") none = .ok mixedProject := by
    obtain ⟨project, hproject, -, -, -, hother⟩ := openAt_directory hresolve hroot none
    cases hmixed.symm.trans hproject
    exact hother _ hsame
  exact ⟨hresolve, hroot, openAt_directory hresolve hroot none, hsame, hmixed,
    hreversed⟩

end Project

end Sketchbook
