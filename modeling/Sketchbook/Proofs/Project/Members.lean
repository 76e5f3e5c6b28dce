import Sketchbook.Proofs.FileTree.Names
import Sketchbook.Proofs.FileTree.Entry
import Sketchbook.Proofs.Project.Indexed

/-! The members of an opened project. Each has a name of its own and stands for a file of the
root, so what is known under the name of a member comes from this member alone. -/
namespace Sketchbook
open Text

def extensionOf (name : String) : Option String := (Path.extension? name.toList).map String.ofList

theorem Member.sketch?_eq_some_iff {project : String} {settings : Settings} {m : Member}
    {sketch : Sketch} : m.sketch? project settings = some sketch ↔
      ∃ extension, extensionOf m.name = some extension ∧
        settings.isSketchExtension extension = true ∧
        sketch = ⟨m.name, m.name == project ++ "." ++ extension, m.linkTarget⟩ := by
  have hextension : m.extension? = extensionOf m.name := rfl
  unfold Member.sketch?
  rw [hextension]
  cases extensionOf m.name with
  | none => simp
  | some extension =>
    by_cases hsketch : settings.isSketchExtension extension = true
    · simp only [hsketch, if_true, Option.some.injEq, exists_eq_left', true_and]
      exact eq_comm
    · simp [hsketch]

namespace Project

variable {tree indexed : FileTree} {path : Bytes} {name : Option String} {project : Project}
  {settings : Settings} {m : Member} {sketch : Sketch}

def filePath (project : Project) (name : String) : Bytes := Path.join project.root (encode name)

def opened (tree : FileTree) (location : Location) (name : Option String) : Project where
  name := name.getD (nameOfPath tree (FileTree.pathOf location))
  root := FileTree.pathOf location
  members := (rootNames tree location).filterMap
    (member? tree (FileTree.pathOf location) location)

theorem openAt_eq_ok_iff : openAt tree path name = .ok project ↔
    ∃ location, tree.resolve path = .ok location ∧ opened tree location name = project := by
  unfold openAt
  cases tree.resolve path with
  | error fault => simp [onPath, Except.mapError, bind, Except.bind]
  | ok location => simp [onPath, Except.mapError, bind, Except.bind, opened]

theorem openAt_of_resolve {location : Location} (hresolve : tree.resolve path = .ok location)
    (name : Option String) : openAt tree path name = .ok (opened tree location name) :=
  openAt_eq_ok_iff.mpr ⟨location, hresolve, rfl⟩

theorem openAt_of_names {location : Location} {names : List Bytes}
    (hresolve : tree.resolve path = .ok location)
    (hdirectory : tree.node? location = some .directory) (hnames : tree.names location = names)
    (name : Option String) : openAt tree path name =
      .ok { name := name.getD (nameOfPath tree (FileTree.pathOf location))
            root := FileTree.pathOf location
            members := names.filterMap (member? tree (FileTree.pathOf location) location) } := by
  rw [openAt_of_resolve hresolve, opened, rootNames, hdirectory, ← hnames]

def linkTarget? (tree : FileTree) (location : Location) (path : Bytes) : Option Bytes :=
  match tree.node? location with
  | some (.link _) => (tree.canonical path).toOption
  | _ => none

theorem member?_eq_some_iff {root entry : Bytes} {location : Location} :
    member? tree root location entry = some m ↔
      encode m.name = entry ∧ m.path = Path.join root entry ∧ tree.isFile m.path = true ∧
        m.linkTarget = linkTarget? tree (entry :: location) m.path := by
  have hmember : member? tree root location entry = (decode? entry).bind fun text =>
      if tree.isFile (Path.join root entry) then
        some ⟨text, Path.join root entry,
          linkTarget? tree (entry :: location) (Path.join root entry)⟩
      else none := by
    unfold member? linkTarget?
    cases decode? entry with
    | none => rfl
    | some text =>
      cases tree.node? (entry :: location) with
      | none => rfl
      | some node => cases node <;> rfl
  rw [hmember, Option.bind_eq_some_iff]
  constructor
  · rintro ⟨text, htext, hm⟩
    split at hm
    · next hfile =>
      cases hm
      exact ⟨encode_of_decode? htext, rfl, hfile, rfl⟩
    · contradiction
  · rintro ⟨rfl, hpath, hfile, hlink⟩
    rw [hpath] at hfile hlink
    refine ⟨m.name, decode?_encode m.name, ?_⟩
    rw [if_pos hfile, ← hlink, ← hpath]

/-- A member has the path of a file in the root. -/
theorem isFile_of_mem (hopen : openAt tree path name = .ok project) (hm : m ∈ project.members) :
    m.path = project.filePath m.name ∧ tree.isFile m.path = true := by
  obtain ⟨location, -, rfl⟩ := openAt_eq_ok_iff.mp hopen
  obtain ⟨entry, -, hentry⟩ := List.mem_filterMap.mp hm
  obtain ⟨hname, hpath, hfile, -⟩ := member?_eq_some_iff.mp hentry
  exact ⟨by rw [hpath, filePath, hname]; rfl, hfile⟩

theorem nodup_rootNames (tree : FileTree) (location : Location) :
    (rootNames tree location).Nodup := by
  unfold rootNames
  split
  · exact FileTree.nodup_names tree location
  · exact List.nodup_nil

/-- No two members have the same name. -/
theorem nodup_members (hopen : openAt tree path name = .ok project) :
    (project.members.map (·.name)).Nodup := by
  obtain ⟨location, -, rfl⟩ := openAt_eq_ok_iff.mp hopen
  rw [List.Nodup, List.pairwise_map]
  refine List.Pairwise.filterMap _ ?_ (nodup_rootNames tree location)
  intro entry entry' hne m hm m' hm' hsame
  rw [← (member?_eq_some_iff.mp hm).1, ← (member?_eq_some_iff.mp hm').1] at hne
  exact hne (congrArg encode hsame)

def entriesOf (value? : Member → Option SourceUnit) (members : List Member) :
    List (String × SourceUnit) :=
  members.filterMap fun m => (value? m).map (m.name, ·)

theorem lookup_entriesOf_eq_none {value? : Member → Option SourceUnit} {members : List Member}
    {file : String} (h : ∀ m ∈ members, m.name ≠ file) :
    (entriesOf value? members).reverse.lookup file = none := by
  refine List.lookup_eq_none_iff.mpr fun entry hentry => ?_
  obtain ⟨m, hm, hvalue⟩ := List.mem_filterMap.mp (List.mem_reverse.mp hentry)
  obtain ⟨unit, -, rfl⟩ := Option.map_eq_some_iff.mp hvalue
  simpa using (h m hm).symm

theorem lookup_entriesOf_cons (value? : Member → Option SourceUnit) (first : Member)
    (rest : List Member) (file : String) :
    (entriesOf value? (first :: rest)).reverse.lookup file =
      ((entriesOf value? rest).reverse.lookup file).or
        (if file = first.name then value? first else none) := by
  have hcut : (entriesOf value? (first :: rest)).reverse =
      (entriesOf value? rest).reverse ++ ((value? first).map (first.name, ·)).toList := by
    rw [entriesOf, List.filterMap_cons]
    cases value? first <;> simp [entriesOf]
  rw [hcut, List.lookup_append]
  cases value? first with
  | none => simp
  | some unit =>
    by_cases hfile : file = first.name
    · simp [hfile]
    · simp [List.lookup_cons, beq_eq_false_iff_ne.mpr hfile, hfile]

/-- Under the name of a member stands what this member gives, where no other has its name. -/
theorem lookup_entriesOf {value? : Member → Option SourceUnit} {members : List Member}
    (hnodup : (members.map (·.name)).Nodup) (hm : m ∈ members) :
    (entriesOf value? members).reverse.lookup m.name = value? m := by
  induction members with
  | nil => contradiction
  | cons first rest ih =>
    obtain ⟨hfirst, hrest⟩ := List.nodup_cons.mp hnodup
    have hne (other : Member) (hother : other ∈ rest) : other.name ≠ first.name :=
      fun hsame => hfirst (List.mem_map.mpr ⟨other, hother, hsame⟩)
    rw [lookup_entriesOf_cons]
    cases List.mem_cons.mp hm with
    | inl hown =>
      subst hown
      rw [lookup_entriesOf_eq_none hne]
      simp
    | inr hother =>
      rw [ih hrest hother, if_neg (hne m hother)]
      simp

/-- The index has under the name of a member what became of this member. -/
theorem resolve_buildIndex_of_mem (hopen : openAt tree path name = .ok project)
    (hm : m ∈ project.members) (indexed : FileTree) (parse : String → SyntaxTree)
    (sourceExtensions : List String) :
    (project.buildIndex indexed parse sourceExtensions).resolve m.name =
      (indexMember indexed parse sourceExtensions m).unit? := by
  rw [resolve_buildIndex]
  exact lookup_entriesOf (nodup_members hopen) hm

/-- A sketch is a member with one of the extensions that mark sketches. -/
theorem mem_sketches_iff : sketch ∈ project.sketches settings ↔
    ∃ m ∈ project.members, m.sketch? project.name settings = some sketch :=
  List.mem_filterMap

/-- The path of a sketch leads to a file. -/
theorem exists_resolve_sketch (hopen : openAt tree path name = .ok project)
    (hsketch : sketch ∈ project.sketches settings) : ∃ location content,
      tree.resolve (project.filePath sketch.name) = .ok location ∧
        tree.node? location = some (.file content) := by
  obtain ⟨m, hm, hmade⟩ := mem_sketches_iff.mp hsketch
  obtain ⟨extension, -, -, rfl⟩ := Member.sketch?_eq_some_iff.mp hmade
  obtain ⟨hpath, hfile⟩ := isFile_of_mem hopen hm
  exact FileTree.isFile_iff.mp (hpath ▸ hfile)

theorem openAt_blink : openAt blinkTree [47] (some "Blink") = .ok blink := by
  have hnames : blinkTree.names [] = [encode "Blink.ino"] :=
    FileTree.names_eq (by decide +kernel) (by decide +kernel)
  rw [openAt_of_names (by decide +kernel) rfl hnames]
  decide +kernel

def twinTree : FileTree where
  entries := [([encode "Blink.ino"], .file []), ([encode "Blink.pde"], .file [])]
  distinct := by decide +kernel
  fit := by decide +kernel

def twins : Project where
  name := "Blink"
  root := [47]
  members := [⟨"Blink.ino", encode "/Blink.ino", none⟩, ⟨"Blink.pde", encode "/Blink.pde", none⟩]

theorem openAt_twins : openAt twinTree [47] (some "Blink") = .ok twins := by
  have hnames : twinTree.names [] = [encode "Blink.ino", encode "Blink.pde"] :=
    FileTree.names_eq (by decide +kernel) (by decide +kernel)
  rw [openAt_of_names (by decide +kernel) rfl hnames]
  decide +kernel

end Project

end Sketchbook
