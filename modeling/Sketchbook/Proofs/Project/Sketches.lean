import Mathlib.Data.List.Basic
import Sketchbook.Proofs.Project.Members
import Sketchbook.Proofs.Text.Lines

/-! Which members of a project are sketches, told by how their names are spelled. A name has one
extension at most, what follows its last dot, if something stands before that dot. -/
namespace Sketchbook
open Text

namespace Path

section
variable {α : Type} [DecidableEq α] {x : α} {cs before after : List α}

theorem splitLast_eq_none (h : x ∉ cs) : splitLast x cs = none := by
  induction cs with
  | nil => rfl
  | cons c rest ih =>
    have hc : c ≠ x := (List.ne_of_not_mem_cons h).symm
    rw [splitLast, ih (List.not_mem_of_not_mem_cons h)]
    exact if_neg hc

theorem splitLast_append (before : List α) (h : x ∉ after) :
    splitLast x (before ++ x :: after) = some (before, after) := by
  induction before with
  | nil => simp [splitLast, splitLast_eq_none h]
  | cons c before ih => rw [List.cons_append, splitLast, ih]

/-- The cut is made so that no `x` stands behind it. -/
theorem splitLast_eq_some_iff :
    splitLast x cs = some (before, after) ↔ cs = before ++ x :: after ∧ x ∉ after := by
  constructor
  · intro h
    by_cases hmem : x ∈ cs
    · obtain ⟨behind, front, hcs, hbehind⟩ :=
        List.eq_append_cons_of_mem (List.mem_reverse.mpr hmem)
      have hsplit : cs = front.reverse ++ x :: behind.reverse := by
        simpa using congrArg List.reverse hcs
      rw [hsplit, splitLast_append _ (by simpa using hbehind)] at h
      cases h
      exact ⟨hsplit, by simpa using hbehind⟩
    · rw [splitLast_eq_none hmem] at h
      contradiction
  · intro h
    obtain ⟨rfl, hafter⟩ := h
    exact splitLast_append before hafter

theorem eq_of_append_cons_eq {before' after' : List α} (hafter : x ∉ after) (hafter' : x ∉ after')
    (h : before ++ x :: after = before' ++ x :: after') : after = after' := by
  have hsplit := splitLast_append before' hafter'
  rw [← h, splitLast_append before hafter] at hsplit
  cases hsplit
  rfl

end

theorem extensionOfName_eq_some_iff {name extension : List Char} :
    extensionOfName name = some extension ↔
      '.' ∉ extension ∧ ∃ stem, stem ≠ [] ∧ name = stem ++ '.' :: extension := by
  have hcut (stem : List Char) := @splitLast_eq_some_iff _ _ '.' name stem extension
  unfold extensionOfName
  constructor
  · intro h
    split at h
    · next stem after hsplit =>
      split at h
      · contradiction
      · next hstem =>
        cases h
        obtain ⟨hname, hafter⟩ := (hcut stem).mp hsplit
        exact ⟨hafter, stem, hstem, hname⟩
    · contradiction
  · intro h
    obtain ⟨hextension, stem, hstem, hname⟩ := h
    have hsplit : splitLast PathSigns.dot name = some (stem, extension) :=
      (hcut stem).mpr ⟨hname, hextension⟩
    rw [hsplit]
    exact if_neg hstem

end Path

structure IsEntryName (name : String) : Prop where
  ne_empty : name ≠ ""
  ne_dot : name ≠ "."
  ne_dots : name ≠ ".."
  separator : '/' ∉ name.toList

def HasExtension (extension name : String) : Prop :=
  '.' ∉ extension.toList ∧ ∃ stem, stem ≠ "" ∧ name = stem ++ "." ++ extension

def Settings.Marks (settings : Settings) (name : String) : Prop :=
  ∃ extension ∈ settings.sketchExtensions, HasExtension extension name

def Settings.MarksPrimary (settings : Settings) (project name : String) : Prop :=
  ∃ extension ∈ settings.sketchExtensions, '.' ∉ extension.toList ∧
    name = project ++ "." ++ extension

variable {name extension project : String} {settings : Settings}

theorem hasExtension_iff : HasExtension extension name ↔
    '.' ∉ extension.toList ∧ ∃ stem, stem ≠ [] ∧ name.toList = stem ++ '.' :: extension.toList := by
  have hspell (stem : String) : name = stem ++ "." ++ extension ↔
      name.toList = stem.toList ++ '.' :: extension.toList := by
    rw [← String.toList_inj]
    simp
  refine and_congr_right fun _ => ?_
  constructor
  · intro h
    obtain ⟨stem, hne, hname⟩ := h
    exact ⟨stem.toList, by simpa using hne, (hspell stem).mp hname⟩
  · intro h
    obtain ⟨stem, hne, hname⟩ := h
    refine ⟨String.ofList stem, by simpa using hne, (hspell _).mpr (by simpa using hname)⟩

/-- The name behind its first character ends in a dot and the extension. -/
theorem hasExtension_iff_isSuffixOf : HasExtension extension name ↔
    '.' ∉ extension.toList ∧ ('.' :: extension.toList) <:+ name.toList.tail := by
  rw [hasExtension_iff]
  refine and_congr_right fun _ => ?_
  constructor
  · intro h
    obtain ⟨stem, hne, hname⟩ := h
    cases stem with
    | nil => contradiction
    | cons c stem => exact ⟨stem, by simp [hname]⟩
  · intro h
    obtain ⟨stem, hstem⟩ := h
    cases hname : name.toList with
    | nil => simp [hname] at hstem
    | cons c rest =>
      refine ⟨c :: stem, by simp, ?_⟩
      rw [hname, List.tail_cons] at hstem
      rw [← hstem]
      rfl

instance : Decidable (HasExtension extension name) :=
  decidable_of_iff _ hasExtension_iff_isSuffixOf.symm

instance (name : String) : Decidable (settings.Marks name) :=
  inferInstanceAs (Decidable (∃ extension ∈ settings.sketchExtensions, _))

instance (project name : String) : Decidable (settings.MarksPrimary project name) :=
  inferInstanceAs (Decidable (∃ extension ∈ settings.sketchExtensions, _))

theorem IsEntryName.fileName? (h : IsEntryName name) :
    Path.fileName? name.toList = some name.toList := by
  have hsign : PathSigns.separator ∉ name.toList := h.separator
  have hnil : name.toList ≠ [] := by simpa using h.ne_empty
  have hdot : name.toList ≠ ['.'] := fun heq => h.ne_dot (String.toList_inj.mp heq)
  have hdots : name.toList ≠ ['.', '.'] := fun heq => h.ne_dots (String.toList_inj.mp heq)
  have hidle : Path.isIdle name.toList = false := by
    rw [Path.isIdle, Bool.or_eq_false_iff]
    exact ⟨beq_eq_false_iff_ne.mpr hnil, beq_eq_false_iff_ne.mpr hdot⟩
  unfold Path.fileName?
  rw [Path.pieces_of_not_mem hsign, List.filter_cons_of_pos (by simp [hidle])]
  exact if_neg hdots

/-- What follows the last dot of a listed name is its only extension. -/
theorem IsEntryName.extensionOf_eq_some_iff (h : IsEntryName name) :
    extensionOf name = some extension ↔ HasExtension extension name := by
  rw [extensionOf, Path.extension?, h.fileName?, Option.bind_some, Option.map_eq_some_iff,
    hasExtension_iff, ← Path.extensionOfName_eq_some_iff]
  constructor
  · intro h
    obtain ⟨cs, hcs, rfl⟩ := h
    rwa [String.toList_ofList]
  · exact fun h => ⟨extension.toList, h, String.ofList_toList⟩

theorem HasExtension.eq_of_append {other : String} (h : HasExtension extension name)
    (hother : '.' ∉ other.toList) (hname : name = project ++ "." ++ other) :
    other = extension := by
  obtain ⟨hextension, stem, -, rfl⟩ := h
  have hspell : project.toList ++ '.' :: other.toList =
      stem.toList ++ '.' :: extension.toList := by
    simpa using congrArg String.toList hname.symm
  exact String.toList_inj.mp (Path.eq_of_append_cons_eq hother hextension hspell)

/-- A member with a listed name is a sketch exactly if its name has an extension of sketches, and
then it is primary exactly if the name is made of that of the project. -/
theorem Member.sketch?_eq_ite {m : Member} (h : IsEntryName m.name) (project : String)
    (settings : Settings) : m.sketch? project settings =
      if settings.Marks m.name then
        some ⟨m.name, decide (settings.MarksPrimary project m.name), m.linkTarget⟩
      else none := by
  split
  · next hmarks =>
    obtain ⟨extension, hmem, hextension⟩ := hmarks
    have hprimary : settings.MarksPrimary project m.name ↔
        m.name = project ++ "." ++ extension := by
      constructor
      · intro hprimary
        obtain ⟨other, -, hdot, hname⟩ := hprimary
        rw [hname, hextension.eq_of_append hdot hname]
      · exact fun hname => ⟨extension, hmem, hextension.1, hname⟩
    refine Member.sketch?_eq_some_iff.mpr ⟨extension, h.extensionOf_eq_some_iff.mpr hextension,
      List.contains_iff_mem.mpr hmem, ?_⟩
    rw [Sketch.mk.injEq]
    refine ⟨rfl, ?_, rfl⟩
    rw [decide_eq_decide.mpr hprimary]
    rfl
  · next hmarks =>
    refine Option.eq_none_iff_forall_ne_some.mpr fun sketch hsketch => hmarks ?_
    obtain ⟨extension, hextension, hmem, -⟩ := Member.sketch?_eq_some_iff.mp hsketch
    exact ⟨extension, List.contains_iff_mem.mp hmem, h.extensionOf_eq_some_iff.mp hextension⟩

theorem filterMap_eq_map_filter {members : List Member} {f : Member → Option Sketch}
    {p : Member → Prop} [DecidablePred p] {g : Member → Sketch}
    (h : ∀ m ∈ members, f m = if p m then some (g m) else none) :
    members.filterMap f = (members.filter p).map g := by
  rw [← List.filterMap_eq_map, List.filterMap_filter]
  refine List.filterMap_congr fun m hm => ?_
  simp [h m hm]

/-- Of members with listed names those with an extension of sketches are kept, in their order and
with their names and link targets, and a kept one is primary exactly if its name is that of the
project with such an extension. -/
theorem sketchesAmong_eq_map_filter (project : String) (members : List Member)
    (settings : Settings) (hnames : ∀ m ∈ members, IsEntryName m.name) :
    sketchesAmong project members settings =
      (members.filter (settings.Marks ·.name)).map fun m =>
        ⟨m.name, decide (settings.MarksPrimary project m.name), m.linkTarget⟩ :=
  filterMap_eq_map_filter fun m hm => Member.sketch?_eq_ite (hnames m hm) project settings

def dottedMembers : List Member :=
  [⟨".ino", [], none⟩, ⟨"a.b.ino", [], some (encode "/c")⟩, ⟨"x.", [], none⟩,
    ⟨"Blink.tar.gz", [], none⟩, ⟨"Blink.ino", [], none⟩]

theorem sketchesAmong_dottedMembers : (∀ m ∈ dottedMembers, IsEntryName m.name) ∧
    sketchesAmong "Blink" dottedMembers { sketchExtensions := ["", "ino", "tar.gz"] } =
      [⟨"a.b.ino", false, some (encode "/c")⟩, ⟨"x.", false, none⟩, ⟨"Blink.ino", true, none⟩] := by
  have hparts : ∀ m ∈ dottedMembers,
      m.name ≠ "" ∧ m.name ≠ "." ∧ m.name ≠ ".." ∧ '/' ∉ m.name.toList := by decide +kernel
  have hnames : ∀ m ∈ dottedMembers, IsEntryName m.name := by
    intro m hm
    obtain ⟨hempty, hdot, hdots, hsign⟩ := hparts m hm
    exact ⟨hempty, hdot, hdots, hsign⟩
  refine ⟨hnames, ?_⟩
  rw [sketchesAmong_eq_map_filter _ _ _ hnames]
  decide +kernel

namespace Project

variable {tree : FileTree} {path : Bytes} {given : Option String} {opened : Project} {m : Member}

/-- The members of a project on a disk have listed names. -/
theorem isEntryName_of_mem (hopen : openAt tree path given = .ok opened)
    (hm : m ∈ opened.members) : IsEntryName m.name := by
  obtain ⟨location, -, rfl⟩ := openAt_eq_ok_iff.mp hopen
  obtain ⟨entry, hentry, hmember⟩ := List.mem_filterMap.mp hm
  obtain ⟨rfl, -, -, -⟩ := member?_eq_some_iff.mp hmember
  have hname : IsName (encode m.name) := by
    unfold rootNames at hentry
    split at hentry
    · obtain ⟨node, hnode⟩ := Option.ne_none_iff_exists'.mp (FileTree.mem_names_iff.mp hentry)
      exact FileTree.isName_of_node? hnode
    · contradiction
  constructor
  · exact fun heq => hname.ne_nil (by rw [heq]; rfl)
  · exact fun heq => hname.ne_dot (by rw [heq]; rfl)
  · exact fun heq => hname.ne_dots (by rw [heq]; rfl)
  · exact not_mem_toList rfl hname.separator

/-- The sketches of a project on a disk, by the names of its members. -/
theorem sketches_eq_map_filter (hopen : openAt tree path given = .ok opened) (settings : Settings) :
    opened.sketches settings =
      (opened.members.filter (settings.Marks ·.name)).map fun m =>
        ⟨m.name, decide (settings.MarksPrimary opened.name m.name), m.linkTarget⟩ :=
  filterMap_eq_map_filter fun _ hm =>
    Member.sketch?_eq_ite (isEntryName_of_mem hopen hm) opened.name settings

end Project

end Sketchbook
