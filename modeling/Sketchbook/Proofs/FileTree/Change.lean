import Sketchbook.FileTree.Change

/-! What a path leads to after a file has been written or an entry removed. On its way a path
meets only directories and links, so a change of a file leaves every other way as it was. -/
namespace Sketchbook
open Text

theorem Path.separator_not_mem {path piece : Bytes} (h : piece ∈ pieces path) : 47 ∉ piece := by
  induction path generalizing piece with
  | nil => simp_all [pieces]
  | cons c rest ih =>
    rw [pieces] at h
    split at h
    · cases List.mem_cons.mp h with
      | inl hempty => simp [hempty]
      | inr hmore => exact ih hmore
    · next hsign =>
      have hc : 47 ≠ c := Ne.symm hsign
      split at h
      · simpa [List.mem_singleton.mp h] using hc
      · next first more hpieces =>
        cases List.mem_cons.mp h with
        | inl hfirst =>
          rw [hfirst, List.mem_cons, not_or]
          exact ⟨hc, ih (hpieces ▸ List.mem_cons_self)⟩
        | inr hmore => exact ih (hpieces ▸ List.mem_cons_of_mem _ hmore)

/-- A path goes down under proper names only. -/
theorem Route.isName_of_down_mem {path name : Bytes}
    (h : .down name ∈ (Route.ofPath path).steps) : IsName name := by
  obtain ⟨piece, hpiece, hstep⟩ := List.mem_map.mp h
  obtain ⟨hmem, hne⟩ := List.mem_filter.mp hpiece
  rw [Route.step] at hstep
  split at hstep
  · contradiction
  · next hdot =>
    split at hstep
    · contradiction
    · next hdots =>
      cases hstep
      exact ⟨by simpa using hne, hdot, hdots, Path.separator_not_mem hmem⟩

theorem Route.allSteps_eq {route : Route} {name : Bytes}
    (hlast : route.steps.getLast? = some (.down name)) (hslash : route.slash = false) :
    route.allSteps = route.steps.dropLast ++ [.down name] := by
  obtain ⟨before, hbefore⟩ := List.getLast?_eq_some_iff.mp hlast
  rw [Route.allSteps, hslash, hbefore, List.dropLast_concat]
  rfl

namespace FileTree

variable {tree changed : FileTree} {links left : Nat} {location found : Location}
  {steps : List PathStep} {path content : Bytes}

theorem walk_append (tree : FileTree) (links : Nat) (location : Location)
    (steps more : List PathStep) :
    tree.walk links location (steps ++ more) =
      (tree.walk links location steps).bind fun (found, left) => tree.walk left found more := by
  induction links, location, steps using tree.walk_induction with
  | here links location => simp [Except.bind]
  | stuck links location next fault hstuck rest =>
    rw [List.cons_append, hstuck, hstuck]
    rfl
  | stay links location rest hdirectory ih =>
    rw [List.cons_append, walk_stay hdirectory, walk_stay hdirectory]
    exact ih
  | up links location rest hdirectory ih =>
    rw [List.cons_append, walk_up hdirectory, walk_up hdirectory]
    exact ih
  | enter links location rest name node hdirectory hnode hplain ih =>
    rw [List.cons_append, walk_enter hdirectory hnode hplain, walk_enter hdirectory hnode hplain]
    exact ih
  | follow links location rest name target hdirectory hlink ih =>
    rw [List.cons_append, walk_follow hdirectory hlink, walk_follow hdirectory hlink,
      ← List.append_assoc]
    exact ih

def Keeps (tree changed : FileTree) : Prop :=
  ∀ location node, tree.node? location = some node → (∀ content, node ≠ .file content) →
    changed.node? location = some node

/-- A way depends on the directories and links that it goes through, and on a file only if it
ends there. -/
theorem Keeps.walk (hkeeps : Keeps tree changed)
    (hend : ∀ content, tree.node? found = some (.file content) →
      ∃ content, changed.node? found = some (.file content))
    (hwalk : tree.walk links location steps = .ok (found, left)) :
    changed.walk links location steps = .ok (found, left) := by
  have hdirectory {location : Location} (h : tree.node? location = some .directory) :
      changed.node? location = some .directory := hkeeps _ _ h (by simp)
  induction links, location, steps using tree.walk_induction with
  | here links location => rwa [walk_nil] at hwalk ⊢
  | stuck links location next fault hstuck rest => cases (hstuck rest).symm.trans hwalk
  | stay links location rest h ih =>
    rw [walk_stay h] at hwalk
    rw [walk_stay (hdirectory h)]
    exact ih hwalk
  | up links location rest h ih =>
    rw [walk_up h] at hwalk
    rw [walk_up (hdirectory h)]
    exact ih hwalk
  | enter links location rest name node h hnode hplain ih =>
    rw [walk_enter h hnode hplain] at hwalk
    obtain ⟨kept, hkept, hplain'⟩ : ∃ kept, changed.node? (name :: location) = some kept ∧
        ∀ target, kept ≠ .link target := by
      cases node with
      | directory => exact ⟨.directory, hdirectory hnode, hplain⟩
      | link target => exact absurd rfl (hplain target)
      | file content =>
        -- nothing goes on behind a file, so the way ends here
        cases rest with
        | nil =>
          rw [walk_nil] at hwalk
          cases hwalk
          obtain ⟨content, hfile⟩ := hend content hnode
          exact ⟨.file content, hfile, by simp⟩
        | cons next rest => simp [walk_cons, hnode] at hwalk
    rw [walk_enter (hdirectory h) hkept hplain']
    exact ih hwalk
  | follow links location rest name target h hlink ih =>
    rw [walk_follow h hlink] at hwalk
    rw [walk_follow (hdirectory h) (hkeeps _ _ hlink (by simp))]
    exact ih hwalk

/-- A way to a directory does not depend on the files. -/
theorem Keeps.walk_directory (hkeeps : Keeps tree changed)
    (hwalk : tree.walk links location steps = .ok (found, left))
    (hfound : tree.node? found = some .directory) :
    changed.walk links location steps = .ok (found, left) :=
  hkeeps.walk (by simp [hfound]) hwalk

/-- A place for an entry that is free or taken by a file. -/
def HasRoom (tree : FileTree) (location : Location) : Prop :=
  tree.entries.IsFit location ∧
    ∀ node, tree.node? location = some node → ∃ content, node = .file content

theorem hasRoom_of_free (hfit : tree.entries.IsFit location) (hfree : tree.node? location = none) :
    tree.HasRoom location :=
  ⟨hfit, by simp [hfree]⟩

theorem hasRoom_of_file (hfit : tree.entries.IsFit location)
    (hfile : tree.node? location = some (.file content)) : tree.HasRoom location :=
  ⟨hfit, by simp [hfile]⟩

theorem HasRoom.not_directory (h : tree.HasRoom location) :
    tree.node? location ≠ some .directory := by
  intro hdirectory
  obtain ⟨content, hfile⟩ := h.2 _ hdirectory
  contradiction

theorem HasRoom.admits (h : tree.HasRoom location) (content : Bytes) :
    tree.Admits location (.file content) :=
  ⟨h.1, fun hdirectory => absurd hdirectory h.not_directory⟩

theorem HasRoom.keeps_set (h : tree.HasRoom location) (content : Bytes) :
    Keeps tree (tree.set location (.file content)) := by
  intro other node hnode hother
  have hne : other ≠ location := by
    intro heq
    obtain ⟨old, hold⟩ := h.2 node (heq ▸ hnode)
    exact hother old hold
  rw [node?_set_of_ne tree _ hne]
  exact hnode

theorem approach_directory {base : Location} {route : Route}
    (h : tree.approach links base route = .ok (found, left)) :
    tree.walk links (route.start base) route.steps.dropLast = .ok (found, left) ∧
      tree.node? found = some .directory := by
  unfold approach at h
  cases hwalk : tree.walk links (route.start base) route.steps.dropLast with
  | error fault => simp [hwalk, bind, Except.bind] at h
  | ok reached =>
    simp only [hwalk, bind, Except.bind] at h
    split at h
    · next hdirectory =>
      cases h
      exact ⟨rfl, hdirectory⟩
    all_goals contradiction

theorem approach_of_walk {base : Location} {route : Route}
    (hwalk : tree.walk links (route.start base) route.steps.dropLast = .ok (found, left))
    (hdirectory : tree.node? found = some .directory) :
    tree.approach links base route = .ok (found, left) := by
  simp only [approach, hwalk, bind, Except.bind, hdirectory]

/-- Where a path is written once the directory of its last step is reached. -/
theorem writePlace_of_approach {base : Location} {route : Route} {name : Bytes}
    (happroach : tree.approach links base route = .ok (found, left))
    (hlast : route.steps.getLast? = some (.down name)) (hslash : route.slash = false) :
    tree.writePlace links base route = match tree.node? (name :: found) with
      | none => .ok (name :: found)
      | some (.file _) => .ok (name :: found)
      | some .directory => .error .isDirectory
      | some (.link target) =>
        match left with
        | 0 => .error .linkLoop
        | left + 1 => tree.writePlace left found (Route.ofPath target) := by
  rw [writePlace.eq_def]
  split
  · next h =>
    rw [happroach] at h
    contradiction
  · next h =>
    rw [happroach] at h
    cases h
    simp only [hlast, hslash, Bool.false_eq_true, if_false]
    cases hnode : tree.node? (name :: found) with
    | none => rfl
    | some node =>
      cases node with
      | file content => rfl
      | directory => rfl
      | link target => cases left <;> rfl

/-- The last step of a way to an entry of a directory. -/
theorem Keeps.walk_entry (hkeeps : Keeps tree changed) {base : Location} {route : Route}
    {name : Bytes} (happroach : tree.approach links base route = .ok (found, left))
    (hlast : route.steps.getLast? = some (.down name)) (hslash : route.slash = false) :
    changed.walk links (route.start base) route.allSteps =
      changed.walk left found [.down name] := by
  obtain ⟨hwalk, hdirectory⟩ := approach_directory happroach
  rw [Route.allSteps_eq hlast hslash, walk_append, hkeeps.walk_directory hwalk hdirectory]
  rfl

theorem Keeps.walk_file (hkeeps : Keeps tree changed) {base : Location} {route : Route}
    {name : Bytes} (happroach : tree.approach links base route = .ok (found, left))
    (hlast : route.steps.getLast? = some (.down name)) (hslash : route.slash = false)
    (hfile : changed.node? (name :: found) = some (.file content)) :
    changed.walk links (route.start base) route.allSteps = .ok (name :: found, left) := by
  have hdirectory := hkeeps _ _ (approach_directory happroach).2 (by simp)
  rw [hkeeps.walk_entry happroach hlast hslash, walk_enter hdirectory hfile (by simp), walk_nil]

theorem hasRoom_writePlace {base place : Location} {route : Route}
    (hnames : ∀ name, .down name ∈ route.steps → IsName name)
    (h : tree.writePlace links base route = .ok place) : tree.HasRoom place := by
  fun_induction tree.writePlace links base route with
  | case1 => contradiction
  | case2 => contradiction
  | case3 _ _ _ _ _ happroach name hlast _ hnode =>
    cases h
    have hname := hnames name (List.mem_of_getLast? hlast)
    exact hasRoom_of_free ⟨hname, (approach_directory happroach).2⟩ hnode
  | case4 _ _ _ _ _ happroach name hlast _ _ hnode =>
    cases h
    have hname := hnames name (List.mem_of_getLast? hlast)
    exact hasRoom_of_file ⟨hname, (approach_directory happroach).2⟩ hnode
  | case5 => contradiction
  | case6 => contradiction
  | case7 _ _ _ _ _ _ _ _ _ _ _ _ _ ih => exact ih (fun _ => Route.isName_of_down_mem) h
  | case8 => contradiction

/-- Once a file stands where a route lets one be written, the route leads to it. -/
theorem Keeps.walk_writePlace (hkeeps : Keeps tree changed) {base place : Location}
    {route : Route} (h : tree.writePlace links base route = .ok place)
    (hplace : changed.node? place = some (.file content)) :
    ∃ left, changed.walk links (route.start base) route.allSteps = .ok (place, left) := by
  fun_induction tree.writePlace links base route with
  | case1 => contradiction
  | case2 => contradiction
  | case3 links base route directory left happroach name hlast hslash =>
    cases h
    exact ⟨left, hkeeps.walk_file happroach hlast (Bool.eq_false_iff.mpr hslash) hplace⟩
  | case4 links base route directory left happroach name hlast hslash =>
    cases h
    exact ⟨left, hkeeps.walk_file happroach hlast (Bool.eq_false_iff.mpr hslash) hplace⟩
  | case5 => contradiction
  | case6 => contradiction
  | case7 links base route directory name hlast hslash target hnode left _ happroach _ ih =>
    have hdirectory := hkeeps _ _ (approach_directory happroach).2 (by simp)
    have hlink := hkeeps _ _ hnode (by simp)
    obtain ⟨last, hwalk⟩ := ih h
    rw [hkeeps.walk_entry happroach hlast (Bool.eq_false_iff.mpr hslash),
      walk_follow hdirectory hlink, List.append_nil]
    exact ⟨last, hwalk⟩
  | case8 => contradiction

theorem resolve_eq_ok_iff : tree.resolve path = .ok location ↔ path ≠ [] ∧ ∃ left,
    tree.walk linkLimit ((Route.ofPath path).start tree.workingDirectory)
      (Route.ofPath path).allSteps = .ok (location, left) := by
  unfold resolve
  by_cases hne : path = []
  · simp [hne]
  · cases hwalk : tree.walk linkLimit ((Route.ofPath path).start tree.workingDirectory)
        (Route.ofPath path).allSteps with
    | error fault => simp [hne, hwalk, Except.map]
    | ok reached =>
      obtain ⟨found, left⟩ := reached
      simp [hne, hwalk, Except.map]

/-- A write puts the content in one place, and the path leads to that place afterwards. -/
theorem write_ok (h : tree.write path content = .ok changed) :
    ∃ place, tree.HasRoom place ∧ changed = tree.set place (.file content) ∧
      changed.resolve path = .ok place := by
  unfold write at h
  split at h
  · contradiction
  · next hne =>
    cases hplace : tree.writePlace linkLimit tree.workingDirectory (Route.ofPath path) with
    | error fault => simp [hplace, Except.map] at h
    | ok place =>
      simp only [hplace, Except.map, Except.ok.injEq] at h
      subst h
      have hroom := hasRoom_writePlace (fun _ => Route.isName_of_down_mem) hplace
      obtain ⟨left, hwalk⟩ := (hroom.keeps_set content).walk_writePlace hplace
        (node?_set_self (hroom.admits content))
      refine ⟨place, hroom, rfl, resolve_eq_ok_iff.mpr ⟨hne, left, ?_⟩⟩
      rw [workingDirectory_set]
      exact hwalk

/-- What has been written is read. -/
theorem read_write (h : tree.write path content = .ok changed) :
    changed.read path = .ok content := by
  obtain ⟨place, hroom, rfl, hresolve⟩ := write_ok h
  simp [read, hresolve, bind, Except.bind, node?_set_self (hroom.admits content)]

/-- A path is written where its last step leads, if there is room. -/
theorem write_of_approach {directory : Location} {name : Bytes} (hpath : path ≠ [])
    (happroach : tree.approach linkLimit tree.workingDirectory (Route.ofPath path) =
      .ok (directory, left))
    (hlast : (Route.ofPath path).steps.getLast? = some (.down name))
    (hslash : (Route.ofPath path).slash = false)
    (hroom : tree.HasRoom (name :: directory)) (content : Bytes) :
    tree.write path content = .ok (tree.set (name :: directory) (.file content)) := by
  have hplace : tree.writePlace linkLimit tree.workingDirectory (Route.ofPath path) =
      .ok (name :: directory) := by
    rw [writePlace_of_approach happroach hlast hslash]
    cases hnode : tree.node? (name :: directory) with
    | none => rfl
    | some node =>
      obtain ⟨old, rfl⟩ := hroom.2 node hnode
      rfl
  rw [write, if_neg hpath, hplace]
  rfl

/-- A name in the working directory that has room can be written. -/
theorem write_name {name : Bytes} (hpath : path ≠ [])
    (hroute : Route.ofPath path = ⟨false, [.down name], false⟩)
    (hbase : tree.node? tree.workingDirectory = some .directory)
    (hroom : tree.HasRoom (name :: tree.workingDirectory)) (content : Bytes) :
    tree.write path content =
      .ok (tree.set (name :: tree.workingDirectory) (.file content)) := by
  have happroach : tree.approach linkLimit tree.workingDirectory (Route.ofPath path) =
      .ok (tree.workingDirectory, linkLimit) := by
    simp [hroute, approach, Route.start, bind, Except.bind, hbase]
  exact write_of_approach hpath happroach (by simp [hroute]) (by rw [hroute]) hroom content

def IsLeftOf (changed tree : FileTree) : Prop :=
  ∀ location node, changed.node? location = some node → tree.node? location = some node

theorem isLeftOf_erase (tree : FileTree) (entry : Location) : (tree.erase entry).IsLeftOf tree := by
  intro location node hnode
  by_cases hentry : location = entry
  · subst hentry
    by_cases hdirectory : tree.node? location = some .directory
    · rwa [erase, dif_pos hdirectory] at hnode
    · rw [node?_erase_self hdirectory] at hnode
      contradiction
  · rwa [node?_erase_of_ne tree hentry] at hnode

/-- A way that is left leads where it did before. -/
theorem IsLeftOf.walk (hleft : changed.IsLeftOf tree)
    (hwalk : changed.walk links location steps = .ok (found, left)) :
    tree.walk links location steps = .ok (found, left) :=
  Keeps.walk (fun _ _ hnode _ => hleft _ _ hnode)
    (fun content hnode => ⟨content, hleft _ _ hnode⟩) hwalk

theorem entryPlace_ok {directory : Location} {name : Bytes}
    (h : tree.entryPlace path = .ok (directory, some name)) :
    path ≠ [] ∧ (Route.ofPath path).steps.getLast? = some (.down name) ∧
      ∃ left, tree.approach linkLimit tree.workingDirectory (Route.ofPath path) =
        .ok (directory, left) := by
  unfold entryPlace at h
  split at h
  · contradiction
  · next hne =>
    cases happroach : tree.approach linkLimit tree.workingDirectory (Route.ofPath path) with
    | error fault => simp [happroach, Except.map] at h
    | ok reached =>
      simp only [happroach, Except.map, Except.ok.injEq, Prod.mk.injEq] at h
      obtain ⟨hdirectory, hname⟩ := h
      refine ⟨hne, ?_, reached.2, by rw [← hdirectory]⟩
      split at hname
      · next hlast =>
        cases hname
        exact hlast
      · contradiction

/-- A path does not lead anywhere without the entry that it names. -/
theorem resolve_erase {directory : Location} {name : Bytes}
    (hentry : tree.entryPlace path = .ok (directory, some name))
    (hplain : tree.node? (name :: directory) ≠ some .directory)
    (hslash : (Route.ofPath path).slash = false) (location : Location) :
    (tree.erase (name :: directory)).resolve path ≠ .ok location := by
  obtain ⟨hne, hlast, left, happroach⟩ := entryPlace_ok hentry
  have hmissing : (tree.erase (name :: directory)).node? (name :: directory) = none :=
    node?_erase_self hplain
  intro hresolve
  obtain ⟨-, last, hwalk⟩ := resolve_eq_ok_iff.mp hresolve
  rw [Route.allSteps_eq hlast hslash, walk_append] at hwalk
  cases hbefore : (tree.erase (name :: directory)).walk linkLimit
      ((Route.ofPath path).start (tree.erase (name :: directory)).workingDirectory)
      (Route.ofPath path).steps.dropLast with
  | error fault =>
    rw [hbefore] at hwalk
    contradiction
  | ok reached =>
    obtain ⟨reached, links⟩ := reached
    have hsame := (isLeftOf_erase tree _).walk hbefore
    rw [workingDirectory_erase] at hsame
    obtain ⟨hreach, hdirectory⟩ := approach_directory happroach
    cases hreach.symm.trans hsame
    have hstays : (tree.erase (name :: directory)).node? directory = some .directory := by
      rw [node?_erase_of_ne tree (by simp), hdirectory]
    rw [hbefore] at hwalk
    simp [Except.bind, walk_cons, hstays, hmissing] at hwalk

theorem exists?_erase {directory : Location} {name : Bytes}
    (hentry : tree.entryPlace path = .ok (directory, some name))
    (hplain : tree.node? (name :: directory) ≠ some .directory)
    (hslash : (Route.ofPath path).slash = false) :
    (tree.erase (name :: directory)).exists? path = false := by
  unfold exists? nodeAt?
  cases hresolve : (tree.erase (name :: directory)).resolve path with
  | error fault => rfl
  | ok location => exact absurd hresolve (resolve_erase hentry hplain hslash location)

def Names (tree : FileTree) (path : Bytes) (entry : Location) : Prop :=
  ∃ directory name, entry = name :: directory ∧
    tree.entryPlace path = .ok (directory, some name) ∧
    ∃ node, tree.node? entry = some node ∧ node ≠ .directory

/-- A removal takes away the entry that the path names, and the path leads nowhere
afterwards. -/
theorem removeFile_ok (h : tree.removeFile path = .ok changed) :
    ∃ entry, tree.Names path entry ∧ changed = tree.erase entry ∧
      changed.exists? path = false := by
  unfold removeFile at h
  cases hentry : tree.entryPlace path with
  | error fault => simp [hentry, bind, Except.bind] at h
  | ok place =>
    obtain ⟨directory, name⟩ := place
    cases name with
    | none => simp [hentry, bind, Except.bind] at h
    | some name =>
      cases hnode : tree.node? (name :: directory) with
      | none => simp [hentry, hnode, bind, Except.bind] at h
      | some node =>
        have hnotDirectory : node ≠ .directory := by
          rintro rfl
          simp [hentry, hnode, bind, Except.bind] at h
        have hkept : (if (Route.ofPath path).slash then .error FileFault.notDirectory
            else .ok (tree.erase (name :: directory))) = Except.ok changed := by
          cases node with
          | directory => contradiction
          | file content => simpa [hentry, hnode, bind, Except.bind] using h
          | link target => simpa [hentry, hnode, bind, Except.bind] using h
        split at hkept
        · contradiction
        · next hslash =>
          cases hkept
          exact ⟨_, ⟨directory, name, rfl, hentry, node, hnode, hnotDirectory⟩, rfl,
            exists?_erase hentry (by simp [hnode, hnotDirectory]) (Bool.eq_false_iff.mpr hslash)⟩

/-- Nothing but the one place has changed. -/
def DiffersOnlyAt (tree changed : FileTree) (place : Location) : Prop :=
  ∀ other, other ≠ place → changed.node? other = tree.node? other

theorem differsOnlyAt_set (tree : FileTree) (place : Location) (node : FileNode) :
    tree.DiffersOnlyAt (tree.set place node) place :=
  fun _ hother => node?_set_of_ne tree node hother

theorem differsOnlyAt_erase (tree : FileTree) (entry : Location) :
    tree.DiffersOnlyAt (tree.erase entry) entry :=
  fun _ hother => node?_erase_of_ne tree hother

end FileTree

end Sketchbook
