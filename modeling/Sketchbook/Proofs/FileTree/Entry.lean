import Sketchbook.Proofs.FileTree.Alike

/-! The entries of a directory. Every entry has a proper name and stands in a directory, so the
absolute path of a directory leads there, and what stands directly in it is found, written and
removed by that path and a name. -/
namespace Sketchbook
open Text

namespace Path

theorem pieces_of_not_mem {α : Type} [DecidableEq α] [PathSigns α] {name : List α}
    (h : PathSigns.separator ∉ name) : pieces name = [name] := by
  induction name with
  | nil => rfl
  | cons c rest ih =>
    have hsign : c ≠ PathSigns.separator := (List.ne_of_not_mem_cons h).symm
    rw [pieces, if_neg hsign, ih (List.not_mem_of_not_mem_cons h)]

variable {name : Bytes}

theorem pieces_append_separator (h : 47 ∉ name) (path : Bytes) :
    pieces (name ++ 47 :: path) = name :: pieces path := by
  induction name with
  | nil => rfl
  | cons c rest ih =>
    have hsign : c ≠ PathSigns.separator := (List.ne_of_not_mem_cons h).symm
    rw [List.cons_append, pieces, if_neg hsign, ih (List.not_mem_of_not_mem_cons h)]

/-- The pieces of names with a separator before every name but the first. -/
theorem pieces_flatMap (hfirst : 47 ∉ name) {names : List Bytes}
    (hnames : ∀ n ∈ names, 47 ∉ n) :
    pieces (name ++ names.flatMap (47 :: ·)) = name :: names := by
  induction names generalizing name with
  | nil => simpa using pieces_of_not_mem hfirst
  | cons next rest ih =>
    obtain ⟨hnext, hrest⟩ := List.forall_mem_cons.mp hnames
    rw [List.flatMap_cons, List.cons_append, pieces_append_separator hfirst, ih hnext hrest]

end Path

theorem IsName.step {name : Bytes} (h : IsName name) : Route.step name = .down name := by
  rw [Route.step, if_neg h.ne_dot, if_neg h.ne_dots]

theorem IsName.getLast?_ne {name : Bytes} (h : IsName name) : name.getLast? ≠ some 47 :=
  fun hlast => h.separator (List.mem_of_getLast? hlast)

namespace FileTree

variable {tree : FileTree} {location other : Location} {name content : Bytes} {node : FileNode}

theorem pathOf_cons (name : Bytes) (outer : Location) :
    pathOf (name :: outer) = (name :: outer).reverse.flatMap (47 :: ·) := rfl

theorem pathOf_cons_ne_nil (name : Bytes) (outer : Location) : pathOf (name :: outer) ≠ [] := by
  simp [pathOf_cons]

theorem isAbsolute_pathOf (location : Location) : Path.isAbsolute (pathOf location) = true := by
  cases location with
  | nil => rfl
  | cons name outer =>
    obtain ⟨first, rest, hfirst⟩ : ∃ first rest, (name :: outer).reverse = first :: rest :=
      List.exists_cons_of_ne_nil (by simp)
    rw [pathOf_cons, hfirst]
    rfl

theorem getLast?_pathOf (hname : IsName name) (outer : Location) :
    (pathOf (name :: outer)).getLast? = name.getLast? := by
  obtain ⟨first, rest, hcons⟩ := List.exists_cons_of_ne_nil hname.ne_nil
  rw [pathOf_cons, List.reverse_cons, List.flatMap_append, List.getLast?_append]
  simp [hcons, List.getLast?_cons]

/-- Below a directory, a name continues the path of the directory. -/
theorem join_pathOf (hname : IsName name) (hnames : ∀ n ∈ location, IsName n) :
    Path.join (pathOf location) name = pathOf (name :: location) := by
  have hrelative : Path.isAbsolute name = false := by
    cases name with
    | nil => rfl
    | cons c rest =>
      have hc := List.ne_of_not_mem_cons hname.separator
      simp [Path.isAbsolute, PathSigns.separator, hc.symm]
  rw [Path.join, hrelative, if_neg Bool.false_ne_true]
  cases location with
  | nil => simp [pathOf, PathSigns.separator]
  | cons last outer =>
    have hlast := hnames last List.mem_cons_self
    have hend : (pathOf (last :: outer)).getLast? ≠ some PathSigns.separator := by
      rw [getLast?_pathOf hlast]
      exact hlast.getLast?_ne
    rw [if_neg (not_or.mpr ⟨pathOf_cons_ne_nil last outer, hend⟩), pathOf_cons name,
      List.reverse_cons, List.flatMap_append]
    simp [pathOf_cons, PathSigns.separator]

/-- The path of a location goes down from the root by the names of the location. -/
theorem ofPath_pathOf (hname : IsName name) (hnames : ∀ n ∈ location, IsName n) :
    Route.ofPath (pathOf (name :: location)) =
      ⟨true, location.reverse.map .down ++ [.down name], false⟩ := by
  have hall : ∀ n ∈ (name :: location).reverse, IsName n := fun n hn =>
    List.forall_mem_cons.mpr ⟨hname, hnames⟩ n (List.mem_reverse.mp hn)
  have hpieces : Path.pieces (pathOf (name :: location)) = [] :: (name :: location).reverse :=
    Path.pieces_flatMap List.not_mem_nil fun n hn => (hall n hn).separator
  have hsteps : (((name :: location).reverse).filter (!·.isEmpty)).map Route.step =
      location.reverse.map .down ++ [.down name] := by
    rw [List.filter_eq_self.mpr fun n hn => by simpa using (hall n hn).ne_nil,
      List.map_congr_left fun n hn => (hall n hn).step]
    simp
  have hslash := hname.getLast?_ne
  rw [← getLast?_pathOf hname location] at hslash
  rw [Route.ofPath, hpieces, List.filter_cons_of_neg (by simp), hsteps,
    isAbsolute_pathOf,
    beq_eq_false_iff_ne.mpr hslash]

theorem steps_pathOf (hnames : ∀ n ∈ location, IsName n) :
    (Route.ofPath (pathOf location)).steps = location.reverse.map .down := by
  cases location with
  | nil => rfl
  | cons name outer =>
    obtain ⟨hname, houter⟩ := List.forall_mem_cons.mp hnames
    rw [ofPath_pathOf hname houter]
    simp

/-- Two locations with proper names have different paths. -/
theorem eq_of_pathOf_eq (hnames : ∀ n ∈ location, IsName n) (hothers : ∀ n ∈ other, IsName n)
    (h : pathOf location = pathOf other) : location = other := by
  have hsteps : location.reverse.map PathStep.down = other.reverse.map PathStep.down := by
    rw [← steps_pathOf hnames, h, steps_pathOf hothers]
  have hdown (a b : Bytes) (hab : PathStep.down a = PathStep.down b) : a = b :=
    PathStep.down.inj hab
  exact List.reverse_inj.mp ((List.map_inj_right hdown).mp hsteps)

theorem isName_of_mem (h : tree.node? location = some node) : ∀ n ∈ location, IsName n := by
  induction location generalizing node with
  | nil => simp
  | cons name outer ih =>
    exact List.forall_mem_cons.mpr ⟨isName_of_node? h, ih (node?_outer h)⟩

/-- From the root the names of a directory lead into it. -/
theorem walk_down (hdirectory : tree.node? location = some .directory)
    (links : Nat) (steps : List PathStep) :
    tree.walk links [] (location.reverse.map .down ++ steps) =
      tree.walk links location steps := by
  induction location generalizing steps with
  | nil => rfl
  | cons name outer ih =>
    have houter := node?_outer hdirectory
    rw [List.reverse_cons, List.map_append, List.append_assoc, ih houter]
    exact walk_enter houter hdirectory (by simp) links steps

/-- The absolute path of a directory leads to it. -/
theorem resolve_pathOf (hdirectory : tree.node? location = some .directory) :
    tree.resolve (pathOf location) = .ok location := by
  cases location with
  | nil =>
    have hroute : Route.ofPath (pathOf []) = ⟨true, [], true⟩ := by decide
    refine resolve_eq_ok_iff.mpr ⟨by decide, linkLimit, ?_⟩
    simp [hroute, Route.start, Route.allSteps, walk_stay hdirectory]
  | cons name outer =>
    have hnames := List.forall_mem_cons.mp (isName_of_mem hdirectory)
    refine resolve_eq_ok_iff.mpr ⟨pathOf_cons_ne_nil name outer, linkLimit, ?_⟩
    have hwalk := walk_down hdirectory linkLimit []
    rw [ofPath_pathOf hnames.1 hnames.2]
    simpa [Route.start, Route.allSteps, walk_nil] using hwalk

section Entry

/-! What stands under a name in a directory. -/

variable (hdirectory : tree.node? location = some .directory) (hname : IsName name)

include hdirectory hname

theorem ofPath_entry : Route.ofPath (pathOf (name :: location)) =
    ⟨true, location.reverse.map .down ++ [.down name], false⟩ :=
  ofPath_pathOf hname (isName_of_mem hdirectory)

theorem resolve_entry : tree.resolve (pathOf (name :: location)) =
    (tree.walk linkLimit location [.down name]).map Prod.fst := by
  rw [resolve, if_neg (pathOf_cons_ne_nil name location), ofPath_entry hdirectory hname]
  simp only [Route.start, Route.allSteps, if_true, Bool.false_eq_true, if_false]
  rw [walk_down hdirectory]

theorem approach_entry :
    tree.approach linkLimit tree.workingDirectory (Route.ofPath (pathOf (name :: location))) =
      .ok (location, linkLimit) := by
  have hwalk := walk_down hdirectory linkLimit []
  rw [List.append_nil, walk_nil] at hwalk
  rw [ofPath_entry hdirectory hname, approach, List.dropLast_concat]
  simp only [Route.start, if_true, hwalk, bind, Except.bind, hdirectory]

theorem write_entry (hroom : tree.HasRoom (name :: location)) (content : Bytes) :
    tree.write (pathOf (name :: location)) content =
      .ok (tree.set (name :: location) (.file content)) :=
  write_of_approach (pathOf_cons_ne_nil name location) (approach_entry hdirectory hname)
    (by simp [ofPath_entry hdirectory hname]) (by rw [ofPath_entry hdirectory hname])
    hroom content

theorem exists?_entry (hroom : tree.HasRoom (name :: location)) :
    tree.exists? (pathOf (name :: location)) = (tree.node? (name :: location)).isSome := by
  rw [exists?, nodeAt?, resolve_entry hdirectory hname]
  cases hnode : tree.node? (name :: location) with
  | none => simp [walk_cons, hdirectory, hnode, Except.map]
  | some node =>
    obtain ⟨content, rfl⟩ := hroom.2 node hnode
    simp [walk_cons, hdirectory, hnode, Except.map]

theorem removeFile_entry (hfile : tree.node? (name :: location) = some (.file content)) :
    tree.removeFile (pathOf (name :: location)) = .ok (tree.erase (name :: location)) := by
  have hentry : tree.entryPlace (pathOf (name :: location)) = .ok (location, some name) := by
    rw [entryPlace, if_neg (pathOf_cons_ne_nil name location)]
    simp only [approach_entry hdirectory hname]
    simp [ofPath_entry hdirectory hname, Except.map]
  simp [removeFile, hentry, hfile, ofPath_entry hdirectory hname, bind, Except.bind]

end Entry

/-- The absolute path of a file leads to it. -/
theorem resolve_pathOf_file (hfile : tree.node? location = some (.file content)) :
    tree.resolve (pathOf location) = .ok location := by
  cases location with
  | nil =>
    rw [node?_nil] at hfile
    cases hfile
  | cons name outer =>
    have hdirectory := node?_outer hfile
    rw [resolve_entry hdirectory (isName_of_node? hfile),
      walk_enter hdirectory hfile (by simp), walk_nil]
    rfl

end FileTree

end Sketchbook
