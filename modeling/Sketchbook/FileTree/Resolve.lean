import Sketchbook.FileTree.Basic

/-! Paths are followed through a file tree step by step. A link is replaced by the steps of
its target; more than forty links on one way count as a loop. -/
namespace Sketchbook
open Text

inductive PathStep where
  | stay
  | up
  | down (name : Bytes)
  deriving DecidableEq, Repr

/-- A path read as directions. `slash` tells that it ends in a separator and so asks for a
directory. -/
structure Route where
  absolute : Bool
  steps : List PathStep
  slash : Bool
  deriving DecidableEq, Repr

namespace Route

def step (piece : Bytes) : PathStep :=
  if piece = [46] then .stay else if piece = [46, 46] then .up else .down piece

def ofPath (path : Bytes) : Route where
  absolute := Path.isAbsolute path
  steps := ((Path.pieces path).filter (!·.isEmpty)).map step
  slash := path.getLast? == some 47

def allSteps (route : Route) : List PathStep :=
  if route.slash then route.steps ++ [.stay] else route.steps

def start (route : Route) (base : Location) : Location :=
  if route.absolute then [] else base

end Route

def linkLimit : Nat := 40

namespace FileTree

/-- What the steps of a path come to: their end, or a link with steps left behind it. -/
inductive Halt where
  | found (location : Location)
  | link (directory : Location) (target : Bytes) (rest : List PathStep)
  deriving DecidableEq, Repr

def advance (tree : FileTree) (location : Location) : List PathStep → Except FileFault Halt
  | [] => .ok (.found location)
  | next :: rest =>
    match tree.node? location with
    | none => .error .noEntry
    | some (.file _) => .error .notDirectory
    | some (.link _) => .error .notDirectory
    | some .directory =>
      match next with
      | .stay => tree.advance location rest
      | .up => tree.advance location.tail rest
      | .down name =>
        match tree.node? (name :: location) with
        | none => .error .noEntry
        | some (.file _) => tree.advance (name :: location) rest
        | some .directory => tree.advance (name :: location) rest
        | some (.link target) => .ok (.link location target rest)

/-- Follows steps from a location, links at every step included. The answer is where the
steps lead and how many more links could have been followed. -/
def walk (tree : FileTree) (links : Nat) (location : Location) (steps : List PathStep) :
    Except FileFault (Location × Nat) :=
  match tree.advance location steps with
  | .error fault => .error fault
  | .ok (.found found) => .ok (found, links)
  | .ok (.link directory target rest) =>
    match links with
    | 0 => .error .linkLoop
    | links + 1 =>
      let route := Route.ofPath target
      tree.walk links (route.start directory) (route.allSteps ++ rest)

@[simp] theorem walk_nil (tree : FileTree) (links : Nat) (location : Location) :
    tree.walk links location [] = .ok (location, links) := by
  rw [walk, advance]

/-- One step of a way, with the link that it may meet. -/
theorem walk_cons (tree : FileTree) (links : Nat) (location : Location) (next : PathStep)
    (rest : List PathStep) : tree.walk links location (next :: rest) =
      match tree.node? location with
      | none => .error .noEntry
      | some (.file _) => .error .notDirectory
      | some (.link _) => .error .notDirectory
      | some .directory =>
        match next with
        | .stay => tree.walk links location rest
        | .up => tree.walk links location.tail rest
        | .down name =>
          match tree.node? (name :: location) with
          | none => .error .noEntry
          | some (.file _) => tree.walk links (name :: location) rest
          | some .directory => tree.walk links (name :: location) rest
          | some (.link target) =>
            match links with
            | 0 => .error .linkLoop
            | links + 1 => tree.walk links ((Route.ofPath target).start location)
                ((Route.ofPath target).allSteps ++ rest) := by
  rw [walk.eq_def, advance.eq_def]
  cases hnode : tree.node? location with
  | none => rfl
  | some node =>
    cases node with
    | file content => rfl
    | link target => rfl
    | directory =>
      cases next with
      | stay => exact (walk.eq_def ..).symm
      | up => exact (walk.eq_def ..).symm
      | down name =>
        cases hbelow : tree.node? (name :: location) with
        | none => simp only [hbelow]
        | some node =>
          cases node with
          | file content => simpa only [hbelow] using (walk.eq_def ..).symm
          | directory => simpa only [hbelow] using (walk.eq_def ..).symm
          | link target => cases links <;> simp only [hbelow]

/-- Ways are taken apart step by step. A link shortens what is left to be followed, whatever
steps it adds, and any other step shortens the way. -/
theorem walk_induction {motive : Nat → Location → List PathStep → Prop} (tree : FileTree)
    (here : ∀ links location, motive links location [])
    (stuck : ∀ links location next fault,
      (∀ rest, tree.walk links location (next :: rest) = .error fault) →
        ∀ rest, motive links location (next :: rest))
    (stay : ∀ links location rest, tree.node? location = some .directory →
      motive links location rest → motive links location (.stay :: rest))
    (up : ∀ links location rest, tree.node? location = some .directory →
      motive links location.tail rest → motive links location (.up :: rest))
    (enter : ∀ links location rest name node, tree.node? location = some .directory →
      tree.node? (name :: location) = some node → (∀ target, node ≠ .link target) →
        motive links (name :: location) rest → motive links location (.down name :: rest))
    (follow : ∀ links location rest name target, tree.node? location = some .directory →
      tree.node? (name :: location) = some (.link target) →
        motive links ((Route.ofPath target).start location)
          ((Route.ofPath target).allSteps ++ rest) →
        motive (links + 1) location (.down name :: rest))
    (links : Nat) (location : Location) (steps : List PathStep) : motive links location steps := by
  induction links using Nat.strongRecOn generalizing location steps with
  | ind links ihLinks =>
    induction steps generalizing location with
    | nil => exact here links location
    | cons next rest ih =>
      cases hnode : tree.node? location with
      | none => exact stuck _ _ _ .noEntry (by simp [walk_cons, hnode]) rest
      | some node =>
        cases node with
        | file content => exact stuck _ _ _ .notDirectory (by simp [walk_cons, hnode]) rest
        | link target => exact stuck _ _ _ .notDirectory (by simp [walk_cons, hnode]) rest
        | directory =>
          cases next with
          | stay => exact stay _ _ _ hnode (ih location)
          | up => exact up _ _ _ hnode (ih location.tail)
          | down name =>
            cases hbelow : tree.node? (name :: location) with
            | none => exact stuck _ _ _ .noEntry (by simp [walk_cons, hnode, hbelow]) rest
            | some node =>
              cases node with
              | file content => exact enter _ _ _ _ _ hnode hbelow (by simp) (ih _)
              | directory => exact enter _ _ _ _ _ hnode hbelow (by simp) (ih _)
              | link target =>
                cases links with
                | zero => exact stuck _ _ _ .linkLoop (by simp [walk_cons, hnode, hbelow]) rest
                | succ links =>
                  exact follow _ _ _ _ _ hnode hbelow (ihLinks links (Nat.lt_succ_self links) _ _)

section

variable {tree : FileTree} {location : Location} {name : Bytes}
  (hdirectory : tree.node? location = some .directory)

include hdirectory

theorem walk_stay (links : Nat) (rest : List PathStep) :
    tree.walk links location (.stay :: rest) = tree.walk links location rest := by
  rw [walk_cons, hdirectory]

theorem walk_up (links : Nat) (rest : List PathStep) :
    tree.walk links location (.up :: rest) = tree.walk links location.tail rest := by
  rw [walk_cons, hdirectory]

theorem walk_enter {node : FileNode} (hnode : tree.node? (name :: location) = some node)
    (hplain : ∀ target, node ≠ .link target) (links : Nat) (rest : List PathStep) :
    tree.walk links location (.down name :: rest) = tree.walk links (name :: location) rest := by
  cases node with
  | file content => simp [walk_cons, hdirectory, hnode]
  | directory => simp [walk_cons, hdirectory, hnode]
  | link target => exact absurd rfl (hplain target)

theorem walk_follow {target : Bytes} (hlink : tree.node? (name :: location) = some (.link target))
    (links : Nat) (rest : List PathStep) :
    tree.walk (links + 1) location (.down name :: rest) =
      tree.walk links ((Route.ofPath target).start location)
        ((Route.ofPath target).allSteps ++ rest) := by
  simp [walk_cons, hdirectory, hlink]

end

theorem walk_links_le {tree : FileTree} {links left : Nat} {location found : Location}
    {steps : List PathStep} (h : tree.walk links location steps = .ok (found, left)) :
    left ≤ links := by
  induction links, location, steps using tree.walk_induction with
  | here links location =>
    rw [walk_nil] at h
    cases h
    exact Nat.le_refl _
  | stuck links location next fault hstuck rest => cases (hstuck rest).symm.trans h
  | stay links location rest hdirectory ih =>
    rw [walk_stay hdirectory] at h
    exact ih h
  | up links location rest hdirectory ih =>
    rw [walk_up hdirectory] at h
    exact ih h
  | enter links location rest name node hdirectory hnode hplain ih =>
    rw [walk_enter hdirectory hnode hplain] at h
    exact ih h
  | follow links location rest name target hdirectory hlink ih =>
    rw [walk_follow hdirectory hlink] at h
    exact Nat.le_succ_of_le (ih h)

def resolve (tree : FileTree) (path : Bytes) : Except FileFault Location :=
  if path = [] then .error .noEntry
  else
    let route := Route.ofPath path
    (tree.walk linkLimit (route.start tree.workingDirectory) route.allSteps).map Prod.fst

def pathOf (location : Location) : Bytes :=
  if location = [] then [47] else location.reverse.flatMap (47 :: ·)

def canonical (tree : FileTree) (path : Bytes) : Except FileFault Bytes :=
  (tree.resolve path).map pathOf

def nodeAt? (tree : FileTree) (path : Bytes) : Option FileNode :=
  match tree.resolve path with
  | .ok location => tree.node? location
  | .error _ => none

def exists? (tree : FileTree) (path : Bytes) : Bool := (tree.nodeAt? path).isSome

def isFile (tree : FileTree) (path : Bytes) : Bool :=
  match tree.nodeAt? path with
  | some (.file _) => true
  | _ => false

def isDirectory (tree : FileTree) (path : Bytes) : Bool :=
  tree.nodeAt? path == some .directory

def read (tree : FileTree) (path : Bytes) : Except FileFault Bytes := do
  let location ← tree.resolve path
  match tree.node? location with
  | some (.file content) => .ok content
  | some .directory => .error .isDirectory
  | some (.link _) => .error .noEntry
  | none => .error .noEntry

def approach (tree : FileTree) (links : Nat) (base : Location) (route : Route) :
    Except FileFault (Location × Nat) := do
  let (directory, left) ← tree.walk links (route.start base) route.steps.dropLast
  match tree.node? directory with
  | some .directory => .ok (directory, left)
  | some (.file _) => .error .notDirectory
  | some (.link _) => .error .notDirectory
  | none => .error .noEntry

theorem approach_links_le {tree : FileTree} {links left : Nat} {base found : Location}
    {route : Route} (h : tree.approach links base route = .ok (found, left)) :
    left ≤ links := by
  unfold approach at h
  cases hw : tree.walk links (route.start base) route.steps.dropLast with
  | error e => simp [hw, bind, Except.bind] at h
  | ok r =>
    obtain ⟨directory, l⟩ := r
    simp only [hw, bind, Except.bind] at h
    split at h
    · cases h
      exact walk_links_le hw
    all_goals contradiction

/-- The location where a path lets a file be written: that of an existing file, or a free
place in an existing directory. A link at the end is followed like any other. -/
def writePlace (tree : FileTree) (links : Nat) (base : Location) (route : Route) :
    Except FileFault Location :=
  match h : tree.approach links base route with
  | .error fault => .error fault
  | .ok (directory, left) =>
    match route.steps.getLast? with
    | some (.down name) =>
      if route.slash then .error .isDirectory
      else match tree.node? (name :: directory) with
        | none => .ok (name :: directory)
        | some (.file _) => .ok (name :: directory)
        | some .directory => .error .isDirectory
        | some (.link target) =>
          match left, approach_links_le h with
          | 0, _ => .error .linkLoop
          | left + 1, _ => tree.writePlace left directory (Route.ofPath target)
    | _ => .error .isDirectory
termination_by links

end FileTree

end Sketchbook
