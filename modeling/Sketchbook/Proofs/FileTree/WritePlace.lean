import Sketchbook.Proofs.FileTree.Entry

/-! Where a path is written. A path that leads to a file is written there, and a path that a
broken link makes lead nowhere may be written as well. What decides the place are the directories
and links on the way, so it is the same with or without a file in it. -/
namespace Sketchbook.FileTree
open Text

variable {tree other : FileTree} {links left : Nat} {base location found place : Location}
  {steps : List PathStep} {step : PathStep} {route : Route} {path content : Bytes}

theorem walk_concat (h : tree.walk links location (steps ++ [step]) = .ok (found, left)) :
    ∃ directory reached, tree.walk links location steps = .ok (directory, reached) ∧
      tree.node? directory = some .directory ∧
      tree.walk reached directory [step] = .ok (found, left) := by
  rw [walk_append] at h
  cases hwalk : tree.walk links location steps with
  | error fault =>
    rw [hwalk] at h
    contradiction
  | ok reached =>
    obtain ⟨directory, reached⟩ := reached
    rw [hwalk] at h
    refine ⟨directory, reached, rfl, ?_, h⟩
    simp only [Except.bind] at h
    rw [walk_cons] at h
    cases hnode : tree.node? directory with
    | none => simp [hnode] at h
    | some node => cases node <;> simp [hnode] at h ⊢

/-- A step that goes down nowhere ends in a directory. -/
theorem node?_of_walk_idle (hstep : ∀ name, step ≠ .down name)
    (hdirectory : tree.node? location = some .directory)
    (h : tree.walk links location [step] = .ok (found, left)) :
    tree.node? found = some .directory := by
  cases step with
  | stay =>
    rw [walk_stay hdirectory, walk_nil] at h
    cases h
    exact hdirectory
  | up =>
    rw [walk_up hdirectory, walk_nil] at h
    cases h
    cases location with
    | nil => rfl
    | cons name outer => exact node?_outer hdirectory
  | down name => exact absurd rfl (hstep name)

/-- A way from a directory to a file ends by going down. -/
theorem exists_down_of_walk (hstart : tree.node? (route.start base) = some .directory)
    (h : tree.walk links (route.start base) route.allSteps = .ok (found, left))
    (hfile : tree.node? found = some (.file content)) :
    ∃ name, route.steps.getLast? = some (.down name) ∧ route.slash = false := by
  have hdown {step : PathStep} {steps : List PathStep} (hsteps : route.allSteps = steps ++ [step]) :
      ∃ name, step = .down name := by
    obtain ⟨directory, reached, -, hdirectory, hlast⟩ := walk_concat (hsteps ▸ h)
    have hidle (hstep : ∀ name, step ≠ .down name) : False := by
      have hend := node?_of_walk_idle hstep hdirectory hlast
      cases hfile.symm.trans hend
    cases step with
    | stay => exact (hidle nofun).elim
    | up => exact (hidle nofun).elim
    | down name => exact ⟨name, rfl⟩
  cases hslash : route.slash with
  | true =>
    have hsteps : route.allSteps = route.steps ++ [.stay] := by rw [Route.allSteps, hslash]; rfl
    obtain ⟨name, hname⟩ := hdown hsteps
    contradiction
  | false =>
    have hsteps : route.allSteps = route.steps := by rw [Route.allSteps, hslash]; rfl
    cases hlast : route.steps.getLast? with
    | none =>
      rw [hsteps, List.getLast?_eq_none_iff.mp hlast, walk_nil] at h
      cases h
      cases hstart.symm.trans hfile
    | some step =>
      obtain ⟨before, hbefore⟩ := List.getLast?_eq_some_iff.mp hlast
      obtain ⟨name, rfl⟩ := hdown (hsteps.trans hbefore)
      exact ⟨name, rfl, rfl⟩

/-- A path that leads to a file is written there. -/
theorem writePlace_of_walk (hbase : tree.node? (route.start base) = some .directory)
    (h : tree.walk links (route.start base) route.allSteps = .ok (place, left))
    (hfile : tree.node? place = some (.file content)) :
    tree.writePlace links base route = .ok place := by
  induction links using Nat.strongRecOn generalizing base route left with
  | ind links ih =>
    obtain ⟨name, hlast, hslash⟩ := exists_down_of_walk hbase h hfile
    rw [Route.allSteps_eq hlast hslash] at h
    obtain ⟨directory, reached, hwalk, hdirectory, hdown⟩ := walk_concat h
    rw [writePlace_of_approach (approach_of_walk hwalk hdirectory) hlast hslash]
    cases hnode : tree.node? (name :: directory) with
    | none => simp [walk_cons, hdirectory, hnode] at hdown
    | some node =>
      cases node with
      | file old =>
        rw [walk_enter hdirectory hnode (by simp), walk_nil] at hdown
        cases hdown
        rfl
      | directory =>
        rw [walk_enter hdirectory hnode (by simp), walk_nil] at hdown
        cases hdown
        cases hnode.symm.trans hfile
      | link target =>
        cases reached with
        | zero => simp [walk_cons, hdirectory, hnode] at hdown
        | succ reached =>
          rw [walk_follow hdirectory hnode, List.append_nil] at hdown
          have hstart : tree.node? ((Route.ofPath target).start directory) = some .directory := by
            unfold Route.start
            split
            · rfl
            · exact hdirectory
          exact ih reached (walk_links_le hwalk) hstart hdown

/-- A path that leads to a file is written there. -/
theorem writePlace_of_resolve (hpath : Path.isAbsolute path = true)
    (hresolve : tree.resolve path = .ok place)
    (hfile : tree.node? place = some (.file content)) :
    tree.writePlace linkLimit tree.workingDirectory (Route.ofPath path) = .ok place := by
  obtain ⟨-, left, hwalk⟩ := resolve_eq_ok_iff.mp hresolve
  refine writePlace_of_walk ?_ hwalk hfile
  rw [Route.start, Route.ofPath, if_pos hpath]
  rfl

namespace AlikeBut

/-- Where a path is written does not depend on the place, be it free or taken. -/
theorem writePlace (h : AlikeBut place tree other)
    (hplace : tree.writePlace links base route = .ok found) :
    other.writePlace links base route = .ok found := by
  have happroach {links left : Nat} {base directory : Location} {route : Route}
      (happroach : tree.approach links base route = .ok (directory, left)) :
      other.approach links base route = .ok (directory, left) := by
    obtain ⟨hwalk, hdirectory⟩ := approach_directory happroach
    exact approach_of_walk (h.keeps.walk_directory hwalk hdirectory)
      ((h.elsewhere _ (h.room.ne_directory hdirectory)).trans hdirectory)
  have hwritten {links left : Nat} {base directory : Location} {route : Route} {name : Bytes}
      (hreached : tree.approach links base route = .ok (directory, left))
      (hlast : route.steps.getLast? = some (.down name)) (hslash : ¬ route.slash = true)
      (hfree : ∀ node, tree.node? (name :: directory) = some node →
        ∃ content, node = .file content) :
      other.writePlace links base route = .ok (name :: directory) := by
    rw [writePlace_of_approach (happroach hreached) hlast (Bool.eq_false_iff.mpr hslash)]
    cases hnode : other.node? (name :: directory) with
    | none => rfl
    | some node =>
      have hfile : ∃ content, node = .file content := by
        by_cases heq : name :: directory = place
        · exact h.otherRoom.2 node (heq ▸ hnode)
        · exact hfree node (h.elsewhere _ heq ▸ hnode)
      obtain ⟨content, rfl⟩ := hfile
      rfl
  fun_induction tree.writePlace links base route with
  | case1 => contradiction
  | case2 => contradiction
  | case3 links base route directory left hreached name hlast hslash hnode =>
    cases hplace
    exact hwritten hreached hlast hslash (by simp [hnode])
  | case4 links base route directory left hreached name hlast hslash content hnode =>
    cases hplace
    exact hwritten hreached hlast hslash (by simp [hnode])
  | case5 => contradiction
  | case6 => contradiction
  | case7 links base route directory name hlast hslash target hnode left _ hreached _ ih =>
    have hlink := h.keeps _ _ hnode (by simp)
    rw [writePlace_of_approach (happroach hreached) hlast (Bool.eq_false_iff.mpr hslash), hlink]
    exact ih hplace
  | case8 => contradiction

end AlikeBut
end Sketchbook.FileTree
