import Sketchbook.Proofs.Document.Segments

/-! The order of the include lines. However many sketches are primary, every sketch has its line,
those of the primary sketches come first and the others keep the order of the sketches. -/
namespace Sketchbook.Document

/-- The same sketches with all primary ones in front and the others in the order they had. -/
structure IsPrimaryFirst (sketches ordered : List Sketch) : Prop where
  perm : ordered.Perm sketches
  front : ordered.Pairwise fun a b => b.isPrimary = true → a.isPrimary = true
  others : ordered.filter (!·.isPrimary) = sketches.filter (!·.isPrimary)

def AreSelfIncludes (seen : List Sketch) (lines : List String) : Prop :=
  ∃ ordered, IsPrimaryFirst seen ordered ∧ lines = ordered.map Sketch.selfInclude

variable {seen ordered sketches : List Sketch} {lines : List String} {index : Index}
  {settings : Settings} {instant : Calendar.Instant}

theorem IsPrimaryFirst.cons (h : IsPrimaryFirst seen ordered) {sketch : Sketch}
    (hprimary : sketch.isPrimary = true) :
    IsPrimaryFirst (seen ++ [sketch]) (sketch :: ordered) where
  perm := (h.perm.cons sketch).trans (List.perm_append_singleton sketch seen).symm
  front := List.pairwise_cons.mpr ⟨fun _ _ _ => hprimary, h.front⟩
  others := by simp [hprimary, h.others]

theorem IsPrimaryFirst.concat (h : IsPrimaryFirst seen ordered) {sketch : Sketch}
    (hother : sketch.isPrimary = false) :
    IsPrimaryFirst (seen ++ [sketch]) (ordered ++ [sketch]) where
  perm := h.perm.append_right [sketch]
  front := by
    refine List.pairwise_append.mpr ⟨h.front, List.pairwise_singleton _ _, ?_⟩
    intro a _ b hb hprimary
    rw [List.mem_singleton.mp hb, hother] at hprimary
    contradiction
  others := by simp [h.others]

/-- One sketch more. -/
theorem AreSelfIncludes.place (h : AreSelfIncludes seen lines) (sketch : Sketch) :
    AreSelfIncludes (seen ++ [sketch]) (placeSelfInclude lines sketch) := by
  obtain ⟨ordered, hordered, rfl⟩ := h
  unfold placeSelfInclude
  cases hprimary : sketch.isPrimary with
  | true => exact ⟨sketch :: ordered, hordered.cons hprimary, rfl⟩
  | false => exact ⟨ordered ++ [sketch], hordered.concat hprimary, by simp⟩

theorem AreSelfIncludes.foldl (h : AreSelfIncludes seen lines) (more : List Sketch) :
    AreSelfIncludes (seen ++ more) (more.foldl placeSelfInclude lines) := by
  induction more generalizing seen lines with
  | nil => simpa using h
  | cons sketch rest ih => simpa using ih (h.place sketch)

/-- Sketches that are written into a document, whether the index knows them or not, put their
lines among those that are there. -/
theorem areSelfIncludes_foldl_add {document : Document}
    (h : AreSelfIncludes seen document.selfIncludes) (index : Index) (sketches : List Sketch) :
    AreSelfIncludes (seen ++ sketches) (sketches.foldl (add index) document).selfIncludes := by
  rw [foldl_add]
  exact h.foldl sketches

theorem eq_filter_append_filter
    (h : ordered.Pairwise fun a b => b.isPrimary = true → a.isPrimary = true) :
    ordered = ordered.filter (·.isPrimary) ++ ordered.filter (!·.isPrimary) := by
  induction ordered with
  | nil => rfl
  | cons sketch rest ih =>
    obtain ⟨hfirst, hrest⟩ := List.pairwise_cons.mp h
    cases hprimary : sketch.isPrimary with
    | true => simpa [List.filter_cons, hprimary] using ih hrest
    | false =>
      have hnone : rest.filter (·.isPrimary) = [] := by
        refine List.filter_eq_nil_iff.mpr fun other hother hmore => ?_
        rw [hfirst other hother hmore] at hprimary
        contradiction
      have hall : rest = rest.filter (!·.isPrimary) := by simpa [hnone] using ih hrest
      simp [hprimary, hnone, ← hall]

theorem IsPrimaryFirst.eq_append (h : IsPrimaryFirst sketches ordered) :
    ordered = ordered.filter (·.isPrimary) ++ sketches.filter (!·.isPrimary) :=
  (eq_filter_append_filter h.front).trans (by rw [h.others])

theorem filter_of_none_primary (h : ∀ sketch ∈ sketches, sketch.isPrimary = false) :
    sketches.filter (·.isPrimary) = [] ∧ sketches.filter (!·.isPrimary) = sketches := by
  constructor
  · exact List.filter_eq_nil_iff.mpr fun sketch hmem => by simp [h sketch hmem]
  · exact List.filter_eq_self.mpr fun sketch hmem => by simp [h sketch hmem]

/-- Without a primary sketch nothing changes its place. -/
theorem IsPrimaryFirst.eq_self (h : IsPrimaryFirst sketches ordered)
    (hnone : ∀ sketch ∈ sketches, sketch.isPrimary = false) : ordered = sketches := by
  have hordered : ∀ sketch ∈ ordered, sketch.isPrimary = false :=
    fun sketch hmem => hnone sketch (h.perm.mem_iff.mp hmem)
  rw [h.eq_append, (filter_of_none_primary hordered).1, (filter_of_none_primary hnone).2,
    List.nil_append]

/-- The only primary sketch comes first, wherever it stood. -/
theorem IsPrimaryFirst.eq_cons {before after : List Sketch} {primary : Sketch}
    (h : IsPrimaryFirst (before ++ primary :: after) ordered) (hprimary : primary.isPrimary = true)
    (hothers : ∀ sketch ∈ before ++ after, sketch.isPrimary = false) :
    ordered = primary :: (before ++ after) := by
  obtain ⟨hnone, hall⟩ := filter_of_none_primary hothers
  have hfront : ordered.filter (·.isPrimary) = [primary] := by
    have hperm := h.perm.filter (·.isPrimary)
    rw [List.filter_append, List.filter_cons_of_pos hprimary] at hperm
    rw [List.filter_append, List.append_eq_nil_iff] at hnone
    rw [hnone.1, hnone.2] at hperm
    exact List.perm_singleton.mp hperm
  have hbehind : (before ++ primary :: after).filter (!·.isPrimary) = before ++ after := by
    rw [List.filter_append, List.filter_cons_of_neg (by simp [hprimary]), ← List.filter_append,
      hall]
  rw [h.eq_append, hfront, hbehind, List.singleton_append]

/-- The document that is made of some sketches by writing one after another has one include line
for each of them, the lines of the primary sketches before those of the others and these in the
order of the sketches. -/
theorem assemble_primaryFirst (settings : Settings) (sketches : List Sketch) (index : Index)
    (instant : Calendar.Instant) (hne : sketches ≠ []) :
    ∃ document, assemble settings sketches index instant = some document ∧
      document = sketches.foldl (add index) (start settings instant) ∧
      (∃ ordered, IsPrimaryFirst sketches ordered ∧
        document.selfIncludes = ordered.map Sketch.selfInclude) ∧
      document.selfIncludes.Perm (sketches.map Sketch.selfInclude) ∧
      (∀ before primary after, sketches = before ++ primary :: after →
        primary.isPrimary = true → (∀ sketch ∈ before ++ after, sketch.isPrimary = false) →
          document.selfIncludes =
            primary.selfInclude :: (before ++ after).map Sketch.selfInclude) ∧
      ((∀ sketch ∈ sketches, sketch.isPrimary = false) →
        document.selfIncludes = sketches.map Sketch.selfInclude) := by
  have hstart : AreSelfIncludes [] (start settings instant).selfIncludes :=
    ⟨[], ⟨.nil, .nil, rfl⟩, rfl⟩
  obtain ⟨ordered, hordered, hlines⟩ := areSelfIncludes_foldl_add hstart index sketches
  rw [List.nil_append] at hordered
  refine ⟨_, assemble_eq_foldl settings index instant hne, rfl, ⟨ordered, hordered, hlines⟩,
    ?_, ?_, ?_⟩
  · rw [hlines]
    exact hordered.perm.map _
  · intro before primary after hsketches hprimary hothers
    rw [hsketches] at hordered
    rw [hlines, hordered.eq_cons hprimary hothers]
    rfl
  · intro hnone
    rw [hlines, hordered.eq_self hnone]

theorem assemble_primaryFirst_mixed : mixedSketches ≠ [] ∧
    ∃ document, assemble {} mixedSketches mixedIndex ⟨0, 0, 0⟩ = some document ∧
      document.selfIncludes = ["#include \"Blink.ino\"", "#include \"helpers.pde\""] := by
  have hne : mixedSketches ≠ [] := List.cons_ne_nil _ _
  obtain ⟨document, hdocument, -, -, -, hsole, -⟩ :=
    assemble_primaryFirst {} mixedSketches mixedIndex ⟨0, 0, 0⟩ hne
  refine ⟨hne, document, hdocument, ?_⟩
  rw [hsole [⟨"helpers.pde", false, none⟩] ⟨"Blink.ino", true, none⟩ [] rfl rfl (by simp)]
  decide

end Sketchbook.Document
