import Sketchbook.Outline
import Sketchbook.Proofs.StableSort
import Sketchbook.Proofs.SyntaxTree.Place

/-! Which directives of a syntax tree are listed, told by where they stand, and in which order. -/
namespace Sketchbook

/-- `sorted` are the same directives in ascending order of their lines. Those of one line stand in
the order they had. -/
structure IsSortedByLine (directives sorted : List Directive) : Prop where
  perm : sorted.Perm directives
  ascending : sorted.Pairwise (·.line ≤ ·.line)
  stable : ∀ line, sorted.filter (·.line = line) = directives.filter (·.line = line)

theorem isSortedByLine_sortByLine (directives : List Directive) :
    IsSortedByLine directives (sortByLine directives) := by
  have htrans (a b c : Directive) (hab : decide (a.line ≤ b.line) = true)
      (hbc : decide (b.line ≤ c.line) = true) : decide (a.line ≤ c.line) = true :=
    decide_eq_true (UInt32.le_trans (of_decide_eq_true hab) (of_decide_eq_true hbc))
  have htotal (a b : Directive) :
      (decide (a.line ≤ b.line) || decide (b.line ≤ a.line)) = true := by
    simpa using UInt32.le_total a.line b.line
  refine ⟨List.mergeSort_perm _ _, ?_, ?_⟩
  · exact (List.pairwise_mergeSort htrans htotal directives).imp of_decide_eq_true
  · intro line
    refine filter_mergeSort htrans htotal (fun a b ha hb => ?_) directives
    rw [of_decide_eq_true ha, of_decide_eq_true hb]
    exact decide_eq_true (UInt32.le_refl line)

theorem line_le_of_mem {first directive : Directive} {rest : List Directive}
    (h : (first :: rest).Pairwise (·.line ≤ ·.line)) (hmem : directive ∈ first :: rest) :
    first.line ≤ directive.line := by
  cases List.mem_cons.mp hmem with
  | inl hfirst => exact hfirst ▸ UInt32.le_refl _
  | inr hrest => exact (List.pairwise_cons.mp h).1 directive hrest

theorem mem_iff_of_filter_line_eq {directives others : List Directive}
    (h : ∀ line, directives.filter (·.line = line) = others.filter (·.line = line))
    (directive : Directive) : directive ∈ directives ↔ directive ∈ others := by
  have hline := congrArg (directive ∈ ·) (h directive.line)
  simpa using hline

/-- Ascending lists with the same directives on every line are equal. -/
theorem eq_of_filter_line_eq {sorted other : List Directive}
    (hsorted : sorted.Pairwise (·.line ≤ ·.line)) (hother : other.Pairwise (·.line ≤ ·.line))
    (hsame : ∀ line, sorted.filter (·.line = line) = other.filter (·.line = line)) :
    sorted = other := by
  have hmem := mem_iff_of_filter_line_eq hsame
  induction sorted generalizing other with
  | nil =>
    cases other with
    | nil => rfl
    | cons b other => simpa using (hmem b).mpr List.mem_cons_self
  | cons a sorted ih =>
    cases other with
    | nil => simpa using (hmem a).mp List.mem_cons_self
    | cons b other =>
      have hline : a.line = b.line := UInt32.le_antisymm
        (line_le_of_mem hsorted ((hmem b).mpr List.mem_cons_self))
        (line_le_of_mem hother ((hmem a).mp List.mem_cons_self))
      -- both stand first among the directives of their line
      have hhead : a = b := by
        have h := hsame a.line
        simp only [List.filter_cons, hline, decide_true, if_true] at h
        exact (List.cons.inj h).1
      subst hhead
      have htail (line : LineNumber) :
          sorted.filter (·.line = line) = other.filter (·.line = line) := by
        have h := hsame line
        by_cases hown : a.line = line <;> simpa [List.filter_cons, hown] using h
      exact congrArg (a :: ·)
        (ih hsorted.of_cons hother.of_cons htail (mem_iff_of_filter_line_eq htail))

/-- There is only one way to arrange directives by line that keeps those of one line in order. -/
theorem IsSortedByLine.unique {directives sorted other : List Directive}
    (h : IsSortedByLine directives sorted) (hother : IsSortedByLine directives other) :
    sorted = other :=
  eq_of_filter_line_eq h.ascending hother.ascending fun line =>
    (h.stable line).trans (hother.stable line).symm

theorem IsSortedByLine.filter {directives sorted : List Directive}
    (h : IsSortedByLine directives sorted) (p : Directive → Bool) :
    IsSortedByLine (directives.filter p) (sorted.filter p) where
  perm := h.perm.filter p
  ascending := h.ascending.filter p
  stable line := by
    have hline := congrArg (List.filter p) (h.stable line)
    simpa only [List.filter_filter, Bool.and_comm] using hline

namespace Outline

/-- The node is of one of the kinds and lies neither in the body of a function nor in another
directive. -/
def IsCollected (kinds : List String) (p : Place) : Prop :=
  p.node.kind ∈ kinds ∧ ∀ a ∈ p.ancestors, a.node.kind ∉
    ["function_definition", "preproc_include", "preproc_def", "preproc_function_def"]

instance (kinds : List String) (p : Place) : Decidable (IsCollected kinds p) :=
  inferInstanceAs (Decidable (_ ∧ _))

def directiveAt (text : String) (p : Place) : Directive where
  raw := String.ofList (Text.trimRight (slice text p.node.startByte p.node.endByte).toList)
  line := UInt32.ofNat (min (p.node.startRow + 1) 4294967295)

def isEntered (kind : String) : Bool :=
  !(isInclude kind || isMacro kind) && kind != "function_definition"

theorem isEntered_iff (kind : String) : isEntered kind = true ↔ kind ∉
    ["function_definition", "preproc_include", "preproc_def", "preproc_function_def"] := by
  grind [isEntered, isInclude, isMacro]

variable {wanted : String → Bool} {kinds : List String} (text : String)

theorem IsCollected.reached {p : Place} (h : IsCollected kinds p) :
    ∀ a ∈ p.ancestors, isEntered a.node.kind = true :=
  fun a ha => (isEntered_iff _).mpr (h.2 a ha)

theorem isCollected_iff (hkinds : ∀ kind, wanted kind = true ↔ kind ∈ kinds) {p : Place}
    (h : ∀ a ∈ p.ancestors, isEntered a.node.kind = true) :
    IsCollected kinds p ↔ wanted p.node.kind = true := by
  rw [IsCollected, hkinds]
  exact and_iff_left fun a ha => (isEntered_iff _).mp (h a ha)

theorem not_isEntered_of_wanted
    (hwanted : ∀ kind, wanted kind = true → isInclude kind = true ∨ isMacro kind = true)
    {kind : String} (h : wanted kind = true) : ¬ isEntered kind = true := by
  cases hwanted kind h with
  | inl h => simp [isEntered, h]
  | inr h => simp [isEntered, h]

/-- A node is looked into or may be a directive itself, but never both. -/
theorem directives_cons
    (hwanted : ∀ kind, wanted kind = true → isInclude kind = true ∨ isMacro kind = true)
    (node : SyntaxNode) (children rest : SyntaxForest) :
    directives text wanted (.cons node children rest) =
      (if isEntered node.kind = true then directives text wanted children
        else if wanted node.kind = true then [directive text node] else []) ++
      directives text wanted rest := by
  rw [directives]
  congr 1
  by_cases hdirective : (isInclude node.kind || isMacro node.kind) = true
  · simp [isEntered, hdirective]
  · have hnot : ¬ wanted node.kind = true := fun h =>
      hdirective ((Bool.or_eq_true _ _).mpr (hwanted _ h))
    by_cases hfunction : node.kind = "function_definition"
    · simp [isEntered, hfunction, hfunction ▸ hnot]
    · simp [isEntered, hdirective, hfunction]

/-- The walk over a forest that stands in a listing, at whatever depth. -/
theorem directives_eq_filter_places (hkinds : ∀ kind, wanted kind = true ↔ kind ∈ kinds)
    (hwanted : ∀ kind, wanted kind = true → isInclude kind = true ∨ isMacro kind = true)
    (forest : SyntaxForest) (depth : Nat) (above below : List (Nat × SyntaxNode))
    (hpath : ∀ a ∈ ancestorsOf depth above (forest.listing depth ++ below),
      isEntered a.node.kind = true) :
    ((places above (forest.listing depth ++ below)).filter (IsCollected kinds ·)).map
        (directiveAt text) =
      directives text wanted forest ++
      ((places ((forest.listing depth).reverse ++ above) below).filter (IsCollected kinds ·)).map
        (directiveAt text) := by
  induction forest generalizing depth above below with
  | nil => rfl
  | cons node children rest ihChildren ihRest =>
    have hchildren := ihChildren (depth + 1) ((depth, node) :: above) (rest.listing depth ++ below)
    have hrest := ihRest depth ((children.listing (depth + 1)).reverse ++ (depth, node) :: above)
      below
    rw [ancestorsOf_rest] at hrest
    rw [ancestorsOf_children] at hchildren
    have hnode := isCollected_iff hkinds
      (Place.ancestors_eq children rest node depth above below ▸ hpath)
    rw [places_cons, reverse_listing_cons_append, directives_cons text hwanted,
      List.append_assoc, ← hrest hpath, List.filter_cons]
    by_cases henter : isEntered node.kind = true
    · rw [if_pos henter, if_neg, hchildren]
      · exact List.forall_mem_cons.mpr ⟨henter, hpath⟩
      · rw [decide_eq_true_eq, hnode]
        exact fun h => not_isEntered_of_wanted hwanted h henter
    · rw [if_neg henter, filter_places_of_stop (depth + 1) _ _ (fun n => isEntered n.kind)
        (fun p hp => (of_decide_eq_true hp).reached) children
        (Bool.eq_false_iff.mpr henter)
        (by rw [ancestorsOf_children]; exact List.mem_cons_self)]
      by_cases h : wanted node.kind = true
      · rw [if_pos h, if_pos (by simp [hnode, h])]
        rfl
      · rw [if_neg h, if_neg (by simp [hnode, h])]
        rfl

theorem filter_places_eq_directives (hkinds : ∀ kind, wanted kind = true ↔ kind ∈ kinds)
    (hwanted : ∀ kind, wanted kind = true → isInclude kind = true ∨ isMacro kind = true)
    (tree : SyntaxTree) :
    (tree.places.filter (IsCollected kinds ·)).map (directiveAt text) =
      directives text wanted tree.children := by
  have h := directives_eq_filter_places text hkinds hwanted tree.children 1 [] []
    (by simp [ancestorsOf])
  simpa [SyntaxTree.places, places] using h

theorem isSortedByLine_includes (file : String) (tree : SyntaxTree) :
    IsSortedByLine ((tree.places.filter (IsCollected ["preproc_include"] ·)).map
        (directiveAt text))
      (unit file text tree).includes := by
  rw [@filter_places_eq_directives isInclude _ text (by simp [isInclude]) (fun _ h => .inl h)]
  exact isSortedByLine_sortByLine _

theorem isSortedByLine_macros (file : String) (tree : SyntaxTree) :
    IsSortedByLine ((tree.places.filter
        (IsCollected ["preproc_def", "preproc_function_def"] ·)).map (directiveAt text))
      (unit file text tree).macros := by
  rw [@filter_places_eq_directives isMacro _ text (by simp [isMacro]) (fun _ h => .inr h)]
  exact isSortedByLine_sortByLine _

/-- The includes are the nodes that are collected as includes, in order of their lines and one for
each node, and the macros those that are collected as macros. -/
theorem directives_unit (file text : String) (tree : SyntaxTree) :
    tree.places.map Place.entry = tree.children.listing 1 ∧
    IsSortedByLine ((tree.places.filter (IsCollected ["preproc_include"] ·)).map
        (directiveAt text))
      (unit file text tree).includes ∧
    IsSortedByLine ((tree.places.filter
        (IsCollected ["preproc_def", "preproc_function_def"] ·)).map (directiveAt text))
      (unit file text tree).macros :=
  ⟨map_entry_places _ _, isSortedByLine_includes text file tree,
    isSortedByLine_macros text file tree⟩

end Outline

end Sketchbook
