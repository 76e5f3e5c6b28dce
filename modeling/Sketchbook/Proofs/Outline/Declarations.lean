import Sketchbook.Outline
import Sketchbook.Proofs.SyntaxTree.Place

/-! Which nodes of a syntax tree are declared, told by where they stand. -/
namespace Sketchbook.Outline

def parentKind (rootKind : String) : (ancestors : List Place) → String
  | [] => rootKind
  | parent :: _ => parent.node.kind

/-- The nodes between the place and the root are conditionals. The node itself is none, is no
preprocessor line and no comment. Unless it stands in a translation unit, it is not the first
child of its parent to have the field name or the field condition. -/
def IsDeclared (rootKind : String) (p : Place) : Prop :=
  (∀ a ∈ p.ancestors, a.node.kind = "preproc_if" ∨ a.node.kind = "preproc_ifdef") ∧
  p.node.kind ≠ "preproc_if" ∧ p.node.kind ≠ "preproc_ifdef" ∧
  ¬ "preproc_".toList <+: p.node.kind.toList ∧ p.node.kind ≠ "comment" ∧
  (parentKind rootKind p.ancestors = "translation_unit" ∨ ¬ p.IsFirst "name" ∧ ¬ p.IsFirst "condition")

instance (rootKind : String) (p : Place) : Decidable (IsDeclared rootKind p) :=
  inferInstanceAs (Decidable (_ ∧ _))

def literalAmong (text : String) (nodes : List SyntaxNode) : String :=
  match nodes.find? (·.field == some "value") with
  | some value =>
    String.ofList (Text.dropRightWhile (· == '"')
      ((slice text value.startByte value.endByte).toList.dropWhile (· == '"')))
  | none => ""

def literalAt (text : String) (p : Place) : String := literalAmong text p.children

def declarationAt (file text : String) (p : Place) : Declaration where
  kind :=
    if p.node.kind = "function_definition" then .functionDefinition
    else if p.node.kind = "linkage_specification" then .linkageSpecification (literalAt text p)
    else .other
  raw := String.ofList (Text.trimRight (slice text p.node.startByte p.node.endByte).toList)
  startLine := UInt32.ofNat (min (p.node.startRow + 1) 4294967295)
  endLine := UInt32.ofNat (min (p.node.endRow + 1) 4294967295)
  containingFile := file

theorem declarationAt_eq {file text : String} {p : Place} {children : SyntaxForest}
    (h : p.children = children.roots) :
    declarationAt file text p = declaration file text p.node children := by
  have hliteral : literalAt text p = linkageLiteral text children :=
    congrArg (literalAmong text) h
  simp only [declarationAt, declaration, declarationKind, nodeText, lineOfRow, hliteral]

theorem isFirst_iff_isHeader (p : Place) : (p.IsFirst "name" ∨ p.IsFirst "condition") ↔
    isHeader (p.elders.map (·.field)) p.node.field = true := by
  have hfirst (field : String) : p.IsFirst field ↔
      p.node.field = some field ∧ (p.elders.map (·.field)).contains (some field) = false := by
    simp [Place.IsFirst]
  rw [hfirst, hfirst, isHeader]
  constructor
  · intro h
    cases h with
    | inl h => rw [h.1, h.2]; rfl
    | inr h => rw [h.1, h.2]; rfl
  · intro h
    simp only [Bool.and_eq_true, Bool.or_eq_true, beq_iff_eq, Bool.not_eq_true'] at h
    cases h.1 with
    | inl hf => exact .inl ⟨hf, hf ▸ h.2⟩
    | inr hf => exact .inr ⟨hf, hf ▸ h.2⟩

theorem isConditional_iff (kind : String) :
    isConditional kind = true ↔ kind = "preproc_if" ∨ kind = "preproc_ifdef" := by
  simp [isConditional]

theorem isNoDeclaration_iff (kind : String) :
    isNoDeclaration kind = true ↔ "preproc_".toList <+: kind.toList ∨ kind = "comment" := by
  rw [isNoDeclaration, Bool.or_eq_true, List.isPrefixOf_iff_prefix, beq_iff_eq]

theorem IsDeclared.reached {rootKind : String} {p : Place} (h : IsDeclared rootKind p) :
    ∀ a ∈ p.ancestors, isConditional a.node.kind = true :=
  fun a ha => (isConditional_iff _).mpr (h.1 a ha)

/-- The tests of the walk in the order they are made, for a node that is reached. -/
theorem isDeclared_iff (rootKind : String) {p : Place}
    (h : ∀ a ∈ p.ancestors, isConditional a.node.kind = true) :
    IsDeclared rootKind p ↔ isConditional p.node.kind = false ∧
      isNoDeclaration p.node.kind = false ∧
      ¬ (parentKind rootKind p.ancestors ≠ "translation_unit" ∧
        isHeader (p.elders.map (·.field)) p.node.field = true) := by
  have hpath : ∀ a ∈ p.ancestors, a.node.kind = "preproc_if" ∨ a.node.kind = "preproc_ifdef" :=
    fun a ha => (isConditional_iff _).mp (h a ha)
  rw [IsDeclared, ← isFirst_iff_isHeader, ← Bool.not_eq_true, ← Bool.not_eq_true,
    isConditional_iff, isNoDeclaration_iff]
  grind

variable (file text rootKind : String)

/-- What the walk makes of a node that is reached and is no conditional. -/
theorem declared_eq {p : Place} {children : SyntaxForest}
    (h : ∀ a ∈ p.ancestors, isConditional a.node.kind = true)
    (hcond : isConditional p.node.kind = false) (hchildren : p.children = children.roots) :
    (if isNoDeclaration p.node.kind = true then []
      else if parentKind rootKind p.ancestors ≠ "translation_unit" ∧
        isHeader (p.elders.map (·.field)) p.node.field = true then []
      else [declaration file text p.node children]) =
      if IsDeclared rootKind p then [declarationAt file text p] else [] := by
  have hdeclared := isDeclared_iff rootKind h
  rw [declarationAt_eq hchildren]
  by_cases hno : isNoDeclaration p.node.kind = true
  · rw [if_pos hno, if_neg (by simp [hdeclared, hno])]
  rw [if_neg hno]
  by_cases hheader : parentKind rootKind p.ancestors ≠ "translation_unit" ∧
      isHeader (p.elders.map (·.field)) p.node.field = true
  · rw [if_pos hheader, if_neg fun hd => (hdeclared.mp hd).2.2 hheader]
  · rw [if_neg hheader, if_pos (hdeclared.mpr ⟨hcond, Bool.eq_false_iff.mpr hno, hheader⟩)]

/-- The walk over a forest that stands in a listing, at whatever depth. -/
theorem declarations_eq_filter_places (forest : SyntaxForest) (depth : Nat)
    (above below : List (Nat × SyntaxNode)) (hbelow : ∀ e ∈ below.head?, e.1 ≤ depth)
    (hpath : ∀ a ∈ ancestorsOf depth above (forest.listing depth ++ below),
      isConditional a.node.kind = true) :
    ((places above (forest.listing depth ++ below)).filter (IsDeclared rootKind ·)).map
        (declarationAt file text) =
      declarations file text
        (parentKind rootKind (ancestorsOf depth above (forest.listing depth ++ below)))
        ((eldersOf depth above).map (·.field)) forest ++
      ((places ((forest.listing depth).reverse ++ above) below).filter (IsDeclared rootKind ·)).map
        (declarationAt file text) := by
  induction forest generalizing depth above below with
  | nil => rfl
  | cons node children rest ihChildren ihRest =>
    have hbeside : ∀ e ∈ (rest.listing depth ++ below).head?, e.1 ≤ depth :=
      SyntaxForest.depth_le_of_head rest depth below hbelow
    have hchildren := ihChildren (depth + 1) ((depth, node) :: above)
      (rest.listing depth ++ below) (fun e he => Nat.le_succ_of_le (hbeside e he))
    have hrest := ihRest depth ((children.listing (depth + 1)).reverse ++ (depth, node) :: above)
      below hbelow
    rw [ancestorsOf_rest, eldersOf_rest] at hrest
    rw [ancestorsOf_children, eldersOf_children] at hchildren
    rw [places_cons, reverse_listing_cons_append, declarations, List.append_assoc,
      ← List.map_cons, ← hrest hpath, List.filter_cons]
    have hancestors := Place.ancestors_eq children rest node depth above below
    by_cases hcond : isConditional node.kind = true
    · have hnot : ¬ IsDeclared rootKind ⟨above, depth, node,
          children.listing (depth + 1) ++ (rest.listing depth ++ below)⟩ := by
        rw [isDeclared_iff rootKind (hancestors ▸ hpath)]
        simp [hcond]
      rw [if_pos hcond, if_neg (by simp [hnot]), hchildren]
      · rfl
      · exact List.forall_mem_cons.mpr ⟨hcond, hpath⟩
    · have hnode := declared_eq file text rootKind (hancestors ▸ hpath)
        (Bool.eq_false_iff.mpr hcond)
        (Place.children_eq children rest node depth above below hbelow)
      rw [hancestors] at hnode
      rw [if_neg hcond, filter_places_of_stop (depth + 1) _ _ (fun n => isConditional n.kind)
        (fun p hp => (of_decide_eq_true hp).reached) children
        (Bool.eq_false_iff.mpr hcond)
        (by rw [ancestorsOf_children]; exact List.mem_cons_self)]
      refine Eq.trans ?_ (congrArg (· ++ _) hnode.symm)
      simp only [decide_eq_true_eq]
      split <;> rfl

theorem unit_declarations_eq (tree : SyntaxTree) : (unit file text tree).declarations =
    (tree.places.filter (IsDeclared tree.rootKind ·)).map (declarationAt file text) := by
  have h := declarations_eq_filter_places file text tree.rootKind tree.children 1 [] []
    (by simp) (by simp [ancestorsOf])
  simpa [SyntaxTree.places, unit, places, ancestorsOf, eldersOf, parentKind] using h.symm

/-- The declarations are exactly the nodes that are declared, each once and in pre-order. In a later
branch of a conditional, or within any other node, nothing is. -/
theorem declarations_unit (tree : SyntaxTree) :
    tree.places.map Place.entry = tree.children.listing 1 ∧
    (unit file text tree).declarations =
      (tree.places.filter (IsDeclared tree.rootKind ·)).map (declarationAt file text) :=
  ⟨map_entry_places _ _, unit_declarations_eq file text tree⟩

end Sketchbook.Outline
