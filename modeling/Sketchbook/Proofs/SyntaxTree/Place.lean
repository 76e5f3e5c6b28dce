import Sketchbook.SyntaxTree

/-! Places in a listing of a syntax tree: a node with all that is listed before and behind it.
What a node has to do with other nodes is read off the depths alone. The parent is the nearest
node before it that is less deep, and its children are the nodes one deeper in the run of deeper
nodes behind it. -/
namespace Sketchbook

/-- `above` are the nodes before the place, the nearest first; `below` are the nodes behind. -/
structure Place where
  above : List (Nat × SyntaxNode)
  depth : Nat
  node : SyntaxNode
  below : List (Nat × SyntaxNode)
  deriving DecidableEq, Repr

def places (above : List (Nat × SyntaxNode)) : List (Nat × SyntaxNode) → List Place
  | [] => []
  | (depth, node) :: below =>
    ⟨above, depth, node, below⟩ :: places ((depth, node) :: above) below

def ancestorsOf (depth : Nat) : (above below : List (Nat × SyntaxNode)) → List Place
  | [], _ => []
  | (d, node) :: above, below =>
    if d < depth then ⟨above, d, node, below⟩ :: ancestorsOf d above ((d, node) :: below)
    else ancestorsOf depth above ((d, node) :: below)

def eldersOf (depth : Nat) (above : List (Nat × SyntaxNode)) : List SyntaxNode :=
  ((above.takeWhile (depth ≤ ·.1)).filter (·.1 = depth)).map (·.2)

namespace Place

def entry (p : Place) : Nat × SyntaxNode := (p.depth, p.node)

def ancestors (p : Place) : List Place := ancestorsOf p.depth p.above (p.entry :: p.below)

def children (p : Place) : List SyntaxNode :=
  ((p.below.takeWhile (p.depth < ·.1)).filter (·.1 = p.depth + 1)).map (·.2)

def elders (p : Place) : List SyntaxNode := eldersOf p.depth p.above

def IsFirst (p : Place) (field : String) : Prop :=
  p.node.field = some field ∧ ∀ elder ∈ p.elders, elder.field ≠ some field

instance (p : Place) (field : String) : Decidable (p.IsFirst field) :=
  inferInstanceAs (Decidable (_ ∧ _))

def listing (p : Place) : List (Nat × SyntaxNode) := p.above.reverse ++ p.entry :: p.below

end Place

def SyntaxTree.places (tree : SyntaxTree) : List Place :=
  Sketchbook.places [] (tree.children.listing 1)

theorem map_entry_places (above nodes : List (Nat × SyntaxNode)) :
    (places above nodes).map Place.entry = nodes := by
  induction nodes generalizing above with
  | nil => rfl
  | cons e nodes ih => rw [places, List.map_cons, ih]; rfl

theorem mem_places_iff {above nodes : List (Nat × SyntaxNode)} {p : Place} :
    p ∈ places above nodes ↔
      ∃ skipped, p.above = skipped.reverse ++ above ∧ skipped ++ p.entry :: p.below = nodes := by
  induction nodes generalizing above with
  | nil => simp [places]
  | cons e nodes ih =>
    rw [places, List.mem_cons, ih]
    constructor
    · intro h
      cases h with
      | inl hp => exact ⟨[], by rw [hp]; rfl, by rw [hp]; rfl⟩
      | inr hrest =>
        obtain ⟨skipped, habove, hnodes⟩ := hrest
        exact ⟨e :: skipped, by simp [habove], by rw [List.cons_append, hnodes]⟩
    · intro h
      obtain ⟨skipped, habove, hnodes⟩ := h
      cases skipped with
      | nil =>
        left
        obtain ⟨rfl, rfl⟩ := List.cons.inj hnodes
        cases p
        cases habove
        rfl
      | cons f skipped =>
        right
        obtain ⟨rfl, hrest⟩ := List.cons.inj hnodes
        exact ⟨skipped, by simpa using habove, hrest⟩

theorem mem_places {nodes : List (Nat × SyntaxNode)} {p : Place} :
    p ∈ places [] nodes ↔ p.listing = nodes := by
  rw [mem_places_iff]
  constructor
  · intro h
    obtain ⟨skipped, habove, hnodes⟩ := h
    rw [Place.listing, habove, List.append_nil, List.reverse_reverse, hnodes]
  · intro h
    exact ⟨p.above.reverse, by simp, h⟩

theorem listing_of_mem_ancestorsOf {depth : Nat} {above below : List (Nat × SyntaxNode)}
    {p : Place} (h : p ∈ ancestorsOf depth above below) : p.listing = above.reverse ++ below := by
  induction above generalizing depth below with
  | nil => simp [ancestorsOf] at h
  | cons e above ih =>
    rw [ancestorsOf] at h
    split at h
    · cases List.mem_cons.mp h with
      | inl hp => simp [hp, Place.listing, Place.entry]
      | inr hp => simpa using ih hp
    · simpa using ih h

theorem mem_places_of_mem_ancestors {nodes : List (Nat × SyntaxNode)} {p a : Place}
    (hp : p ∈ places [] nodes) (ha : a ∈ p.ancestors) : a ∈ places [] nodes := by
  rw [mem_places] at hp ⊢
  rw [listing_of_mem_ancestorsOf ha, ← hp]
  rfl

theorem ancestors_of_ancestors_eq_cons {p a : Place} {outer : List Place}
    (h : p.ancestors = a :: outer) : a.ancestors = outer := by
  have hgen (depth : Nat) (above below : List (Nat × SyntaxNode))
      (h : ancestorsOf depth above below = a :: outer) : a.ancestors = outer := by
    induction above generalizing depth below with
    | nil => simp [ancestorsOf] at h
    | cons e above ih =>
      rw [ancestorsOf] at h
      split at h
      · obtain ⟨rfl, rfl⟩ := List.cons.inj h
        rfl
      · exact ih _ _ h
  exact hgen _ _ _ h

/-- Nodes that are no less deep are passed over on the way to the parent. -/
theorem ancestorsOf_append {depth : Nat} {skipped : List (Nat × SyntaxNode)}
    (h : ∀ e ∈ skipped, depth ≤ e.1) (above below : List (Nat × SyntaxNode)) :
    ancestorsOf depth (skipped.reverse ++ above) below =
      ancestorsOf depth above (skipped ++ below) := by
  induction skipped generalizing above with
  | nil => rfl
  | cons e skipped ih =>
    have he : ¬ e.1 < depth := Nat.not_lt.mpr (h e List.mem_cons_self)
    rw [List.reverse_cons, List.append_assoc, List.singleton_append,
      ih (fun f hf => h f (List.mem_cons_of_mem e hf)), ancestorsOf, if_neg he]
    rfl

/-! Walks over a forest that stands in a listing with `above` before it and `below` behind. -/

variable (children rest : SyntaxForest) (node : SyntaxNode) (depth : Nat)
  (above below : List (Nat × SyntaxNode))

theorem SyntaxForest.listing_cons_append :
    (SyntaxForest.cons node children rest).listing depth ++ below =
      (depth, node) :: (children.listing (depth + 1) ++ (rest.listing depth ++ below)) := by
  rw [SyntaxForest.listing, List.append_assoc, List.cons_append]

theorem ancestorsOf_children :
    ancestorsOf (depth + 1) ((depth, node) :: above)
        (children.listing (depth + 1) ++ (rest.listing depth ++ below)) =
      ⟨above, depth, node, children.listing (depth + 1) ++ (rest.listing depth ++ below)⟩ ::
        ancestorsOf depth above
          ((SyntaxForest.cons node children rest).listing depth ++ below) := by
  rw [ancestorsOf, if_pos (Nat.lt_succ_self depth), SyntaxForest.listing_cons_append]

theorem ancestorsOf_rest :
    ancestorsOf depth ((children.listing (depth + 1)).reverse ++ (depth, node) :: above)
        (rest.listing depth ++ below) =
      ancestorsOf depth above
        ((SyntaxForest.cons node children rest).listing depth ++ below) := by
  have hdeep : ∀ e ∈ (depth, node) :: children.listing (depth + 1), depth ≤ e.1 :=
    List.forall_mem_cons.mpr ⟨Nat.le_refl depth,
      fun _ he => Nat.le_of_succ_le (SyntaxForest.depth_le_of_mem_listing he)⟩
  have h := ancestorsOf_append hdeep above (rest.listing depth ++ below)
  simpa [SyntaxForest.listing] using h

theorem Place.ancestors_eq :
    (Place.mk above depth node
      (children.listing (depth + 1) ++ (rest.listing depth ++ below))).ancestors =
      ancestorsOf depth above
        ((SyntaxForest.cons node children rest).listing depth ++ below) := by
  rw [SyntaxForest.listing_cons_append]
  rfl

/-- The walk over one node: the node, then its children, then the nodes beside it. -/
theorem places_cons :
    places above ((SyntaxForest.cons node children rest).listing depth ++ below) =
      ⟨above, depth, node, children.listing (depth + 1) ++ (rest.listing depth ++ below)⟩ ::
        places ((depth, node) :: above)
          (children.listing (depth + 1) ++ (rest.listing depth ++ below)) := by
  rw [SyntaxForest.listing_cons_append, places]

theorem reverse_listing_cons_append :
    ((SyntaxForest.cons node children rest).listing depth).reverse ++ above =
      (rest.listing depth).reverse ++
        ((children.listing (depth + 1)).reverse ++ (depth, node) :: above) := by
  simp [SyntaxForest.listing]

omit children rest node in
/-- Nothing is kept below a node that is not entered. -/
theorem filter_places_of_stop {keep : Place → Bool} (enters : SyntaxNode → Bool)
    (hkeep : ∀ p, keep p = true → ∀ a ∈ p.ancestors, enters a.node = true)
    (forest : SyntaxForest) {a : Place} (hstop : enters a.node = false)
    (ha : a ∈ ancestorsOf depth above (forest.listing depth ++ below)) :
    (places above (forest.listing depth ++ below)).filter keep =
      (places ((forest.listing depth).reverse ++ above) below).filter keep := by
  induction forest generalizing depth above below with
  | nil => rfl
  | cons node children rest ihChildren ihRest =>
    have hnode : keep ⟨above, depth, node,
        children.listing (depth + 1) ++ (rest.listing depth ++ below)⟩ = false := by
      rw [Bool.eq_false_iff]
      intro hk
      rw [SyntaxForest.listing_cons_append] at ha
      exact absurd (hkeep _ hk a ha) (by simp [hstop])
    rw [places_cons, List.filter_cons, if_neg (by simp [hnode]),
      ihChildren (depth + 1) _ _ (by rw [ancestorsOf_children]; exact List.mem_cons_of_mem _ ha),
      ihRest depth _ _ (by rw [ancestorsOf_rest]; exact ha), reverse_listing_cons_append]

/-! Relations to other nodes. -/

/-- A forest and what stands behind it begins no deeper than the forest. -/
theorem SyntaxForest.depth_le_of_head (hbelow : ∀ e ∈ below.head?, e.1 ≤ depth) :
    ∀ e ∈ (rest.listing depth ++ below).head?, e.1 ≤ depth := by
  cases rest with
  | nil => exact hbelow
  | cons => simp [SyntaxForest.listing]

theorem SyntaxForest.takeWhile_listing (hbelow : ∀ e ∈ below.head?, e.1 ≤ depth) :
    (children.listing (depth + 1) ++ (rest.listing depth ++ below)).takeWhile (depth < ·.1) =
      children.listing (depth + 1) := by
  have hdeep : ∀ e ∈ children.listing (depth + 1), decide (depth < e.1) = true :=
    fun e he => decide_eq_true (SyntaxForest.depth_le_of_mem_listing he)
  have hend : (rest.listing depth ++ below).takeWhile (depth < ·.1) = [] := by
    cases rest with
    | cons => simp [SyntaxForest.listing]
    | nil =>
      cases below with
      | nil => rfl
      | cons e below => simp [SyntaxForest.listing, hbelow e rfl]
  rw [List.takeWhile_append_of_pos hdeep, hend, List.append_nil]

theorem SyntaxForest.roots_eq (forest : SyntaxForest) :
    ((forest.listing depth).filter (·.1 = depth)).map (·.2) = forest.roots := by
  induction forest with
  | nil => rfl
  | cons node children rest _ ihRest =>
    have hdeep : (children.listing (depth + 1)).filter (·.1 = depth) = [] := by
      rw [List.filter_eq_nil_iff]
      intro e he
      have := SyntaxForest.depth_le_of_mem_listing he
      simp only [decide_eq_true_eq]
      omega
    simp only [SyntaxForest.listing, List.cons_append, List.filter_cons, List.filter_append,
      hdeep, List.nil_append, decide_true, if_true, List.map_cons, ihRest, SyntaxForest.roots]

theorem Place.children_eq (hbelow : ∀ e ∈ below.head?, e.1 ≤ depth) :
    (Place.mk above depth node
      (children.listing (depth + 1) ++ (rest.listing depth ++ below))).children =
      children.roots := by
  rw [Place.children, SyntaxForest.takeWhile_listing children rest depth below hbelow,
    SyntaxForest.roots_eq]

theorem eldersOf_children : eldersOf (depth + 1) ((depth, node) :: above) = [] := by
  simp [eldersOf]

theorem eldersOf_rest :
    eldersOf depth ((children.listing (depth + 1)).reverse ++ (depth, node) :: above) =
      node :: eldersOf depth above := by
  have hdeep : ∀ e ∈ (children.listing (depth + 1)).reverse, decide (depth ≤ e.1) = true :=
    fun e he => decide_eq_true (Nat.le_of_succ_le
      (SyntaxForest.depth_le_of_mem_listing (List.mem_reverse.mp he)))
  have hnone : (children.listing (depth + 1)).reverse.filter (·.1 = depth) = [] := by
    rw [List.filter_eq_nil_iff]
    intro e he
    have := SyntaxForest.depth_le_of_mem_listing (List.mem_reverse.mp he)
    simp only [decide_eq_true_eq]
    omega
  rw [eldersOf, List.takeWhile_append_of_pos hdeep, List.filter_append, hnone]
  simp [eldersOf]

end Sketchbook
