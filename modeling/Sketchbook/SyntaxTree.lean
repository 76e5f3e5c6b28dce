/-! A syntax tree holds the named nodes of a parsed source file. It can be given as a listing
of its nodes in pre-order with their depths. -/
namespace Sketchbook

/-- A node spans the bytes from `startByte` up to `endByte`, on the rows from `startRow` to
`endRow` counted from zero. `field` is the role the node has in its parent. -/
structure SyntaxNode where
  kind : String
  field : Option String
  startByte : Nat
  endByte : Nat
  startRow : Nat
  endRow : Nat
  deriving DecidableEq, Repr

inductive SyntaxForest where
  | nil
  | cons (node : SyntaxNode) (children rest : SyntaxForest)
  deriving DecidableEq, Repr

structure SyntaxTree where
  rootKind : String
  children : SyntaxForest
  deriving DecidableEq, Repr

def SyntaxForest.roots : SyntaxForest → List SyntaxNode
  | .nil => []
  | .cons node _ rest => node :: rest.roots

def SyntaxForest.listing (depth : Nat) : SyntaxForest → List (Nat × SyntaxNode)
  | .nil => []
  | .cons node children rest =>
    (depth, node) :: children.listing (depth + 1) ++ rest.listing depth

/-- The children of a listed node are the deeper nodes that follow it. -/
def SyntaxForest.ofListing : List (Nat × SyntaxNode) → SyntaxForest
  | [] => .nil
  | (depth, node) :: rest =>
    .cons node (ofListing (rest.takeWhile (depth < ·.1)))
      (ofListing (rest.dropWhile (depth < ·.1)))
termination_by nodes => nodes.length
decreasing_by
  · exact Nat.lt_succ_of_le (List.takeWhile_sublist _).length_le
  · exact Nat.lt_succ_of_le (List.dropWhile_sublist _).length_le

def SyntaxTree.ofListing : List (Nat × SyntaxNode) → SyntaxTree
  | [] => ⟨"translation_unit", .nil⟩
  | (_, root) :: rest => ⟨root.kind, .ofListing rest⟩

theorem SyntaxForest.depth_le_of_mem_listing {forest : SyntaxForest} {depth : Nat}
    {entry : Nat × SyntaxNode} (h : entry ∈ forest.listing depth) : depth ≤ entry.1 := by
  induction forest generalizing depth with
  | nil => simp [listing] at h
  | cons node children rest ihChildren ihRest =>
    simp only [listing, List.cons_append, List.mem_cons, List.mem_append] at h
    rcases h with rfl | h | h
    · exact Nat.le_refl _
    · exact Nat.le_of_succ_le (ihChildren h)
    · exact ihRest h

/-- A forest is read back from its listing. -/
theorem SyntaxForest.ofListing_listing (forest : SyntaxForest) (depth : Nat) :
    ofListing (forest.listing depth) = forest := by
  induction forest generalizing depth with
  | nil => rw [listing, ofListing]
  | cons node children rest ihChildren ihRest =>
    have deeper : ∀ e ∈ children.listing (depth + 1), decide (depth < e.1) = true :=
      fun e he => decide_eq_true (depth_le_of_mem_listing he)
    have outer : (rest.listing depth).takeWhile (depth < ·.1) = [] ∧
        (rest.listing depth).dropWhile (depth < ·.1) = rest.listing depth := by
      cases rest <;> simp [listing]
    rw [listing, List.cons_append, ofListing, List.takeWhile_append_of_pos deeper,
      List.dropWhile_append_of_pos deeper, outer.1, outer.2, List.append_nil,
      ihChildren, ihRest]

end Sketchbook
