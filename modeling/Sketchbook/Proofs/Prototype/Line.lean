import Sketchbook.Proofs.Prototype.EndsInCode

/-! A prototype is a line. Cutting and trimming only take characters away, and the text they
work on has no line feeds left. -/
namespace Sketchbook
open Source Text

namespace Source

theorem afterLiteral_suffix (quote : Char) (cs : List Char) : afterLiteral quote cs <:+ cs := by
  unfold afterLiteral
  split
  · next inner after h => exact ⟨inner, (closeLiteral_eq_append h).symm⟩
  · exact List.suffix_refl cs

theorem closeComment_suffix (cs : List Char) : (closeComment cs).2 <:+ cs :=
  ⟨(closeComment cs).1, closeComment_append cs⟩

theorem suffix_of_afterMatch {depth : Nat} {cs after : List Char}
    (h : afterMatch depth cs = some after) : after <:+ cs := by
  fun_induction afterMatch depth cs with
  | case1 => contradiction
  | case2 _ _ ih => exact (ih h).trans (List.suffix_cons _ _)
  | case3 =>
    cases h
    exact List.suffix_cons _ _
  | case4 _ _ _ _ ih => exact (ih h).trans (List.suffix_cons _ _)
  | case5 _ c rest _ _ _ ih =>
    exact ((ih h).trans (afterLiteral_suffix c rest)).trans (List.suffix_cons _ _)
  | case6 _ rest _ _ _ ih =>
    exact (((ih h).trans (closeComment_suffix rest)).trans (List.suffix_cons _ _)).trans
      (List.suffix_cons _ _)
  | case7 _ _ _ _ _ _ _ ih => exact (ih h).trans (List.suffix_cons _ _)

theorem suffix_of_afterLastBrace {cs after : List Char} (h : afterLastBrace cs = some after) :
    after <:+ cs := by
  induction cs with
  | nil => contradiction
  | cons c rest ih =>
    rw [afterLastBrace] at h
    cases hlast : afterLastBrace rest with
    | some last =>
      simp only [hlast, Option.some_or] at h
      exact (ih (hlast.trans h)).trans (List.suffix_cons _ _)
    | none =>
      simp only [hlast, Option.none_or] at h
      split at h
      · cases h
        exact List.suffix_cons _ _
      · contradiction

/-- Nothing but characters of the text is left when the body has been taken out. -/
theorem stripBody_subset (cs : List Char) : stripBody cs ⊆ cs := by
  unfold stripBody
  split
  · exact fun _ h => h
  · next brace inner hdrop =>
    have hinner : inner ⊆ cs := fun c hc =>
      (List.dropWhile_sublist _).subset (hdrop ▸ List.mem_cons_of_mem brace hc)
    split
    · next after hafter =>
      have hsuffix : after <:+ inner := by
        cases hmatch : afterMatch 1 inner with
        | some found =>
          rw [hmatch, Option.some_or] at hafter
          exact suffix_of_afterMatch (hmatch.trans hafter)
        | none =>
          rw [hmatch, Option.none_or] at hafter
          exact suffix_of_afterLastBrace hafter
      intro c hc
      cases List.mem_append.mp hc with
      | inl hc => exact (List.takeWhile_sublist _).subset hc
      | inr hc => exact hinner (hsuffix.subset hc)
    · exact fun _ h => h

end Source

theorem Text.trim_subset (cs : List Char) : trim cs ⊆ cs := by
  intro c hc
  obtain ⟨tail, htail, -⟩ := dropRightWhile_append isBlank (cs.dropWhile isBlank)
  have hkept : c ∈ cs.dropWhile isBlank := htail ▸ List.mem_append_left tail hc
  exact (List.dropWhile_sublist _).subset hkept

namespace Prototype

theorem lineFeed_not_mem_flatten (cs : List Char) : '\n' ∉ flatten cs := by
  intro h
  obtain ⟨c, -, hc⟩ := List.mem_map.mp h
  split at hc
  · contradiction
  · next hne => exact hne hc

theorem lineFeed_not_mem_signature (definition : List Char) : '\n' ∉ signature definition :=
  fun h => lineFeed_not_mem_flatten _ (stripBody_subset _ (trim_subset _ h))

/-- A prototype is a signature without line feeds and a semicolon behind it. -/
theorem exists_of_mem_all {declarations : List Declaration} {line : String}
    (h : line ∈ all declarations) : ∃ signature, '\n' ∉ signature ∧
      line.toList = signature ++ [';'] := by
  obtain ⟨declaration, -, hline⟩ := List.mem_filterMap.mp h
  exact ⟨_, lineFeed_not_mem_signature _, toList_of_ofDefinition? hline⟩

end Prototype

end Sketchbook
