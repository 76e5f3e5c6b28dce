import Sketchbook.Proofs.Prototype.OneLine

/-! How the prototype of a complete definition ends. The body is cut out from the first brace of
the text on. If that brace stands in a literal or comment of the signature, the cut opens the
literal or comment, and all depends on the text behind the cut. -/
namespace Sketchbook.Prototype
open Source Text

def bodyCut? (cs : List Char) : Option (List Char × List Char) :=
  match cs.dropWhile (· ≠ openBrace) with
  | [] => none
  | _ :: inner =>
    ((afterMatch 1 inner).or (afterLastBrace inner)).map (cs.takeWhile (· ≠ openBrace), ·)

theorem stripBody_of_bodyCut? {cs before after : List Char}
    (h : bodyCut? cs = some (before, after)) : stripBody cs = before ++ after := by
  unfold bodyCut? at h
  split at h
  · contradiction
  · next hdrop =>
    obtain ⟨rest, hrest, heq⟩ := Option.map_eq_some_iff.mp h
    cases heq
    rw [stripBody, hdrop]
    simp only [hrest]

theorem bodyCut?_append {before : List Char} (h : openBrace ∉ before) (inner : List Char) :
    bodyCut? (before ++ openBrace :: inner) =
      ((afterMatch 1 inner).or (afterLastBrace inner)).map (before, ·) := by
  have hkeep : ∀ c ∈ before, decide (c ≠ openBrace) = true := by
    intro c hc
    exact decide_eq_true fun he => h (he ▸ hc)
  rw [bodyCut?, List.dropWhile_append_of_pos hkeep, List.takeWhile_append_of_pos hkeep]
  simp

theorem exists_afterLastBrace_append (cs : List Char) :
    ∃ after, afterLastBrace (cs ++ [closeBrace]) = some after := by
  induction cs with
  | nil => exact ⟨[], rfl⟩
  | cons c cs ih =>
    obtain ⟨after, h⟩ := ih
    exact ⟨after, by simp [afterLastBrace, h]⟩

/-- The whole body is cut out of a definition without open braces in its signature. -/
theorem bodyCut?_of_not_mem {sig body : List Char} (hsig : openBrace ∉ sig)
    (hbody : Complete false true body) :
    bodyCut? (sig ++ openBrace :: (body ++ [closeBrace])) = some (sig, []) := by
  have hmatch : afterMatch 1 (body ++ [closeBrace]) = some [] := by
    rw [hbody.afterMatch_append 0 (by simp [closeBrace]), afterMatch_close]
    rfl
  rw [bodyCut?_append hsig, hmatch]
  rfl

/-- Otherwise the cut starts at an open brace of the signature. -/
theorem exists_bodyCut?_of_mem {sig : List Char} (hsig : openBrace ∈ sig) (body : List Char) :
    ∃ before rest after, sig = before ++ openBrace :: rest ∧
      bodyCut? (sig ++ openBrace :: (body ++ [closeBrace])) = some (before, after) := by
  obtain ⟨before, rest, rfl, hbefore⟩ := List.eq_append_cons_of_mem hsig
  obtain ⟨after, hafter⟩ := exists_afterLastBrace_append (rest ++ openBrace :: body)
  have hinner : rest ++ openBrace :: (body ++ [closeBrace]) =
      (rest ++ openBrace :: body) ++ [closeBrace] := by simp
  rw [List.append_assoc, List.cons_append, bodyCut?_append hbefore, hinner, hafter]
  cases afterMatch 1 ((rest ++ openBrace :: body) ++ [closeBrace]) with
  | none => exact ⟨before, rest, after, rfl, rfl⟩
  | some found => exact ⟨before, rest, found, rfl, rfl⟩

theorem toList_of_ofDefinition? {definition declaration : String}
    (h : ofDefinition? definition = some declaration) :
    declaration.toList = signature definition.toList ++ [';'] := by
  rw [ofDefinition?] at h
  by_cases hsig : isDeclarable (signature definition.toList) = true
  · simp only [hsig, if_true, Option.some.injEq] at h
    rw [← h, String.toList_ofList]
  · simp [hsig] at h

theorem endsInCode_iff_of_bodyCut? {definition declaration : String} {before after : List Char}
    (h : ofDefinition? definition = some declaration)
    (hcut : bodyCut? (oneLine definition.toList) = some (before, after)) :
    EndsInCode declaration.toList ↔ (scan (scan .code before) after).isOutside = true := by
  rw [endsInCode_iff, toList_of_ofDefinition? h, scan_append_semicolon, signature_eq,
    isOutside_scan_trim, stripBody_of_bodyCut? hcut, scan_append]

/-- The cut starts inside a literal or comment. The text behind the cut closes it again and
leaves nothing else open. -/
def CutCloses (cs : List Char) : Prop := ∃ before after, bodyCut? cs = some (before, after) ∧
  (scan .code before).isOutside = false ∧ (scan (scan .code before) after).isOutside = true

/-- The prototype of a complete definition ends in code, so that its semicolon and all that
follows it are code, exactly if no literal or block comment of the signature has an open brace
or the cut at that brace happens to close again. In the first case the whole signature is kept. -/
theorem endsInCode_prototype_iff {sig body : List Char} (hsig : Complete true false sig)
    (hbody : Complete true true body) {declaration : String}
    (h : ofDefinition? (String.ofList (sig ++ openBrace :: (body ++ [closeBrace]))) =
      some declaration) :
    (EndsInCode declaration.toList ↔ openBrace ∉ oneLine sig ∨
      CutCloses (oneLine (sig ++ openBrace :: (body ++ [closeBrace])))) ∧
    (openBrace ∉ oneLine sig → declaration.toList = trim (oneLine sig) ++ [';']) := by
  have hline : oneLine (sig ++ openBrace :: (body ++ [closeBrace])) =
      oneLine sig ++ openBrace :: (oneLine body ++ [closeBrace]) := by
    rw [oneLine_append hsig (.inl rfl), oneLine_append hbody (.inr rfl), oneLine_nil]
  have hclosed := complete_oneLine hsig
  by_cases hmem : openBrace ∈ oneLine sig
  · obtain ⟨before, rest, after, hbefore, hcut⟩ := exists_bodyCut?_of_mem hmem (oneLine body)
    have hinside := hclosed.isOutside_scan_before_brace hbefore
    have hends := endsInCode_iff_of_bodyCut? h (by rw [String.toList_ofList, hline]; exact hcut)
    refine ⟨?_, fun hnot => absurd hmem hnot⟩
    rw [hends, hline]
    constructor
    · intro hout
      exact .inr ⟨before, after, hcut, hinside, hout⟩
    · intro h
      cases h with
      | inl hnot => exact absurd hmem hnot
      | inr hcloses =>
        obtain ⟨before', after', hcut', -, hout⟩ := hcloses
        cases hcut.symm.trans hcut'
        exact hout
  · have hcut := bodyCut?_of_not_mem hmem (complete_oneLine hbody)
    have hends := endsInCode_iff_of_bodyCut? h (by rw [String.toList_ofList, hline]; exact hcut)
    constructor
    · rw [hends]
      exact ⟨fun _ => .inl hmem, fun _ => hclosed.isOutside_scan⟩
    · intro _
      rw [toList_of_ofDefinition? h, String.toList_ofList, signature_eq, hline,
        stripBody_of_bodyCut? hcut, List.append_nil]

/-- A brace in a comment of the signature leaves that comment open. -/
theorem not_endsInCode_brace_in_comment :
    Complete true false "void f() /* \x7b */ ".toList ∧ Complete true true " ".toList ∧
      ofDefinition? (String.ofList ("void f() /* \x7b */ ".toList ++
        openBrace :: (" ".toList ++ [closeBrace]))) = some "void f() /*;" ∧
      ¬ EndsInCode "void f() /*;".toList := by
  have hsig : Complete true false "void f() /* \x7b */ ".toList := by
    have hblank : Complete true false (" ".toList ++ []) := .plain_append (by decide) .nil
    have hcomment : Complete true false
        ('/' :: '*' :: (" \x7b ".toList ++ '*' :: '/' :: (" ".toList ++ []))) :=
      .blockComment (.cons (by decide) (.cons (by decide) (.cons (by decide) .nil))) hblank
    have hall : Complete true false ("void f() ".toList ++ _) := .plain_append (by decide) hcomment
    exact hall
  have hbody : Complete true true (" ".toList ++ []) := .plain_append (by decide) .nil
  have hdeclaration : ofDefinition? (String.ofList ("void f() /* \x7b */ ".toList ++
      openBrace :: (" ".toList ++ [closeBrace]))) = some "void f() /*;" := by decide +kernel
  have hcut : bodyCut? (oneLine ("void f() /* \x7b */ ".toList ++
      openBrace :: (" ".toList ++ [closeBrace]))) = some ("void f() /* ".toList, []) := by decide +kernel
  have hline : oneLine "void f() /* \x7b */ ".toList = "void f() /* \x7b */ ".toList := by decide +kernel
  have hiff := (endsInCode_prototype_iff hsig hbody hdeclaration).1
  refine ⟨hsig, hbody, hdeclaration, fun hends => ?_⟩
  cases hiff.mp hends with
  | inl hnot =>
    rw [hline] at hnot
    exact hnot (by decide)
  | inr hcloses =>
    obtain ⟨before, after, hcut', -, hout⟩ := hcloses
    cases hcut.symm.trans hcut'
    exact absurd hout (by decide)

end Sketchbook.Prototype
