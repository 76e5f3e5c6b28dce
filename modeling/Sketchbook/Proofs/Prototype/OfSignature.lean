import Mathlib.Data.List.Infix
import Sketchbook.Proofs.Prototype.EndsInCode

/-! The prototype of a complete definition is made from its signature alone. Whatever the body
holds, it is the signature with its line comments as spaces, laid out on one line and trimmed. -/
namespace Sketchbook
open Source Text

namespace Source

/-- A complete text without groups, and the same text with one space in place of every comment to
the end of a line. Its literals and block comments hold no open brace. -/
inductive Spaced : List Char → List Char → Prop where
  | nil : Spaced [] []
  | plain {c : Char} {rest spaced : List Char} (hc : isPlain c = true)
      (hslash : c = '/' → IsInert rest) (h : Spaced rest spaced) :
      Spaced (c :: rest) (c :: spaced)
  | literal {quote : Char} {inner rest spaced : List Char} (hquote : isQuote quote = true)
      (hinner : LiteralBody quote inner) (hbrace : openBrace ∉ inner) (h : Spaced rest spaced) :
      Spaced (quote :: (inner ++ quote :: rest)) (quote :: (inner ++ quote :: spaced))
  | blockComment {inner rest spaced : List Char} (hinner : CommentBody inner)
      (hbrace : openBrace ∉ inner) (h : Spaced rest spaced) :
      Spaced ('/' :: '*' :: (inner ++ '*' :: '/' :: rest))
        ('/' :: '*' :: (inner ++ '*' :: '/' :: spaced))
  | lineComment {inner rest spaced : List Char} (hinner : ∀ c ∈ inner, isLineEnd c = false)
      (h : Spaced rest spaced) :
      Spaced ('/' :: '/' :: (inner ++ '\n' :: rest)) (' ' :: '\n' :: spaced)

variable {cs spaced : List Char}

theorem Spaced.plain_append {front : List Char}
    (hplain : front.all (fun c => isPlain c && c != '/') = true) (h : Spaced cs spaced) :
    Spaced (front ++ cs) (front ++ spaced) := by
  induction front with
  | nil => exact h
  | cons c front ih =>
    obtain ⟨hc, hfront⟩ := (Bool.and_eq_true _ _).mp hplain
    obtain ⟨hc, hslash⟩ := (Bool.and_eq_true _ _).mp hc
    exact .plain hc (fun hs => absurd hs (bne_iff_ne.mp hslash)) (ih hfront)

theorem Spaced.complete (h : Spaced cs spaced) : Complete true false cs := by
  induction h with
  | nil => exact .nil
  | plain hc hslash _ ih => exact .plain hc hslash ih
  | literal hquote hinner _ _ ih => exact .literal hquote hinner ih
  | blockComment hinner _ _ ih => exact .blockComment hinner ih
  | lineComment hinner _ ih => exact .lineComment rfl hinner rfl ih

theorem Spaced.openBrace_not_mem (h : Spaced cs spaced) : openBrace ∉ spaced := by
  have hmark : openBrace ≠ '/' ∧ openBrace ≠ '*' ∧ openBrace ≠ ' ' ∧ openBrace ≠ '\n' := by decide
  induction h with
  | nil => exact List.not_mem_nil
  | plain hc _ _ ih => simp [ih, (isPlain_cases hc).2.1.symm]
  | literal hquote _ hbrace _ ih =>
    have hne : openBrace ≠ _ := (ne_of_isQuote hquote rfl).symm
    simp [ih, hbrace, hne]
  | blockComment _ hbrace _ ih => simp [ih, hbrace, hmark]
  | lineComment _ _ ih => simp [ih, hmark]

end Source

namespace Prototype

variable {sig spaced body : List Char}

/-- Taking line comments out leaves a space for each, and all else as it is. -/
theorem stripLineComments_of_spaced (h : Spaced sig spaced) : stripLineComments sig = spaced := by
  induction h with
  | nil => exact stripLineComments_nil
  | plain hc hslash _ ih => rw [stripLineComments_code (isPlain_cases hc).1 hslash, ih]
  | literal hquote hinner _ _ ih => rw [stripLineComments_literal hquote hinner, ih]
  | blockComment hinner _ _ ih => rw [stripLineComments_blockComment hinner, ih]
  | lineComment hinner _ ih =>
    have hfeed : '\n' ∉ _ := fun hm => absurd (hinner _ hm) (by decide)
    rw [stripLineComments_lineComment hfeed, ih]

theorem oneLine_of_spaced (h : Spaced sig spaced) (hreturn : '\r' ∉ sig) :
    oneLine sig = flatten spaced := by
  have hunified : unifyLineEnds sig = sig := by
    simpa [unifyLineEnds] using unifyLineEnds_append_of_not_mem hreturn []
  rw [oneLine, hunified, stripLineComments_of_spaced h]

theorem hasScope_iff (cs : List Char) : hasScope cs = true ↔ [':', ':'] <:+: cs := by
  induction cs with
  | nil => simp [hasScope]
  | cons c rest ih =>
    rw [List.infix_cons_iff, ← ih]
    by_cases hfront : [':', ':'] <+: c :: rest
    · obtain ⟨more, hmore⟩ := hfront
      simp [← hmore, hasScope]
    · rw [hasScope.eq_2 c rest fun more hc hrest => hfront ⟨more, by rw [hc, hrest]; rfl⟩]
      simp [hfront]

theorem isDeclarable_eq_false_iff (cs : List Char) :
    isDeclarable cs = false ↔ cs = [] ∨ '=' ∈ cs ∨ [':', ':'] <:+: cs := by
  rw [isDeclarable, Bool.and_eq_false_iff, Bool.and_eq_false_iff, ← hasScope_iff]
  simp [or_assoc]

/-- The signature of a complete definition is what stands before its body. -/
theorem signature_of_spaced (hsig : Spaced sig spaced) (hreturn : '\r' ∉ sig)
    (hbody : Complete true true body) :
    signature (sig ++ openBrace :: (body ++ [closeBrace])) = trim (flatten spaced) := by
  have hline : oneLine (sig ++ openBrace :: (body ++ [closeBrace])) =
      flatten spaced ++ openBrace :: (oneLine body ++ [closeBrace]) := by
    rw [oneLine_append hsig.complete (.inl rfl), oneLine_append hbody (.inr rfl), oneLine_nil,
      oneLine_of_spaced hsig hreturn]
  have hcut := bodyCut?_of_not_mem
    (not_mem_flatten (by decide) hsig.openBrace_not_mem) (complete_oneLine hbody)
  rw [signature_eq, hline, stripBody_of_bodyCut? hcut, List.append_nil]

/-- The prototype of a complete definition is its signature on one line, with a space for every
line comment, unless that is empty or has a mark of what cannot stand alone. -/
theorem prototype_complete (hsig : Spaced sig spaced) (hreturn : '\r' ∉ sig)
    (hbody : Complete true true body) :
    let line := trim (flatten spaced)
    ofDefinition? (String.ofList (sig ++ openBrace :: (body ++ [closeBrace]))) =
      if line = [] ∨ '=' ∈ line ∨ [':', ':'] <:+: line then none
      else some (String.ofList (line ++ [';'])) := by
  intro line
  rw [ofDefinition?, String.toList_ofList, signature_of_spaced hsig hreturn hbody]
  have hmarks := isDeclarable_eq_false_iff line
  cases hdeclarable : isDeclarable line with
  | false =>
    rw [if_pos (hmarks.mp hdeclarable)]
    rfl
  | true =>
    rw [if_neg (mt hmarks.mpr (by simp [hdeclarable]))]
    rfl

def tickSignature : List Char := "void tick(int n) // every ms \x7b\n".toList

def tickBody : List Char := "\n\x7b put('\x7d'); /* \x7b */ \x7d // bump \x7b\n".toList

theorem prototype_complete_tick :
    Spaced tickSignature "void tick(int n)  \n".toList ∧ '\r' ∉ tickSignature ∧
      Complete true true tickBody ∧
      ofDefinition? (String.ofList
        (tickSignature ++ openBrace :: (tickBody ++ [closeBrace]))) = some "void tick(int n);" := by
  have hsig : Spaced tickSignature "void tick(int n)  \n".toList := by
    have hcomment : Spaced ('/' :: '/' :: (" every ms \x7b".toList ++ '\n' :: [])) [' ', '\n'] :=
      .lineComment (by simp [isLineEnd]) .nil
    have hall : Spaced ("void tick(int n) ".toList ++ _) ("void tick(int n) ".toList ++ _) :=
      .plain_append (by decide) hcomment
    exact hall
  have hbody : Complete true true tickBody := by
    have hline : Complete true true ('/' :: '/' :: (" bump \x7b".toList ++ '\n' :: [])) :=
      .lineComment rfl (by simp [isLineEnd]) rfl .nil
    have hblank : Complete true true (" ".toList ++ []) := .plain_append (by decide) .nil
    have hblock : Complete true true
        ('/' :: '*' :: (" \x7b ".toList ++ '*' :: '/' :: (" ".toList ++ []))) :=
      .blockComment (.cons (by decide) (.cons (by decide) (.cons (by decide) .nil))) hblank
    have hclose : Complete true true ("); ".toList ++ _) := .plain_append (by decide) hblock
    have hcall : Complete true true (" put(".toList ++ '\'' :: (['\x7d'] ++ '\'' :: _)) :=
      .plain_append (by decide)
        (.literal rfl (.plain (by decide) (by decide) .nil) hclose)
    have hbehind : Complete true true (" ".toList ++ _) := .plain_append (by decide) hline
    have hgroup : Complete true true (openBrace :: (_ ++ closeBrace :: _)) :=
      .group rfl hcall hbehind
    have hall : Complete true true ("\n".toList ++ _) := .plain_append (by decide) hgroup
    exact hall
  have hreturn : '\r' ∉ tickSignature := by decide
  refine ⟨hsig, hreturn, hbody, ?_⟩
  rw [prototype_complete hsig hreturn hbody]
  decide +kernel

end Prototype

end Sketchbook
