import Sketchbook.Prototype
import Sketchbook.Proofs.Source.Complete

/-! Laying a definition out on one line: line ends become line feeds, comments to the end of a
line become spaces, and so do the line feeds. A complete text stays complete and loses its line
comments; its parts are laid out independently of each other. -/
namespace Sketchbook.Prototype
open Source Text

theorem unifyLineEnds_cons {c : Char} (h : c ≠ '\r') (cs : List Char) :
    unifyLineEnds (c :: cs) = c :: unifyLineEnds cs :=
  unifyLineEnds.eq_4 c cs (fun _ hc => absurd hc h) (fun hc => absurd hc h)

theorem unifyLineEnds_return (cs : List Char) : unifyLineEnds ('\r' :: cs) =
    if cs.head? = some '\n' then unifyLineEnds cs else '\n' :: unifyLineEnds cs := by
  cases cs with
  | nil => rfl
  | cons c cs =>
    by_cases hc : c = '\n'
    · subst hc
      rw [unifyLineEnds, unifyLineEnds_cons (by decide)]
      simp
    · rw [unifyLineEnds.eq_3]
      · simp [hc]
      · intro rest hrest
        exact hc (List.cons.inj hrest).1

/-- A line feed merges with a carriage return before it and with nothing else. -/
theorem unifyLineEnds_append (cs : List Char) {ds : List Char} (h : ds.head? ≠ some '\n') :
    unifyLineEnds (cs ++ ds) = unifyLineEnds cs ++ unifyLineEnds ds := by
  induction cs with
  | nil => rfl
  | cons c cs ih =>
    by_cases hc : c = '\r'
    · subst hc
      have hhead : (cs ++ ds).head? = some '\n' ↔ cs.head? = some '\n' := by
        cases cs <;> simp [h]
      rw [List.cons_append, unifyLineEnds_return, unifyLineEnds_return, ih]
      simp only [hhead]
      split <;> rfl
    · rw [List.cons_append, unifyLineEnds_cons hc, unifyLineEnds_cons hc, ih, List.cons_append]

theorem unifyLineEnds_append_of_not_mem {cs : List Char} (h : '\r' ∉ cs) (ds : List Char) :
    unifyLineEnds (cs ++ ds) = cs ++ unifyLineEnds ds := by
  induction cs with
  | nil => rfl
  | cons c cs ih =>
    have hc : c ≠ '\r' := fun hc => h (hc ▸ List.mem_cons_self)
    rw [List.cons_append, unifyLineEnds_cons hc, ih fun hm => h (List.mem_cons_of_mem c hm),
      List.cons_append]

theorem head?_unifyLineEnds (cs : List Char) : (unifyLineEnds cs).head? =
    cs.head?.map fun c => if c = '\r' then '\n' else c := by
  cases cs with
  | nil => rfl
  | cons c cs =>
    by_cases hc : c = '\r'
    · subst hc
      rw [unifyLineEnds_return]
      split
      · next hhead =>
        obtain ⟨rest, rfl⟩ := List.head?_eq_some_iff.mp hhead
        rw [unifyLineEnds_cons (by decide)]
        rfl
      · rfl
    · simp [unifyLineEnds_cons hc, hc]

theorem not_mem_unifyLineEnds (cs : List Char) : '\r' ∉ unifyLineEnds cs := by
  induction cs with
  | nil => simp [unifyLineEnds]
  | cons c cs ih =>
    by_cases hc : c = '\r'
    · subst hc
      rw [unifyLineEnds_return]
      split
      · exact ih
      · simp [ih]
    · rw [unifyLineEnds_cons hc]
      simp [ih, Ne.symm hc]

theorem head?_unifyLineEnds_eq_some {c : Char} (hc : isLineEnd c = false) (cs : List Char) :
    (unifyLineEnds cs).head? = some c ↔ cs.head? = some c := by
  have hne : c ≠ '\n' ∧ c ≠ '\r' := by simpa [isLineEnd] using hc
  rw [head?_unifyLineEnds]
  cases cs with
  | nil => simp
  | cons d cs =>
    by_cases hd : d = '\r'
    · subst hd
      simp [hne.1.symm, hne.2.symm]
    · simp [hd]

theorem isInert_unifyLineEnds {cs : List Char} (h : IsInert cs) : IsInert (unifyLineEnds cs) := by
  constructor
  · rw [ne_eq, head?_unifyLineEnds_eq_some (by decide)]
    exact h.1
  · rw [ne_eq, head?_unifyLineEnds_eq_some (by decide)]
    exact h.2

theorem literalBody_tail {quote c : Char} {rest : List Char} (hc : c ≠ '\\')
    (h : LiteralBody quote (c :: rest)) : LiteralBody quote rest := by
  cases h with
  | escape => contradiction
  | plain _ _ h => exact h

theorem literalBody_unifyLineEnds {quote : Char} (hquote : isQuote quote = true)
    {cs : List Char} (h : LiteralBody quote cs) : LiteralBody quote (unifyLineEnds cs) := by
  have hfeed : '\n' ≠ quote := (ne_of_isQuote hquote rfl).symm
  induction h with
  | nil => exact .nil
  | @escape c rest h ih =>
    rw [unifyLineEnds_cons (by decide)]
    by_cases hc : c = '\r'
    · subst hc
      rw [unifyLineEnds_return]
      split
      · next hhead =>
        obtain ⟨tail, rfl⟩ := List.head?_eq_some_iff.mp hhead
        rw [unifyLineEnds_cons (by decide)] at ih ⊢
        exact .escape (literalBody_tail (by decide) ih)
      · exact .escape ih
    · rw [unifyLineEnds_cons hc]
      exact .escape ih
  | @plain c rest hback hne h ih =>
    by_cases hc : c = '\r'
    · subst hc
      rw [unifyLineEnds_return]
      split
      · exact ih
      · exact .plain (by decide) hfeed ih
    · rw [unifyLineEnds_cons hc]
      exact .plain hback hne ih

theorem commentBody_unifyLineEnds {cs : List Char} (h : CommentBody cs) :
    CommentBody (unifyLineEnds cs) := by
  induction h with
  | nil => exact .nil
  | @cons c rest hstar h ih =>
    by_cases hc : c = '\r'
    · subst hc
      rw [unifyLineEnds_return]
      split
      · exact ih
      · exact .cons (by simp) ih
    · rw [unifyLineEnds_cons hc]
      refine .cons (fun hs => ?_) ih
      rw [ne_eq, head?_unifyLineEnds_eq_some (by decide)]
      exact hstar hs

theorem complete_of_lineFeed {lines groups : Bool} {cs : List Char}
    (h : Complete lines groups ('\n' :: cs)) : Complete lines groups cs := by
  cases h with
  | plain _ _ h => exact h
  | literal hquote => exact absurd hquote (by decide)

theorem head?_ne_lineFeed {c : Char} (h : c ≠ '\n') (cs : List Char) :
    (c :: cs).head? ≠ some '\n' := by
  simpa using h

theorem complete_unifyLineEnds {lines groups : Bool} {cs : List Char}
    (h : Complete lines groups cs) : Complete lines groups (unifyLineEnds cs) := by
  induction h with
  | nil => exact .nil
  | @plain c rest hc hslash h ih =>
    by_cases hreturn : c = '\r'
    · subst hreturn
      rw [unifyLineEnds_return]
      split
      · exact ih
      · exact .plain (by decide) (fun hs => absurd hs (by decide)) ih
    · rw [unifyLineEnds_cons hreturn]
      exact .plain hc (fun hs => isInert_unifyLineEnds (hslash hs)) ih
  | @literal quote inner rest hquote hinner h ih =>
    have hreturn : quote ≠ '\r' := ne_of_isQuote hquote rfl
    rw [unifyLineEnds_cons hreturn,
      unifyLineEnds_append inner (head?_ne_lineFeed (ne_of_isQuote hquote rfl) rest),
      unifyLineEnds_cons hreturn]
    exact .literal hquote (literalBody_unifyLineEnds hquote hinner) ih
  | @blockComment inner rest hinner h ih =>
    rw [unifyLineEnds_cons (by decide), unifyLineEnds_cons (by decide),
      unifyLineEnds_append inner (head?_ne_lineFeed (by decide) _),
      unifyLineEnds_cons (by decide), unifyLineEnds_cons (by decide)]
    exact .blockComment (commentBody_unifyLineEnds hinner) ih
  | @lineComment inner rest lineEnd hlines hinner hend h ih =>
    have hreturn : '\r' ∉ inner := fun hm => absurd (hinner _ hm) (by decide)
    rw [unifyLineEnds_cons (by decide), unifyLineEnds_cons (by decide),
      unifyLineEnds_append_of_not_mem hreturn]
    cases isLineEnd_cases hend with
    | inl hfeed =>
      rw [unifyLineEnds_cons (by simp [hfeed])]
      exact .lineComment hlines hinner hend ih
    | inr hend =>
      rw [hend, unifyLineEnds_return]
      split
      · next hhead =>
        obtain ⟨tail, rfl⟩ := List.head?_eq_some_iff.mp hhead
        rw [unifyLineEnds_cons (by decide)] at ih ⊢
        exact .lineComment hlines hinner (by decide) (complete_of_lineFeed ih)
      · exact .lineComment hlines hinner (by decide) ih
  | @group inner rest hgroups hin h ihIn ih =>
    rw [unifyLineEnds_cons (by decide), unifyLineEnds_append inner (head?_ne_lineFeed (by decide) _),
      unifyLineEnds_cons (by decide)]
    exact .group hgroups ihIn ih

/-! Line comments. -/

theorem stripLineComments_nil : stripLineComments [] = [] := by
  rw [stripLineComments, pieces, List.flatMap_nil]

theorem stripLineComments_cons (c : Char) (cs : List Char) : stripLineComments (c :: cs) =
    (firstPiece c cs).1.withoutLineComment ++ stripLineComments (firstPiece c cs).2 := by
  rw [stripLineComments, pieces, List.flatMap_cons]
  rfl

theorem firstPiece_eq {c : Char} {cs : List Char} (hslash : c = '/' → IsInert cs) :
    firstPiece c cs =
      if isQuote c then
        match closeLiteral c cs with
        | some (inner, after) => (.literal (c :: inner), after)
        | none => (.literal (c :: cs), [])
      else (.code c, cs) := by
  apply firstPiece.eq_3
  · intro tail hs htail
    exact (hslash hs).2 (congrArg List.head? htail)
  · intro tail hs htail
    exact (hslash hs).1 (congrArg List.head? htail)

theorem firstPiece_code {c : Char} (hquote : isQuote c = false) {cs : List Char}
    (hslash : c = '/' → IsInert cs) : firstPiece c cs = (.code c, cs) := by
  rw [firstPiece_eq hslash, if_neg (by simp [hquote])]

theorem firstPiece_literal {quote : Char} (hquote : isQuote quote = true) {inner : List Char}
    (h : LiteralBody quote inner) (rest : List Char) :
    firstPiece quote (inner ++ quote :: rest) =
      (.literal (quote :: (inner ++ [quote])), rest) := by
  rw [firstPiece_eq fun hs => absurd hs (ne_of_isQuote hquote rfl), if_pos hquote,
    closeLiteral_append hquote h]

theorem firstPiece_blockComment {inner : List Char} (h : CommentBody inner) (rest : List Char) :
    firstPiece '/' ('*' :: (inner ++ '*' :: '/' :: rest)) =
      (.blockComment ('/' :: '*' :: (inner ++ ['*', '/'])), rest) := by
  rw [firstPiece, if_neg (by decide), closeComment_append_mark h]

theorem firstPiece_lineComment {inner rest : List Char} (h : '\n' ∉ inner)
    (hend : rest = [] ∨ rest.head? = some '\n') :
    firstPiece '/' ('/' :: (inner ++ rest)) = (.lineComment ('/' :: '/' :: inner), rest) := by
  have hkeep : ∀ c ∈ inner, decide (c ≠ '\n') = true := by
    intro c hc
    exact decide_eq_true fun he => h (he ▸ hc)
  rw [firstPiece, if_neg (by decide), List.takeWhile_append_of_pos hkeep,
    List.dropWhile_append_of_pos hkeep]
  cases hend with
  | inl hend => simp [hend]
  | inr hend =>
    obtain ⟨tail, rfl⟩ := List.head?_eq_some_iff.mp hend
    simp

theorem stripLineComments_code {c : Char} (hquote : isQuote c = false) {cs : List Char}
    (hslash : c = '/' → IsInert cs) :
    stripLineComments (c :: cs) = c :: stripLineComments cs := by
  rw [stripLineComments_cons, firstPiece_code hquote hslash]
  rfl

theorem stripLineComments_literal {quote : Char} (hquote : isQuote quote = true)
    {inner : List Char} (h : LiteralBody quote inner) (rest : List Char) :
    stripLineComments (quote :: (inner ++ quote :: rest)) =
      quote :: (inner ++ quote :: stripLineComments rest) := by
  rw [stripLineComments_cons, firstPiece_literal hquote h]
  simp [Piece.withoutLineComment, Piece.text]

theorem stripLineComments_blockComment {inner : List Char} (h : CommentBody inner)
    (rest : List Char) :
    stripLineComments ('/' :: '*' :: (inner ++ '*' :: '/' :: rest)) =
      '/' :: '*' :: (inner ++ '*' :: '/' :: stripLineComments rest) := by
  rw [stripLineComments_cons, firstPiece_blockComment h]
  simp [Piece.withoutLineComment, Piece.text]

theorem stripLineComments_lineComment {inner : List Char} (h : '\n' ∉ inner)
    (rest : List Char) :
    stripLineComments ('/' :: '/' :: (inner ++ '\n' :: rest)) =
      ' ' :: '\n' :: stripLineComments rest := by
  rw [stripLineComments_cons, firstPiece_lineComment h (.inr rfl),
    stripLineComments_code rfl fun hs => absurd hs (by decide)]
  rfl

theorem isInert_brace {c : Char} (hc : c = openBrace ∨ c = closeBrace) (cs : List Char) :
    IsInert (c :: cs) := by
  cases hc with
  | inl hc => exact isInert_cons (by rw [hc]; decide) (by rw [hc]; decide) cs
  | inr hc => exact isInert_cons (by rw [hc]; decide) (by rw [hc]; decide) cs

theorem stripLineComments_brace {c : Char} (hc : c = openBrace ∨ c = closeBrace)
    (cs : List Char) : stripLineComments (c :: cs) = c :: stripLineComments cs := by
  cases hc with
  | inl hc =>
    rw [hc]
    exact stripLineComments_code rfl fun hs => absurd hs (by decide)
  | inr hc =>
    rw [hc]
    exact stripLineComments_code rfl fun hs => absurd hs (by decide)

theorem isInert_append {cs tail : List Char} (hcs : IsInert cs) (htail : IsInert tail) :
    IsInert (cs ++ tail) :=
  ⟨head?_append_ne hcs.1 htail.1, head?_append_ne hcs.2 htail.2⟩

theorem isInert_stripLineComments {cs : List Char} (h : IsInert cs) :
    IsInert (stripLineComments cs) := by
  cases cs with
  | nil =>
    rw [stripLineComments_nil]
    exact h
  | cons c cs =>
    have hc : c ≠ '/' ∧ c ≠ '*' := by simpa [IsInert] using h
    by_cases hquote : isQuote c = true
    · rw [stripLineComments_cons, firstPiece_eq fun hs => absurd hs hc.1, if_pos hquote]
      split <;> exact isInert_cons hc.1 hc.2 _
    · rw [stripLineComments_code (by simpa using hquote) fun hs => absurd hs hc.1]
      exact isInert_cons hc.1 hc.2 _

/-- A complete text and what follows it lose their line comments independently. -/
theorem stripLineComments_append {groups : Bool} {cs : List Char}
    (h : Complete true groups cs) (hreturn : '\r' ∉ cs) {tail : List Char} (htail : IsInert tail) :
    stripLineComments (cs ++ tail) = stripLineComments cs ++ stripLineComments tail := by
  induction h generalizing tail with
  | nil => rw [stripLineComments_nil, List.nil_append, List.nil_append]
  | plain hc hslash h ih =>
    rw [List.cons_append,
      stripLineComments_code (isPlain_cases hc).1 fun hs => isInert_append (hslash hs) htail,
      stripLineComments_code (isPlain_cases hc).1 hslash,
      ih (fun hm => hreturn (List.mem_cons_of_mem _ hm)) htail, List.cons_append]
  | literal hquote hinner h ih =>
    have hrest := ih (fun hm => hreturn (by simp [hm])) htail
    simp only [List.cons_append, List.append_assoc]
    rw [stripLineComments_literal hquote hinner, stripLineComments_literal hquote hinner, hrest]
    simp
  | blockComment hinner h ih =>
    have hrest := ih (fun hm => hreturn (by simp [hm])) htail
    simp only [List.cons_append, List.append_assoc]
    rw [stripLineComments_blockComment hinner, stripLineComments_blockComment hinner, hrest]
    simp
  | @lineComment inner rest lineEnd hlines hinner hend h ih =>
    have hrest := ih (fun hm => hreturn (by simp [hm])) htail
    have hfeed : lineEnd = '\n' :=
      (isLineEnd_cases hend).resolve_right fun hr => hreturn (by simp [hr])
    have hmem : '\n' ∉ inner := fun hm => absurd (hinner _ hm) (by decide)
    subst hfeed
    simp only [List.cons_append, List.append_assoc]
    rw [stripLineComments_lineComment hmem, stripLineComments_lineComment hmem, hrest]
    rfl
  | @group inner rest hgroups hin h ihIn ih =>
    have hrest := ih (fun hm => hreturn (by simp [hm])) htail
    have hinside (cs : List Char) :=
      ihIn (fun hm => hreturn (by simp [hm])) (isInert_brace (.inr rfl) cs)
    simp only [List.cons_append, List.append_assoc, stripLineComments_brace (.inl rfl), hinside,
      stripLineComments_brace (.inr rfl), hrest]

theorem complete_stripLineComments {groups : Bool} {cs : List Char}
    (h : Complete true groups cs) (hreturn : '\r' ∉ cs) :
    Complete false groups (stripLineComments cs) := by
  induction h with
  | nil =>
    rw [stripLineComments_nil]
    exact .nil
  | plain hc hslash h ih =>
    rw [stripLineComments_code (isPlain_cases hc).1 hslash]
    exact .plain hc (fun hs => isInert_stripLineComments (hslash hs))
      (ih fun hm => hreturn (List.mem_cons_of_mem _ hm))
  | literal hquote hinner h ih =>
    rw [stripLineComments_literal hquote hinner]
    exact .literal hquote hinner (ih fun hm => hreturn (by simp [hm]))
  | blockComment hinner h ih =>
    rw [stripLineComments_blockComment hinner]
    exact .blockComment hinner (ih fun hm => hreturn (by simp [hm]))
  | @lineComment inner rest lineEnd hlines hinner hend h ih =>
    have hrest := ih fun hm => hreturn (by simp [hm])
    have hmem : '\n' ∉ inner := fun hm => absurd (hinner _ hm) (by decide)
    have hfeed : lineEnd = '\n' :=
      (isLineEnd_cases hend).resolve_right fun hr => hreturn (by simp [hr])
    rw [hfeed, stripLineComments_lineComment hmem]
    exact .plain (by decide) (fun hs => absurd hs (by decide))
      (.plain (by decide) (fun hs => absurd hs (by decide)) hrest)
  | group hgroups hin h ihIn ih =>
    rw [stripLineComments_brace (.inl rfl),
      stripLineComments_append hin (fun hm => hreturn (by simp [hm])) (isInert_brace (.inr rfl) _),
      stripLineComments_brace (.inr rfl)]
    exact .group hgroups (ihIn fun hm => hreturn (by simp [hm]))
      (ih fun hm => hreturn (by simp [hm]))

/-! Line feeds. -/

theorem flatten_cons (c : Char) (cs : List Char) :
    flatten (c :: cs) = (if c = '\n' then ' ' else c) :: flatten cs := rfl

theorem flatten_cons_of_ne {c : Char} (h : c ≠ '\n') (cs : List Char) :
    flatten (c :: cs) = c :: flatten cs := by
  rw [flatten_cons, if_neg h]

theorem flatten_append (cs ds : List Char) : flatten (cs ++ ds) = flatten cs ++ flatten ds :=
  List.map_append

/-- Only spaces come in where line feeds go. -/
theorem not_mem_flatten {c : Char} (hc : c ≠ ' ') {cs : List Char} (h : c ∉ cs) :
    c ∉ flatten cs := by
  intro hmem
  obtain ⟨d, hd, heq⟩ := List.mem_map.mp hmem
  split at heq
  · exact hc heq.symm
  · exact h (heq ▸ hd)

theorem head?_flatten_eq_some {c : Char} (hfeed : c ≠ '\n') (hspace : c ≠ ' ') (cs : List Char) :
    (flatten cs).head? = some c ↔ cs.head? = some c := by
  cases cs with
  | nil => rfl
  | cons d cs =>
    by_cases hd : d = '\n'
    · subst hd
      simp [flatten_cons, hspace.symm, hfeed.symm]
    · simp [flatten_cons_of_ne hd]

theorem isInert_flatten {cs : List Char} (h : IsInert cs) : IsInert (flatten cs) := by
  constructor
  · rw [ne_eq, head?_flatten_eq_some (by decide) (by decide)]
    exact h.1
  · rw [ne_eq, head?_flatten_eq_some (by decide) (by decide)]
    exact h.2

theorem literalBody_flatten {quote : Char} (hquote : isQuote quote = true) {cs : List Char}
    (h : LiteralBody quote cs) : LiteralBody quote (flatten cs) := by
  induction h with
  | nil => exact .nil
  | escape h ih =>
    rw [flatten_cons_of_ne (by decide), flatten_cons]
    exact .escape ih
  | @plain c rest hback hne h ih =>
    by_cases hc : c = '\n'
    · subst hc
      exact .plain (by decide) (ne_of_isQuote hquote rfl).symm ih
    · rw [flatten_cons_of_ne hc]
      exact .plain hback hne ih

theorem commentBody_flatten {cs : List Char} (h : CommentBody cs) : CommentBody (flatten cs) := by
  induction h with
  | nil => exact .nil
  | @cons c rest hstar h ih =>
    by_cases hc : c = '\n'
    · subst hc
      exact .cons (fun hs => absurd hs (by decide)) ih
    · rw [flatten_cons_of_ne hc]
      refine .cons (fun hs => ?_) ih
      rw [ne_eq, head?_flatten_eq_some (by decide) (by decide)]
      exact hstar hs

theorem complete_flatten {groups : Bool} {cs : List Char} (h : Complete false groups cs) :
    Complete false groups (flatten cs) := by
  induction h with
  | nil => exact .nil
  | @plain c rest hc hslash h ih =>
    by_cases hfeed : c = '\n'
    · subst hfeed
      exact .plain (by decide) (fun hs => absurd hs (by decide)) ih
    · rw [flatten_cons_of_ne hfeed]
      exact .plain hc (fun hs => isInert_flatten (hslash hs)) ih
  | @literal quote inner rest hquote hinner h ih =>
    have hfeed : quote ≠ '\n' := ne_of_isQuote hquote rfl
    rw [flatten_cons_of_ne hfeed, flatten_append, flatten_cons_of_ne hfeed]
    exact .literal hquote (literalBody_flatten hquote hinner) ih
  | blockComment hinner h ih =>
    rw [flatten_cons_of_ne (by decide), flatten_cons_of_ne (by decide), flatten_append,
      flatten_cons_of_ne (by decide), flatten_cons_of_ne (by decide)]
    exact .blockComment (commentBody_flatten hinner) ih
  | lineComment hlines => contradiction
  | group hgroups hin h ihIn ih =>
    rw [flatten_cons_of_ne (by decide), flatten_append, flatten_cons_of_ne (by decide)]
    exact .group hgroups ihIn ih

/-! All three together. -/

def oneLine (cs : List Char) : List Char := flatten (stripLineComments (unifyLineEnds cs))

theorem complete_oneLine {groups : Bool} {cs : List Char} (h : Complete true groups cs) :
    Complete false groups (oneLine cs) :=
  complete_flatten (complete_stripLineComments (complete_unifyLineEnds h)
    (not_mem_unifyLineEnds cs))

theorem oneLine_append {groups : Bool} {cs : List Char} (h : Complete true groups cs)
    {brace : Char} (hbrace : brace = openBrace ∨ brace = closeBrace) (tail : List Char) :
    oneLine (cs ++ brace :: tail) = oneLine cs ++ brace :: oneLine tail := by
  have hne : brace ≠ '\n' ∧ brace ≠ '\r' := by
    cases hbrace with
    | inl h => rw [h]; decide
    | inr h => rw [h]; decide
  simp only [oneLine]
  rw [unifyLineEnds_append cs (head?_ne_lineFeed hne.1 tail), unifyLineEnds_cons hne.2,
    stripLineComments_append (complete_unifyLineEnds h) (not_mem_unifyLineEnds cs)
      (isInert_brace hbrace _),
    stripLineComments_brace hbrace, flatten_append, flatten_cons_of_ne hne.1]

theorem oneLine_nil : oneLine [] = [] := by
  rw [oneLine, unifyLineEnds, stripLineComments_nil]
  rfl

theorem signature_eq (definition : List Char) :
    signature definition = trim (stripBody (oneLine definition)) := rfl

end Sketchbook.Prototype
