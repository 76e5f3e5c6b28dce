import Sketchbook.Proofs.Source.Scan

/-! Complete source texts: every literal and comment in them is closed, and braces outside of
them form groups. Such a text is read back to code, its groups are passed over when braces are
matched, and an open brace in it that belongs to no group stands in a literal or comment. -/
namespace Sketchbook.Source

inductive LiteralBody (quote : Char) : List Char → Prop where
  | nil : LiteralBody quote []
  | escape {c : Char} {rest : List Char} (h : LiteralBody quote rest) :
      LiteralBody quote ('\\' :: c :: rest)
  | plain {c : Char} {rest : List Char} (hback : c ≠ '\\') (hquote : c ≠ quote)
      (h : LiteralBody quote rest) : LiteralBody quote (c :: rest)

inductive CommentBody : List Char → Prop where
  | nil : CommentBody []
  | cons {c : Char} {rest : List Char} (hstar : c = '*' → rest.head? ≠ some '/')
      (h : CommentBody rest) : CommentBody (c :: rest)

def isLineEnd (c : Char) : Bool := c == '\n' || c == '\r'

def isPlain (c : Char) : Bool := !isQuote c && c != openBrace && c != closeBrace

def IsInert (cs : List Char) : Prop := cs.head? ≠ some '/' ∧ cs.head? ≠ some '*'

/-- A sequence of plain characters, closed literals, closed comments and, where `groups` is
set, groups in braces. Comments to the end of a line stand in it only where `lines` is set, and
each is ended by a line end. -/
inductive Complete (lines groups : Bool) : List Char → Prop where
  | nil : Complete lines groups []
  | plain {c : Char} {rest : List Char} (hc : isPlain c = true) (hslash : c = '/' → IsInert rest)
      (h : Complete lines groups rest) : Complete lines groups (c :: rest)
  | literal {quote : Char} {inner rest : List Char} (hquote : isQuote quote = true)
      (hinner : LiteralBody quote inner) (h : Complete lines groups rest) :
      Complete lines groups (quote :: (inner ++ quote :: rest))
  | blockComment {inner rest : List Char} (hinner : CommentBody inner)
      (h : Complete lines groups rest) :
      Complete lines groups ('/' :: '*' :: (inner ++ '*' :: '/' :: rest))
  | lineComment {inner rest : List Char} {lineEnd : Char} (hlines : lines = true)
      (hinner : ∀ c ∈ inner, isLineEnd c = false) (hend : isLineEnd lineEnd = true)
      (h : Complete lines groups rest) :
      Complete lines groups ('/' :: '/' :: (inner ++ lineEnd :: rest))
  | group {inner rest : List Char} (hgroups : groups = true)
      (hin : Complete lines groups inner) (h : Complete lines groups rest) :
      Complete lines groups (openBrace :: (inner ++ closeBrace :: rest))

theorem isPlain_cases {c : Char} (h : isPlain c = true) :
    isQuote c = false ∧ c ≠ openBrace ∧ c ≠ closeBrace := by
  simpa [isPlain, and_assoc] using h

theorem isLineEnd_cases {c : Char} (h : isLineEnd c = true) : c = '\n' ∨ c = '\r' := by
  simpa [isLineEnd] using h

theorem isInert_cons {c : Char} (hslash : c ≠ '/') (hstar : c ≠ '*') (cs : List Char) :
    IsInert (c :: cs) := by
  simp [IsInert, hslash, hstar]

theorem Complete.plain_append {lines groups : Bool} {cs rest : List Char}
    (hplain : cs.all (fun c => isPlain c && c != '/') = true) (h : Complete lines groups rest) :
    Complete lines groups (cs ++ rest) := by
  induction cs with
  | nil => exact h
  | cons c cs ih =>
    obtain ⟨hc, hcs⟩ := (Bool.and_eq_true _ _).mp hplain
    obtain ⟨hc, hslash⟩ := (Bool.and_eq_true _ _).mp hc
    exact .plain hc (fun hs => absurd hs (bne_iff_ne.mp hslash)) (ih hcs)

theorem closeLiteral_append {quote : Char} (hquote : isQuote quote = true) {inner : List Char}
    (h : LiteralBody quote inner) (rest : List Char) :
    closeLiteral quote (inner ++ quote :: rest) = some (inner ++ [quote], rest) := by
  have hback : quote ≠ '\\' := ne_of_isQuote hquote rfl
  induction h with
  | nil =>
    rw [List.nil_append, closeLiteral.eq_4 _ _ _ (fun hq => absurd hq hback)
      (fun _ _ hq => absurd hq hback)]
    simp
  | escape h ih => simp [closeLiteral, ih]
  | plain hc hne h ih =>
    rw [List.cons_append, closeLiteral.eq_4 _ _ _ (fun hq => absurd hq hc)
      (fun _ _ hq => absurd hq hc)]
    simp [hne, ih]

theorem closeComment_append_mark {inner : List Char} (h : CommentBody inner)
    (rest : List Char) :
    closeComment (inner ++ '*' :: '/' :: rest) = (inner ++ ['*', '/'], rest) := by
  induction h with
  | nil => rfl
  | @cons c inner hstar h ih =>
    have hopen : ∀ tail, c = '*' → inner ++ '*' :: '/' :: rest = '/' :: tail → False := by
      intro tail hc heq
      apply hstar hc
      cases inner with
      | nil => simp at heq
      | cons d inner => simpa using (List.cons.inj heq).1
    rw [List.cons_append, closeComment.eq_3 _ _ hopen, ih]
    rfl

theorem scan_literal {quote : Char} (hquote : isQuote quote = true) {inner : List Char}
    (h : LiteralBody quote inner) (rest : List Char) :
    scan .code (quote :: (inner ++ quote :: rest)) = scan .code rest := by
  have hstep : Mode.code.step quote = .literal quote := by simp [Mode.step, codeStep, hquote]
  rw [scan_cons, hstep, scan_literal_of_close (closeLiteral_append hquote h rest)]

def InComment (mode : Mode) (cs : List Char) : Prop :=
  mode = .comment ∨ mode = .star ∧ cs.head? ≠ some '/'

theorem InComment.step {mode : Mode} {c : Char} {cs : List Char} (h : InComment mode (c :: cs))
    (hstar : c = '*' → cs.head? ≠ some '/') : InComment (mode.step c) cs := by
  by_cases hc : c = '*'
  · right
    refine ⟨?_, hstar hc⟩
    cases h with
    | inl h => simp [h, Mode.step, hc]
    | inr h => simp [h.1, Mode.step, hc]
  · left
    cases h with
    | inl h => simp [h, Mode.step, hc]
    | inr h =>
      have hs : c ≠ '/' := by simpa using h.2
      simp [h.1, Mode.step, hc, hs]

theorem scan_comment {mode : Mode} {inner : List Char} (h : CommentBody inner)
    (hmode : InComment mode inner) (rest : List Char) :
    scan mode (inner ++ '*' :: '/' :: rest) = scan .code rest := by
  induction h generalizing mode with
  | nil =>
    cases hmode with
    | inl hmode => rw [hmode]; rfl
    | inr hmode => rw [hmode.1]; rfl
  | cons hstar h ih => exact ih (hmode.step hstar)

theorem scan_blockComment {inner : List Char} (h : CommentBody inner) (rest : List Char) :
    scan .code ('/' :: '*' :: (inner ++ '*' :: '/' :: rest)) = scan .code rest :=
  scan_comment h (.inl rfl) rest

theorem scan_code {c : Char} (hquote : isQuote c = false) {rest : List Char} (hne : rest ≠ [])
    (hslash : c = '/' → rest.head? ≠ some '*') :
    scan .code (c :: rest) = scan .code rest := by
  by_cases hs : c = '/'
  · rw [← scan_slash hne (hslash hs), hs]
    rfl
  · rw [scan_cons]
    simp [Mode.step, codeStep, hquote, hs]

theorem head?_append_ne {cs tail : List Char} {c : Char} (hcs : cs.head? ≠ some c)
    (htail : tail.head? ≠ some c) : (cs ++ tail).head? ≠ some c := by
  cases cs with
  | nil => exact htail
  | cons d cs => exact hcs

/-- A complete text without line comments is read back to code. -/
theorem Complete.scan_append {groups : Bool} {cs : List Char} (h : Complete false groups cs)
    {tail : List Char} (hne : tail ≠ []) (hstar : tail.head? ≠ some '*') :
    scan .code (cs ++ tail) = scan .code tail := by
  induction h generalizing tail with
  | nil => rfl
  | plain hc hslash h ih =>
    rw [List.cons_append, scan_code (isPlain_cases hc).1 (by simp [hne])
      (fun hs => head?_append_ne (hslash hs).2 hstar), ih hne hstar]
  | literal hquote hinner h ih =>
    rw [List.cons_append, List.append_assoc, List.cons_append, scan_literal hquote hinner,
      ih hne hstar]
  | blockComment hinner h ih =>
    simp only [List.cons_append, List.append_assoc]
    rw [scan_blockComment hinner, ih hne hstar]
  | lineComment hlines => contradiction
  | group hgroups hin h ihIn ih =>
    rw [List.cons_append, List.append_assoc, List.cons_append,
      scan_code rfl (by simp) (fun hs => absurd hs (by decide)),
      ihIn (by simp) (by simp [closeBrace]),
      scan_code rfl (by simp [hne]) (fun hs => absurd hs (by decide)), ih hne hstar]

theorem Complete.isOutside_scan {groups : Bool} {cs : List Char}
    (h : Complete false groups cs) : (scan .code cs).isOutside = true := by
  rw [← scan_append_semicolon, h.scan_append (by simp) (by simp)]
  rfl

theorem scan_literalBody_prefix {quote : Char} {front back : List Char}
    (h : LiteralBody quote (front ++ back)) :
    scan (.literal quote) front = .literal quote ∨ scan (.literal quote) front = .escape quote := by
  generalize hcs : front ++ back = cs at h
  induction h generalizing front with
  | nil =>
    rw [(List.append_eq_nil_iff.mp hcs).1]
    exact .inl rfl
  | escape h ih =>
    cases front with
    | nil => exact .inl rfl
    | cons d front =>
      obtain ⟨rfl, hrest⟩ := List.cons.inj hcs
      cases front with
      | nil => exact .inr rfl
      | cons e front =>
        have hfront := ih (List.cons.inj hrest).2
        exact hfront
  | plain hback hne h ih =>
    cases front with
    | nil => exact .inl rfl
    | cons d front =>
      obtain ⟨rfl, hrest⟩ := List.cons.inj hcs
      simpa [Mode.step, hback, hne] using ih hrest

theorem scan_commentBody_prefix {mode : Mode} {front back : List Char}
    (h : CommentBody (front ++ back)) (hmode : InComment mode (front ++ back)) :
    InComment (scan mode front) back := by
  induction front generalizing mode with
  | nil => exact hmode
  | cons c front ih =>
    cases h with
    | cons hstar h => exact ih h (hmode.step hstar)

theorem exists_of_cons_eq_append {c : Char} {cs before after : List Char} (hc : c ≠ openBrace)
    (h : c :: cs = before ++ openBrace :: after) :
    ∃ front, before = c :: front ∧ cs = front ++ openBrace :: after := by
  cases before with
  | nil => exact absurd (List.cons.inj h).1 hc
  | cons d front =>
    obtain ⟨rfl, hcs⟩ := List.cons.inj h
    exact ⟨front, rfl, hcs⟩

/-- An open brace in a complete text without groups stands in a literal or comment. -/
theorem Complete.isOutside_scan_before_brace {cs : List Char} (h : Complete false false cs)
    {before after : List Char} (hcs : cs = before ++ openBrace :: after) :
    (scan .code before).isOutside = false := by
  induction h generalizing before with
  | nil => simp at hcs
  | @plain c rest hc hslash h ih =>
    obtain ⟨hquote, hopen, -⟩ := isPlain_cases hc
    obtain ⟨front, rfl, hrest⟩ := exists_of_cons_eq_append hopen hcs
    have hin := ih hrest
    have hne : front ≠ [] := by
      intro hnil
      rw [hnil] at hin
      exact absurd hin (by decide)
    rw [scan_code hquote hne]
    · exact hin
    · intro hs
      have hstar := (hslash hs).2
      cases front with
      | nil => contradiction
      | cons d front => simpa [hrest] using hstar
  | @literal quote inner rest hquote hinner h ih =>
    have hopen : quote ≠ openBrace := ne_of_isQuote hquote rfl
    obtain ⟨front, rfl, hrest⟩ := exists_of_cons_eq_append hopen hcs
    cases List.append_eq_append_iff.mp hrest with
    | inl hbehind =>
      obtain ⟨mid, rfl, hmid⟩ := hbehind
      obtain ⟨mid, rfl, htail⟩ := exists_of_cons_eq_append hopen hmid
      rw [scan_literal hquote hinner]
      exact ih htail
    | inr hinside =>
      obtain ⟨mid, rfl, -⟩ := hinside
      have hstep : Mode.code.step quote = .literal quote := by simp [Mode.step, codeStep, hquote]
      rw [scan_cons, hstep]
      cases scan_literalBody_prefix hinner with
      | inl hm => rw [hm]; rfl
      | inr hm => rw [hm]; rfl
  | @blockComment inner rest hinner h ih =>
    obtain ⟨front, rfl, hmark⟩ := exists_of_cons_eq_append (by decide) hcs
    obtain ⟨front, rfl, hrest⟩ := exists_of_cons_eq_append (by decide) hmark
    cases List.append_eq_append_iff.mp hrest with
    | inl hbehind =>
      obtain ⟨mid, rfl, hmid⟩ := hbehind
      obtain ⟨mid, rfl, hslash⟩ := exists_of_cons_eq_append (by decide) hmid
      obtain ⟨mid, rfl, htail⟩ := exists_of_cons_eq_append (by decide) hslash
      rw [scan_blockComment hinner]
      exact ih htail
    | inr hinside =>
      obtain ⟨mid, rfl, -⟩ := hinside
      have hcomment : InComment .comment (front ++ mid) := .inl rfl
      cases scan_commentBody_prefix hinner hcomment with
      | inl hm => exact congrArg Mode.isOutside hm
      | inr hm => exact congrArg Mode.isOutside hm.1
  | lineComment hlines => contradiction
  | group hgroups => contradiction

/-! Matching braces. -/

theorem afterMatch_cons {c : Char} {rest : List Char} (hslash : c = '/' → rest.head? ≠ some '*')
    (depth : Nat) : afterMatch depth (c :: rest) =
      if c = openBrace then afterMatch (depth + 1) rest
      else if c = closeBrace then
        if depth ≤ 1 then some rest else afterMatch (depth - 1) rest
      else if isQuote c then afterMatch depth (afterLiteral c rest)
      else afterMatch depth rest := by
  apply afterMatch.eq_3
  intro tail hs htail
  exact hslash hs (congrArg List.head? htail)

theorem afterMatch_open (depth : Nat) (cs : List Char) :
    afterMatch depth (openBrace :: cs) = afterMatch (depth + 1) cs := by
  rw [afterMatch_cons fun hs => absurd hs (by decide), if_pos rfl]

theorem afterMatch_close (depth : Nat) (cs : List Char) :
    afterMatch depth (closeBrace :: cs) =
      if depth ≤ 1 then some cs else afterMatch (depth - 1) cs := by
  rw [afterMatch_cons fun hs => absurd hs (by decide), if_neg (by decide), if_pos rfl]

theorem afterMatch_literal {quote : Char} (hquote : isQuote quote = true) {inner : List Char}
    (h : LiteralBody quote inner) (depth : Nat) (rest : List Char) :
    afterMatch depth (quote :: (inner ++ quote :: rest)) = afterMatch depth rest := by
  rw [afterMatch_cons fun hs => absurd hs (ne_of_isQuote hquote rfl),
    if_neg (ne_of_isQuote hquote rfl), if_neg (ne_of_isQuote hquote rfl), if_pos hquote,
    afterLiteral, closeLiteral_append hquote h]

theorem afterMatch_blockComment {inner : List Char} (h : CommentBody inner) (depth : Nat)
    (rest : List Char) :
    afterMatch depth ('/' :: '*' :: (inner ++ '*' :: '/' :: rest)) = afterMatch depth rest := by
  rw [afterMatch, if_neg (by decide), if_neg (by decide), if_neg (by decide),
    closeComment_append_mark h]

theorem afterMatch_plain {c : Char} (hc : isPlain c = true) (depth : Nat) {rest : List Char}
    (hslash : c = '/' → rest.head? ≠ some '*') :
    afterMatch depth (c :: rest) = afterMatch depth rest := by
  obtain ⟨hquote, hopen, hclose⟩ := isPlain_cases hc
  rw [afterMatch_cons hslash, if_neg hopen, if_neg hclose, if_neg (by simp [hquote])]

/-- Matching braces passes over a complete text. -/
theorem Complete.afterMatch_append {cs : List Char} (h : Complete false true cs) (depth : Nat)
    {tail : List Char} (hstar : tail.head? ≠ some '*') :
    afterMatch (depth + 1) (cs ++ tail) = afterMatch (depth + 1) tail := by
  induction h generalizing depth tail with
  | nil => rfl
  | plain hc hslash h ih =>
    rw [List.cons_append, afterMatch_plain hc _ fun hs => head?_append_ne (hslash hs).2 hstar,
      ih depth hstar]
  | literal hquote hinner h ih =>
    rw [List.cons_append, List.append_assoc, List.cons_append, afterMatch_literal hquote hinner,
      ih depth hstar]
  | blockComment hinner h ih =>
    simp only [List.cons_append, List.append_assoc]
    rw [afterMatch_blockComment hinner, ih depth hstar]
  | lineComment hlines => contradiction
  | group hgroups hin h ihIn ih =>
    rw [List.cons_append, List.append_assoc, List.cons_append, afterMatch_open,
      ihIn (depth + 1) (by simp [closeBrace]), afterMatch_close, if_neg (by omega),
      Nat.add_sub_cancel, ih depth hstar]

end Sketchbook.Source
