import Sketchbook.Proofs.Prototype.OneLine

/-! How a text reads as literals, comments and single characters of code. Every text reads in one
way only, and taking its line comments out leaves every other piece as it stands: nothing new is
opened where a comment was, and nothing behind it is read in another way. -/
namespace Sketchbook.Source
open Prototype

def IsOpenLiteral (quote : Char) (inner : List Char) : Prop :=
  LiteralBody quote inner ∨ ∃ front, inner = front ++ ['\\'] ∧ LiteralBody quote front

/-- The text of a piece reads as that piece where `behind` stands behind it. Only at the end of the
text may a literal or block comment be open, and a line comment reaches to the end of its line. -/
inductive Piece.Fits : Piece → List Char → Prop where
  | code {c : Char} {behind : List Char} (hquote : isQuote c = false)
      (hslash : c = '/' → IsInert behind) : Fits (.code c) behind
  | literal {quote : Char} {inner behind : List Char} (hquote : isQuote quote = true)
      (hinner : LiteralBody quote inner) : Fits (.literal (quote :: (inner ++ [quote]))) behind
  | openLiteral {quote : Char} {inner : List Char} (hquote : isQuote quote = true)
      (hinner : IsOpenLiteral quote inner) : Fits (.literal (quote :: inner)) []
  | blockComment {inner behind : List Char} (hinner : CommentBody inner) :
      Fits (.blockComment ('/' :: '*' :: (inner ++ ['*', '/']))) behind
  | openComment {inner : List Char} (hinner : CommentBody inner) :
      Fits (.blockComment ('/' :: '*' :: inner)) []
  | lineComment {inner behind : List Char} (hinner : '\n' ∉ inner)
      (hend : behind = [] ∨ behind.head? = some '\n') :
      Fits (.lineComment ('/' :: '/' :: inner)) behind

inductive IsReading : List Char → List Piece → Prop where
  | nil : IsReading [] []
  | cons {piece : Piece} {behind : List Char} {rest : List Piece} (hpiece : piece.Fits behind)
      (hrest : IsReading behind rest) : IsReading (piece.text ++ behind) (piece :: rest)

variable {cs behind : List Char} {piece : Piece}

/-! ### Where literals and block comments end -/

theorem exists_of_closeLiteral {quote : Char} {cs inner after : List Char}
    (h : closeLiteral quote cs = some (inner, after)) :
    ∃ body, LiteralBody quote body ∧ inner = body ++ [quote] := by
  fun_induction closeLiteral quote cs generalizing inner after with
  | case1 => contradiction
  | case2 => contradiction
  | case3 c rest ih =>
    obtain ⟨⟨i, a⟩, hi, hs⟩ := Option.map_eq_some_iff.mp h
    obtain ⟨body, hbody, rfl⟩ := ih hi
    cases hs
    exact ⟨_, .escape hbody, rfl⟩
  | case4 =>
    cases h
    exact ⟨[], .nil, rfl⟩
  | case5 c rest hend hescape hquote ih =>
    obtain ⟨⟨i, a⟩, hi, hs⟩ := Option.map_eq_some_iff.mp h
    obtain ⟨body, hbody, rfl⟩ := ih hi
    cases hs
    exact ⟨_, .plain (ne_backslash hend hescape) hquote hbody, rfl⟩

/-- The inside of a literal closes nothing, so the literal is closed behind it or nowhere. -/
theorem closeLiteral_body_append {quote : Char} {inner : List Char} (h : LiteralBody quote inner)
    (rest : List Char) : closeLiteral quote (inner ++ rest) =
      (closeLiteral quote rest).map fun (body, after) => (inner ++ body, after) := by
  induction h with
  | nil => simp
  | escape h ih =>
    simp only [List.cons_append, closeLiteral, ih, Option.map_map]
    rfl
  | plain hback hquote h ih =>
    rw [List.cons_append, closeLiteral.eq_4 _ _ _ (fun hc => absurd hc hback)
      (fun _ _ hc => absurd hc hback), if_neg hquote, ih, Option.map_map]
    rfl

theorem isOpenLiteral_iff (quote : Char) (cs : List Char) :
    IsOpenLiteral quote cs ↔ closeLiteral quote cs = none := by
  constructor
  · rintro (h | ⟨front, rfl, h⟩)
    · have hnone := closeLiteral_body_append h []
      rwa [List.append_nil] at hnone
    · exact closeLiteral_body_append h ['\\']
  · intro h
    fun_induction closeLiteral quote cs with
    | case1 => exact .inl .nil
    | case2 => exact .inr ⟨[], rfl, .nil⟩
    | case3 c rest ih =>
      rcases ih (Option.map_eq_none_iff.mp h) with hbody | ⟨front, rfl, hfront⟩
      · exact .inl (.escape hbody)
      · exact .inr ⟨'\\' :: c :: front, rfl, .escape hfront⟩
    | case4 => contradiction
    | case5 c rest hend hescape hquote ih =>
      have hback := ne_backslash hend hescape
      rcases ih (Option.map_eq_none_iff.mp h) with hbody | ⟨front, rfl, hfront⟩
      · exact .inl (.plain hback hquote hbody)
      · exact .inr ⟨c :: front, rfl, .plain hback hquote hfront⟩

/-- A block comment is closed by its first closing mark, or there is none. -/
theorem commentBody_or (cs : List Char) :
    (∃ inner after, CommentBody inner ∧ cs = inner ++ '*' :: '/' :: after) ∨ CommentBody cs := by
  fun_induction closeComment cs with
  | case1 => exact .inr .nil
  | case2 rest => exact .inl ⟨[], rest, .nil, rfl⟩
  | case3 c rest hopen ih =>
    have hstar : c = '*' → rest.head? ≠ some '/' := by
      intro hc hhead
      obtain ⟨tail, htail⟩ := List.head?_eq_some_iff.mp hhead
      exact hopen tail hc htail
    rcases ih with ⟨inner, after, hinner, rfl⟩ | hrest
    · refine .inl ⟨c :: inner, after, .cons (fun hc hhead => hstar hc ?_) hinner, rfl⟩
      rw [List.head?_append, hhead, Option.some_or]
    · exact .inr (.cons hstar hrest)

theorem closeComment_of_body (h : CommentBody cs) : closeComment cs = (cs, []) := by
  induction h with
  | nil => rfl
  | cons hstar h ih =>
    rw [closeComment.eq_3, ih]
    intro tail hc htail
    exact hstar hc (congrArg List.head? htail)

/-! ### The one reading of a text -/

theorem firstPiece_fits (c : Char) (rest : List Char) :
    (firstPiece c rest).1.Fits (firstPiece c rest).2 := by
  fun_cases firstPiece c rest with
  | case1 c rest hquote inner after hclose =>
    obtain ⟨body, hbody, rfl⟩ := exists_of_closeLiteral hclose
    exact .literal hquote hbody
  | case2 c rest hquote hclose => exact .openLiteral hquote ((isOpenLiteral_iff _ _).mpr hclose)
  | case3 rest =>
    rcases commentBody_or rest with ⟨inner, after, hinner, rfl⟩ | hrest
    · rw [closeComment_append_mark hinner]
      exact .blockComment hinner
    · rw [closeComment_of_body hrest]
      exact .openComment hrest
  | case4 rest =>
    refine .lineComment (fun hmem => ?_) ?_
    · simpa using List.all_eq_true.mp List.all_takeWhile _ hmem
    · have hhead := List.head?_dropWhile_not (· ≠ '\n') rest
      cases hdrop : rest.dropWhile (· ≠ '\n') with
      | nil => exact .inl rfl
      | cons d after =>
        rw [hdrop] at hhead
        simpa using hhead
  | case5 c rest hstar hslash hquote =>
    refine .code (by simpa using hquote) fun hc => ⟨fun hhead => ?_, fun hhead => ?_⟩
    · obtain ⟨tail, htail⟩ := List.head?_eq_some_iff.mp hhead
      exact hslash tail hc htail
    · obtain ⟨tail, htail⟩ := List.head?_eq_some_iff.mp hhead
      exact hstar tail hc htail

theorem pieces_of_firstPiece {c : Char} {rest : List Char}
    (h : firstPiece c rest = (piece, behind)) : pieces (c :: rest) = piece :: pieces behind := by
  rw [pieces, h]

/-- A piece that fits is the first piece of the text. -/
theorem Piece.Fits.pieces_append (h : piece.Fits behind) :
    pieces (piece.text ++ behind) = piece :: pieces behind := by
  cases h with
  | code hquote hslash => exact pieces_of_firstPiece (firstPiece_code hquote hslash)
  | literal hquote hinner =>
    simpa [Piece.text] using pieces_of_firstPiece (firstPiece_literal hquote hinner behind)
  | @openLiteral quote inner hquote hinner =>
    have hfirst : firstPiece quote inner = (.literal (quote :: inner), []) := by
      rw [firstPiece_eq fun hs => absurd hs (ne_of_isQuote hquote rfl), if_pos hquote,
        (isOpenLiteral_iff quote inner).mp hinner]
    rw [List.append_nil]
    exact pieces_of_firstPiece hfirst
  | blockComment hinner =>
    simpa [Piece.text] using pieces_of_firstPiece (firstPiece_blockComment hinner behind)
  | @openComment inner hinner =>
    have hfirst : firstPiece '/' ('*' :: inner) = (.blockComment ('/' :: '*' :: inner), []) := by
      rw [firstPiece, if_neg (by decide), closeComment_of_body hinner]
    rw [List.append_nil]
    exact pieces_of_firstPiece hfirst
  | lineComment hinner hend => exact pieces_of_firstPiece (firstPiece_lineComment hinner hend)

theorem isReading_pieces (cs : List Char) : IsReading cs (pieces cs) := by
  fun_induction pieces cs with
  | case1 => exact .nil
  | case2 c rest ih =>
    rw [← firstPiece_text_append c rest]
    exact .cons (firstPiece_fits c rest) ih

/-- A text reads as the pieces it is cut into and in no other way. -/
theorem isReading_iff {ps : List Piece} : IsReading cs ps ↔ ps = pieces cs := by
  constructor
  · intro h
    induction h with
    | nil => rw [pieces]
    | cons hpiece hrest ih => rw [hpiece.pieces_append, ih]
  · rintro rfl
    exact isReading_pieces cs

/-! ### Without line comments -/

def Piece.spaced : Piece → Piece
  | .lineComment _ => .code ' '
  | piece => piece

def Piece.isKept : Piece → Bool
  | .literal _ | .blockComment _ => true
  | .code _ | .lineComment _ => false

theorem Piece.text_spaced (piece : Piece) : piece.spaced.text = piece.withoutLineComment := by
  cases piece <;> rfl

theorem Piece.withoutLineComment_spaced (piece : Piece) :
    piece.spaced.withoutLineComment = piece.withoutLineComment := by
  cases piece <;> rfl

theorem filter_isKept_spaced (ps : List Piece) :
    (ps.map Piece.spaced).filter Piece.isKept = ps.filter Piece.isKept := by
  induction ps with
  | nil => rfl
  | cons piece ps ih => cases piece <;> simp [Piece.spaced, Piece.isKept, List.filter_cons, ih]

/-- A piece still fits when the text behind it has lost its line comments. -/
theorem Piece.Fits.spaced (h : piece.Fits behind) :
    piece.spaced.Fits (stripLineComments behind) := by
  cases h with
  -- a slash of code has no slash behind it, so no line comment follows it either
  | code hquote hslash => exact .code hquote fun hc => isInert_stripLineComments (hslash hc)
  | literal hquote hinner => exact .literal hquote hinner
  | openLiteral hquote hinner =>
    rw [stripLineComments_nil]
    exact .openLiteral hquote hinner
  | blockComment hinner => exact .blockComment hinner
  | openComment hinner =>
    rw [stripLineComments_nil]
    exact .openComment hinner
  | lineComment hinner hend => exact .code rfl fun hc => absurd hc (by decide)

/-- No line ends within a line comment. -/
theorem Piece.Fits.count_lineFeed (h : piece.Fits behind) :
    piece.withoutLineComment.count '\n' = piece.text.count '\n' := by
  cases h with
  | lineComment hinner hend =>
    simp [Piece.withoutLineComment, Piece.text, List.count_eq_zero_of_not_mem hinner]
  | code | literal | openLiteral | blockComment | openComment => rfl

theorem pieces_stripLineComments (cs : List Char) :
    pieces (stripLineComments cs) = (pieces cs).map Piece.spaced := by
  fun_induction pieces cs with
  | case1 => rw [stripLineComments_nil, pieces, List.map_nil]
  | case2 c rest ih =>
    rw [stripLineComments_cons, ← Piece.text_spaced,
      (firstPiece_fits c rest).spaced.pieces_append, ih, List.map_cons]

theorem count_lineFeed_stripLineComments (cs : List Char) :
    (stripLineComments cs).count '\n' = cs.count '\n' := by
  fun_induction pieces cs with
  | case1 => rw [stripLineComments_nil]
  | case2 c rest ih =>
    rw [stripLineComments_cons, List.count_append, ih, (firstPiece_fits c rest).count_lineFeed,
      ← List.count_append, firstPiece_text_append]

theorem stripLineComments_idempotent (cs : List Char) :
    stripLineComments (stripLineComments cs) = stripLineComments cs := by
  calc
    stripLineComments (stripLineComments cs)
        = ((pieces cs).map Piece.spaced).flatMap Piece.withoutLineComment := by
          rw [stripLineComments, pieces_stripLineComments]
    _ = (pieces cs).flatMap Piece.withoutLineComment := by
          simp only [List.flatMap_map, Piece.withoutLineComment_spaced]

/-- A text reads in one way, and without its line comments it reads as the same pieces with a
single space for each line comment. So literals and block comments are kept as they are and in
their order, no line is lost, and taking line comments out once more changes nothing. -/
theorem stripLineComments_reading (cs : List Char) :
    ∃ ps qs, (∀ reading, IsReading cs reading ↔ reading = ps) ∧
      (∀ reading, IsReading (stripLineComments cs) reading ↔ reading = qs) ∧
      qs = ps.map Piece.spaced ∧ cs = ps.flatMap Piece.text ∧
      stripLineComments cs = qs.flatMap Piece.text ∧
      qs.filter Piece.isKept = ps.filter Piece.isKept ∧
      (stripLineComments cs).count '\n' = cs.count '\n' ∧
      stripLineComments (stripLineComments cs) = stripLineComments cs := by
  have hspaced := pieces_stripLineComments cs
  refine ⟨pieces cs, pieces (stripLineComments cs), fun _ => isReading_iff, fun _ => isReading_iff,
    hspaced, (flatMap_text_pieces cs).symm, (flatMap_text_pieces _).symm, ?_,
    count_lineFeed_stripLineComments cs, stripLineComments_idempotent cs⟩
  rw [hspaced, filter_isKept_spaced]

end Sketchbook.Source
