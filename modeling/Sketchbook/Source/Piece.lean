/-! Source text is cut into literals, comments and single characters of code. A literal or
block comment that is never closed reaches to the end of the text. Taking line comments out
replaces each by one space and keeps every other piece as it stands. -/
namespace Sketchbook.Source

def isQuote (c : Char) : Bool := c == '"' || c == '\''

/-- Splits the text behind an opening quote after the closing one; a backslash takes the
character behind it along. `none` if the literal is never closed. -/
def closeLiteral (quote : Char) : List Char → Option (List Char × List Char)
  | [] => none
  | ['\\'] => none
  | '\\' :: c :: rest => (closeLiteral quote rest).map fun (inner, after) =>
      ('\\' :: c :: inner, after)
  | c :: rest =>
    if c = quote then some ([c], rest)
    else (closeLiteral quote rest).map fun (inner, after) => (c :: inner, after)

def closeComment : List Char → List Char × List Char
  | [] => ([], [])
  | '*' :: '/' :: rest => (['*', '/'], rest)
  | c :: rest => (c :: (closeComment rest).1, (closeComment rest).2)

theorem closeLiteral_eq_append {quote : Char} {cs inner after : List Char}
    (h : closeLiteral quote cs = some (inner, after)) : cs = inner ++ after := by
  fun_induction closeLiteral quote cs generalizing inner after with
  | case1 => contradiction
  | case2 => contradiction
  | case3 c rest ih =>
    obtain ⟨⟨i, a⟩, hi, hs⟩ := Option.map_eq_some_iff.mp h
    cases hs
    simp [ih hi]
  | case4 => cases h; rfl
  | case5 c rest _ _ _ ih =>
    obtain ⟨⟨i, a⟩, hi, hs⟩ := Option.map_eq_some_iff.mp h
    cases hs
    simp [ih hi]

theorem closeComment_append (cs : List Char) :
    (closeComment cs).1 ++ (closeComment cs).2 = cs := by
  fun_induction closeComment cs with
  | case1 => rfl
  | case2 => rfl
  | case3 c rest _ ih => simp [ih]

theorem closeLiteral_length_le {quote : Char} {cs inner after : List Char}
    (h : closeLiteral quote cs = some (inner, after)) : after.length ≤ cs.length := by
  rw [closeLiteral_eq_append h, List.length_append]
  omega

theorem closeComment_length_le (cs : List Char) :
    (closeComment cs).2.length ≤ cs.length := by
  have h := congrArg List.length (closeComment_append cs)
  rw [List.length_append] at h
  omega

inductive Piece where
  | code (c : Char)
  | literal (text : List Char)
  | blockComment (text : List Char)
  | lineComment (text : List Char)
  deriving DecidableEq, Repr

def Piece.text : Piece → List Char
  | .code c => [c]
  | .literal text | .blockComment text | .lineComment text => text

def firstPiece (c : Char) (rest : List Char) : Piece × List Char :=
  if isQuote c then
    match closeLiteral c rest with
    | some (inner, after) => (.literal (c :: inner), after)
    | none => (.literal (c :: rest), [])
  else match c, rest with
    | '/', '*' :: rest =>
      (.blockComment ('/' :: '*' :: (closeComment rest).1), (closeComment rest).2)
    | '/', '/' :: rest =>
      (.lineComment ('/' :: '/' :: rest.takeWhile (· ≠ '\n')), rest.dropWhile (· ≠ '\n'))
    | c, rest => (.code c, rest)

theorem firstPiece_text_append (c : Char) (rest : List Char) :
    (firstPiece c rest).1.text ++ (firstPiece c rest).2 = c :: rest := by
  fun_cases firstPiece c rest with
  | case1 _ _ _ inner after h => simp [Piece.text, closeLiteral_eq_append h]
  | case2 => simp [Piece.text]
  | case3 rest _ => simp [Piece.text, closeComment_append]
  | case4 rest _ => simp [Piece.text]
  | case5 => rfl

theorem firstPiece_length_le (c : Char) (rest : List Char) :
    (firstPiece c rest).2.length ≤ rest.length := by
  fun_cases firstPiece c rest with
  | case1 _ _ _ inner after h => exact closeLiteral_length_le h
  | case2 => exact Nat.zero_le _
  | case3 rest _ =>
    have h := closeComment_length_le rest
    simp only [List.length_cons]
    omega
  | case4 rest _ =>
    have h := (List.dropWhile_sublist (l := rest) (· ≠ '\n')).length_le
    simp only [List.length_cons]
    omega
  | case5 => exact Nat.le_refl _

def pieces : List Char → List Piece
  | [] => []
  | c :: rest => (firstPiece c rest).1 :: pieces (firstPiece c rest).2
termination_by cs => cs.length
decreasing_by exact Nat.lt_succ_of_le (firstPiece_length_le c rest)

/-- Cutting into pieces loses nothing. -/
theorem flatMap_text_pieces (cs : List Char) : (pieces cs).flatMap Piece.text = cs := by
  fun_induction pieces cs with
  | case1 => rfl
  | case2 c rest ih => rw [List.flatMap_cons, ih, firstPiece_text_append]

def Piece.withoutLineComment : Piece → List Char
  | .lineComment _ => [' ']
  | piece => piece.text

def stripLineComments (cs : List Char) : List Char :=
  (pieces cs).flatMap Piece.withoutLineComment

end Sketchbook.Source
