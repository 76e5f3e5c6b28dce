import Sketchbook.Source.Piece

/-! The body of a function definition runs from the first brace of the text to the brace
that matches it. Braces in literals and block comments do not count towards the match. -/
namespace Sketchbook.Source

def openBrace : Char := '\x7b'
def closeBrace : Char := '\x7d'

/-- The text behind a literal whose opening quote stands just before it. A literal that is
never closed is no literal, and nothing is skipped. -/
def afterLiteral (quote : Char) (cs : List Char) : List Char :=
  match closeLiteral quote cs with
  | some (_, after) => after
  | none => cs

theorem afterLiteral_length_le (quote : Char) (cs : List Char) :
    (afterLiteral quote cs).length ≤ cs.length := by
  unfold afterLiteral
  split
  · next h => exact closeLiteral_length_le h
  · exact Nat.le_refl _

def afterMatch (depth : Nat) : List Char → Option (List Char)
  | [] => none
  | c :: rest =>
    if c = openBrace then afterMatch (depth + 1) rest
    else if c = closeBrace then
      if depth ≤ 1 then some rest else afterMatch (depth - 1) rest
    else if isQuote c then afterMatch depth (afterLiteral c rest)
    else match c, rest with
      | '/', '*' :: rest => afterMatch depth (closeComment rest).2
      | _, rest => afterMatch depth rest
termination_by cs => cs.length
decreasing_by
  · simp
  · simp
  · exact Nat.lt_succ_of_le (afterLiteral_length_le c rest)
  · have h := closeComment_length_le rest
    simp only [List.length_cons]
    omega
  · simp

def afterLastBrace : List Char → Option (List Char)
  | [] => none
  | c :: rest => (afterLastBrace rest).or (if c = closeBrace then some rest else none)

/-- Takes the body out. Where no brace matches the first one, the cut goes through the last
closing brace behind it; a text without such a brace stays whole. -/
def stripBody (cs : List Char) : List Char :=
  match cs.dropWhile (· ≠ openBrace) with
  | [] => cs
  | _ :: inner =>
    match (afterMatch 1 inner).or (afterLastBrace inner) with
    | some after => cs.takeWhile (· ≠ openBrace) ++ after
    | none => cs

end Sketchbook.Source
