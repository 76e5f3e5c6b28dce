import Sketchbook.Number.Shortest

/-! The text of a floating point number: its shortest decimal, written out in places for
powers of ten from -5 to 15 and with an exponent otherwise. -/
namespace Sketchbook.Number

def exponentText (exponent : Int) : List Char :=
  let digits := Nat.toDigits 10 exponent.natAbs
  (if 0 ≤ exponent then '+' else '-') ::
    (if digits.length < 2 then '0' :: digits else digits)

def pointText (digits : List Char) (power : Int) : List Char :=
  if power < 0 then '0' :: '.' :: (List.replicate (power.natAbs - 1) '0' ++ digits)
  else
    let whole := power.toNat + 1
    if digits.length ≤ whole then
      digits ++ List.replicate (whole - digits.length) '0' ++ ['.', '0']
    else digits.take whole ++ '.' :: digits.drop whole

def exponentialText (digits : List Char) (power : Int) : List Char :=
  (match digits with
    | [] => []
    | [digit] => [digit]
    | digit :: more => digit :: '.' :: more) ++ 'e' :: exponentText power

def significant (digits : List Char) : List Char :=
  (digits.reverse.dropWhile (· == '0')).reverse

def magnitudeText (x : Binary64) : List Char :=
  if x.isZero then ['0', '.', '0']
  else
    let (number, places) := shortest x
    let digits := Nat.toDigits 10 number
    let power := places + (digits.length : Int) - 1
    if -5 ≤ power ∧ power ≤ 15 then pointText (significant digits) power
    else exponentialText (significant digits) power

def floatText (negative : Bool) (x : Binary64) : String :=
  String.ofList (if negative then '-' :: magnitudeText x else magnitudeText x)

end Sketchbook.Number
