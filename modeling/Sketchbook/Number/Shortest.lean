import Sketchbook.Number.Binary64

/-! The shortest decimal of a floating point number: the fewest digits that round to it, and
of those the nearest to it, the even one in the middle. -/
namespace Sketchbook.Number

def scaleByTen (num den : Nat) (places : Int) : Nat × Nat :=
  if 0 ≤ places then (num * Nat.pow 10 places.toNat, den)
  else (num, den * Nat.pow 10 places.natAbs)

def placesToOne (num den : Nat) : (fuel places : Nat) → Nat
  | 0, places => places
  | fuel + 1, places =>
    if den ≤ num * Nat.pow 10 places then places
    else placesToOne num den fuel (places + 1)

def leadingPower (num den : Nat) : Int :=
  if den ≤ num then ((Nat.toDigits 10 (num / den)).length : Int) - 1
  else -(placesToOne num den 324 1 : Int)

def quarters (x : Binary64) (count : Nat) : Nat × Nat :=
  Binary64.scale count 1 (x.exponent - 2)

/-- The quarters below `x` that still round to it. The gap below a power of two is half as
wide as the gap above. -/
def quartersBelow (x : Binary64) : Nat :=
  if x.mantissa = Binary64.leastMantissa ∧ x.exponent ≠ Binary64.leastExponent then 1 else 2

def roundsTo (x : Binary64) (digits : Nat) (places : Int) : Bool :=
  let (num, den) := scaleByTen digits 1 places
  let (lowNum, lowDen) := quarters x (4 * x.mantissa - quartersBelow x)
  let (highNum, highDen) := quarters x (4 * x.mantissa + 2)
  if x.mantissa % 2 = 0 then lowNum * den ≤ num * lowDen && num * highDen ≤ highNum * den
  else lowNum * den < num * lowDen && num * highDen < highNum * den

def onGrid? (x : Binary64) (places : Int) : Option Nat :=
  let (num, den) := scaleByTen x.fraction.1 x.fraction.2 (-places)
  let lower := num / den
  let nearest := Binary64.divNearest num den
  if roundsTo x nearest places then some nearest
  else if roundsTo x lower places then some lower
  else if roundsTo x (lower + 1) places then some (lower + 1)
  else none

/-- The digits and places of the first grid, from `count` digits on, with a decimal that
rounds to `x`. Seventeen digits always suffice. -/
def shortestFrom (x : Binary64) (leading : Int) : (fuel count : Nat) → Nat × Int
  | 0, _ => (0, 0)
  | fuel + 1, count =>
    let places := leading - (count : Int) + 1
    match onGrid? x places with
    | some digits => (digits, places)
    | none => shortestFrom x leading fuel (count + 1)

def shortest (x : Binary64) : Nat × Int :=
  shortestFrom x (leadingPower x.fraction.1 x.fraction.2) 17 1

end Sketchbook.Number
