/-! Magnitudes of floating point numbers in 64 bits, as a mantissa times a power of two. Every
operation computes an exact fraction first and rounds it once, to the nearest number and to
the even mantissa in the middle. -/
namespace Sketchbook.Number

structure Binary64 where
  mantissa : Nat
  exponent : Int
  deriving DecidableEq, Repr

namespace Binary64

def leastMantissa : Nat := 0x10000000000000

def leastExponent : Int := -1074
def greatestExponent : Int := 971

def zero : Binary64 := ⟨0, leastExponent⟩

def isZero (x : Binary64) : Bool := x.mantissa == 0

def divNearest (num den : Nat) : Nat :=
  let quotient := num / den
  let twice := 2 * (num % den)
  if twice < den ∨ (twice = den ∧ quotient % 2 = 0) then quotient else quotient + 1

def scale (num den : Nat) (exponent : Int) : Nat × Nat :=
  if 0 ≤ exponent then (num * Nat.pow 2 exponent.toNat, den)
  else (num, den * Nat.pow 2 exponent.natAbs)

def ofFraction (num den : Nat) : Option Binary64 :=
  if num = 0 then some zero
  else
    let guess : Int := (Nat.log2 num : Int) - (Nat.log2 den : Int) - 52
    let (n, d) := scale num den (-guess)
    let fitted := if n / d < leastMantissa then guess - 1 else guess
    let exponent := max fitted leastExponent
    let (n, d) := scale num den (-exponent)
    let mantissa := divNearest n d
    let rounded : Binary64 :=
      if mantissa = 2 * leastMantissa then ⟨leastMantissa, exponent + 1⟩
      else ⟨mantissa, exponent⟩
    if rounded.exponent ≤ greatestExponent then some rounded else none

def fraction (x : Binary64) : Nat × Nat := scale x.mantissa 1 x.exponent

def mul (x y : Binary64) : Option Binary64 :=
  ofFraction (x.fraction.1 * y.fraction.1) (x.fraction.2 * y.fraction.2)

def div (x y : Binary64) : Option Binary64 :=
  ofFraction (x.fraction.1 * y.fraction.2) (x.fraction.2 * y.fraction.1)

def greatestPower : Nat := 308

def scaleTen (x : Binary64) (places : Int) : Option Binary64 :=
  if places.natAbs ≤ greatestPower then do
    let power ← ofFraction (Nat.pow 10 places.natAbs) 1
    if 0 ≤ places then x.mul power else x.div power
  else if x.isZero then some x
  else if 0 ≤ places then none
  else do
    let power ← ofFraction (Nat.pow 10 greatestPower) 1
    (← x.div power).scaleTen (places + greatestPower)
termination_by places.natAbs
decreasing_by
  simp only [greatestPower] at *
  omega

/-- The number read from a decimal: its digits and the power of ten that follows them. Digits
are rounded before they are scaled. -/
def ofDecimal (digits : Nat) (places : Int) : Option Binary64 := do
  (← ofFraction digits 1).scaleTen places

end Binary64

end Sketchbook.Number
