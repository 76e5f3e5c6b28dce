/-! Calendar dates of the proleptic Gregorian calendar and the text of a point in time. Days
count from 1970-01-01, and years start in March so that a leap day ends its year. -/
namespace Sketchbook.Calendar

structure Date where
  year : Int
  month : Nat
  day : Nat
  deriving DecidableEq, Repr

def cycleDays : Int := 146097

/-- The date of a day. Counting from 0000-03-01, a day lies in a cycle of 400 years, there in
a year, and there in a month; months from March on have 153 days in every five. -/
def ofDay (day : Int) : Date :=
  let fromMarch := day + 719468
  let cycle := fromMarch.fdiv cycleDays
  let inCycle := (fromMarch.fmod cycleDays).toNat
  let yearOfCycle := (inCycle - inCycle / 1460 + inCycle / 36524 - inCycle / 146096) / 365
  let inYear := inCycle - (365 * yearOfCycle + yearOfCycle / 4 - yearOfCycle / 100)
  let monthFromMarch := (5 * inYear + 2) / 153
  let month := if monthFromMarch < 10 then monthFromMarch + 3 else monthFromMarch - 9
  { year := cycle * 400 + yearOfCycle + (if month ≤ 2 then 1 else 0)
    month := month
    day := inYear - (153 * monthFromMarch + 2) / 5 + 1 }

/-- A point in time `seconds` after the start of 1970, shown `offset` seconds east of
Greenwich. A leap second is the second before it with `nanos` from a thousand million on. -/
structure Instant where
  seconds : Int
  nanos : Nat := 0
  offset : Int := 0
  deriving DecidableEq, Repr

def padded (width n : Nat) : String :=
  let digits := (Nat.repr n).toList
  String.ofList (List.replicate (width - digits.length) '0' ++ digits)

def yearText (year : Int) : String :=
  if 0 ≤ year ∧ year ≤ 9999 then padded 4 year.toNat
  else (if year < 0 then "-" else "+") ++ padded 4 year.natAbs

def Instant.render (instant : Instant) : String :=
  let shown := instant.seconds + instant.offset
  let date := ofDay (shown.fdiv 86400)
  let inDay := (shown.fmod 86400).toNat
  yearText date.year ++ "-" ++ padded 2 date.month ++ "-" ++ padded 2 date.day ++ " " ++
    padded 2 (inDay / 3600) ++ ":" ++ padded 2 (inDay / 60 % 60) ++ ":" ++
    padded 2 (inDay % 60 + instant.nanos / 1000000000)

end Sketchbook.Calendar
