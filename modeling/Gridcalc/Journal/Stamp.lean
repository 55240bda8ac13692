/-! # Time stamps

The written form of a moment, which is given by the time since the beginning of 1970 in UTC.
-/

namespace Gridcalc

structure CivilDate where
  year : Int
  month : Int
  day : Int
deriving DecidableEq, Repr

/-- The date so many days after the first of January 1970, in the Gregorian calendar. Years are
counted from March, so that the leap day is the last one, in cycles of 400 years. -/
def CivilDate.ofDays (days : Int) : CivilDate :=
  let fromMarch := days + 719468
  let cycle := fromMarch / 146097
  let dayOfCycle := fromMarch % 146097
  let yearOfCycle :=
    (dayOfCycle - dayOfCycle / 1460 + dayOfCycle / 36524 - dayOfCycle / 146096) / 365
  let dayOfYear := dayOfCycle - (365 * yearOfCycle + yearOfCycle / 4 - yearOfCycle / 100)
  let monthFromMarch := (5 * dayOfYear + 2) / 153
  let month := if monthFromMarch < 10 then monthFromMarch + 3 else monthFromMarch - 9
  { year := yearOfCycle + cycle * 400 + if month ≤ 2 then 1 else 0
    month := month
    day := dayOfYear - (153 * monthFromMarch + 2) / 5 + 1 }

def zeroPadded (width : Nat) (i : Int) : String :=
  let digits := Nat.toDigits 10 i.natAbs
  String.ofList (List.replicate (width - digits.length) '0' ++ digits)

def stampText (seconds : Int) (microseconds : Nat) : String :=
  let date := CivilDate.ofDays (seconds / 86400)
  let time := seconds % 86400
  zeroPadded 4 date.year ++ "-" ++ zeroPadded 2 date.month ++ "-" ++ zeroPadded 2 date.day ++ "T" ++
    zeroPadded 2 (time / 3600) ++ ":" ++ zeroPadded 2 (time / 60 % 60) ++ ":" ++
    zeroPadded 2 (time % 60) ++ "." ++ zeroPadded 6 microseconds ++ "Z"

end Gridcalc
