namespace FormHarvest

/-- A moment in universal time, to the second. Months and days count from one. -/
structure Moment where
  year : Nat
  month : Nat
  day : Nat
  hour : Nat
  minute : Nat
  second : Nat
deriving DecidableEq

namespace Moment

/-- The date of a day by its number from the first of January 1970 on. Years are counted from March
on, so that the day which is sometimes missing comes last: then the months are as long as the whole
parts of multiples of 153 / 5 say, and 146097 days are 400 years. -/
def dateOfDay (day : Nat) : Nat × Nat × Nat :=
  let days := day + 719468
  let inCycle := days % 146097
  let yearInCycle := (inCycle - inCycle / 1460 + inCycle / 36524 - inCycle / 146096) / 365
  let inYear := inCycle - (365 * yearInCycle + yearInCycle / 4 - yearInCycle / 100)
  let monthFromMarch := (5 * inYear + 2) / 153
  let dayOfMonth := inYear - (153 * monthFromMarch + 2) / 5 + 1
  let month := if monthFromMarch < 10 then monthFromMarch + 3 else monthFromMarch - 9
  let year := yearInCycle + days / 146097 * 400
  (if month ≤ 2 then year + 1 else year, month, dayOfMonth)

/-- The moment that is so many seconds after the start of 1970. -/
def ofSeconds (seconds : Nat) : Moment :=
  let (year, month, day) := dateOfDay (seconds / 86400)
  let time := seconds % 86400
  { year, month, day, hour := time / 3600, minute := time / 60 % 60, second := time % 60 }

/-- A number with zeros in front, up to a width. -/
def padded (width n : Nat) : String :=
  let digits := Nat.toDigits 10 n
  String.ofList (List.replicate (width - digits.length) '0' ++ digits)

def date (moment : Moment) : String :=
  s!"{padded 4 moment.year}-{padded 2 moment.month}-{padded 2 moment.day}"

def time (moment : Moment) : String :=
  s!"{padded 2 moment.hour}:{padded 2 moment.minute}:{padded 2 moment.second}"

/-- The text of a moment in dated files. -/
def text (moment : Moment) : String := s!"{moment.date}T{moment.time}Z"

example : ofSeconds 0 = ⟨1970, 1, 1, 0, 0, 0⟩ := by decide

example : ofSeconds 951782400 = ⟨2000, 2, 29, 0, 0, 0⟩ := by decide

example : ofSeconds 981173106 = ⟨2001, 2, 3, 4, 5, 6⟩ := by decide

end Moment

end FormHarvest
