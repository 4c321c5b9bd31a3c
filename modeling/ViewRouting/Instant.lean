/-! Points of time, counted in milliseconds from the start of 1970, and their calendar texts. -/

namespace ViewRouting

/-- A point at most a hundred million days away from the start of 1970. -/
structure Instant where
  milliseconds : Int
  inRange : milliseconds.natAbs ≤ 8640000000000000
  deriving DecidableEq, Repr

namespace Instant

def epoch : Instant := ⟨0, by decide⟩

def day (t : Instant) : Int :=
  t.milliseconds / 86400000

def secondOfDay (t : Instant) : Nat :=
  (t.milliseconds % 86400000).toNat / 1000

def fraction (t : Instant) : Nat :=
  (t.milliseconds % 1000).toNat

/-- Year, month and day of the day `days` after the first of January 1970. Years are counted from
March, in cycles of 400, so that a leap day ends its year. -/
def civil (days : Int) : Int × Nat × Nat :=
  let n := days + 719468
  let cycle := n / 146097
  let dayOfCycle := (n % 146097).toNat
  let yearOfCycle :=
    (dayOfCycle - dayOfCycle / 1460 + dayOfCycle / 36524 - dayOfCycle / 146096) / 365
  let dayOfYear := dayOfCycle - (365 * yearOfCycle + yearOfCycle / 4 - yearOfCycle / 100)
  let fromMarch := (5 * dayOfYear + 2) / 153
  let month := if fromMarch < 10 then fromMarch + 3 else fromMarch - 9
  (400 * cycle + yearOfCycle + (if month ≤ 2 then 1 else 0), month,
    dayOfYear - (153 * fromMarch + 2) / 5 + 1)

def padded (size n : Nat) : String :=
  let digits := Nat.toDigits 10 n
  String.ofList (List.replicate (size - digits.length) '0' ++ digits)

/-- A year of four digits stands as it is; any other takes a sign and six. -/
def yearText (year : Int) : String :=
  if 0 ≤ year ∧ year ≤ 9999 then padded 4 year.natAbs
  else (if year < 0 then "-" else "+") ++ padded 6 year.natAbs

def timeOfDay (seconds : Nat) : String :=
  padded 2 (seconds / 3600) ++ ":" ++ padded 2 (seconds / 60 % 60) ++ ":" ++ padded 2 (seconds % 60)

/-- Calendar date and time of day in universal time, such as `1970-01-01T00:00:00.000Z`. -/
def text (t : Instant) : String :=
  let (year, month, day) := civil t.day
  yearText year ++ "-" ++ padded 2 month ++ "-" ++ padded 2 day ++ "T"
    ++ timeOfDay t.secondOfDay ++ "." ++ padded 3 t.fraction ++ "Z"

/-- Names of the days of a week that starts like the year 1970. -/
def weekdays : List String :=
  ["Thu", "Fri", "Sat", "Sun", "Mon", "Tue", "Wed"]

def months : List String :=
  ["Jan", "Feb", "Mar", "Apr", "May", "Jun", "Jul", "Aug", "Sep", "Oct", "Nov", "Dec"]

def longText (t : Instant) : String :=
  let (year, month, day) := civil t.day
  (weekdays[(t.day % 7).toNat]?).getD "" ++ " " ++ (months[month - 1]?).getD "" ++ " "
    ++ padded 2 day ++ " " ++ (if year < 0 then "-" else "") ++ padded 4 year.natAbs ++ " "
    ++ timeOfDay t.secondOfDay ++ " GMT+0000 (Coordinated Universal Time)"

end Instant

end ViewRouting
