/-!
# Points in time

The time of a log line is a date and the time of day in the zone of the
meridian. Days are counted from the first of March, so that the day that leap
years add is the last one of a year.
-/

namespace StoredProc.Time

/-- A number in at least so many digits. -/
def padded (width value : Nat) : String :=
  let digits := value.repr
  String.ofList (List.replicate (width - digits.length) '0') ++ digits

/-- The days of an era of four hundred years. -/
def eraDays : Nat := 146097

/-- The year of a day of an era, and the day of that year. -/
def yearOfDay (day : Nat) : Nat × Nat :=
  let year := (day - day / 1460 + day / 36524 - day / 146096) / 365
  (year, day - (365 * year + year / 4 - year / 100))

/-- The date of a day, counted from the first of March of the year zero. -/
def dateOfDay (day : Nat) : Nat × Nat × Nat :=
  let (yearInEra, dayOfYear) := yearOfDay (day % eraDays)
  let month := (5 * dayOfYear + 2) / 153
  let dayOfMonth := dayOfYear - (153 * month + 2) / 5 + 1
  let year := day / eraDays * 400 + yearInEra
  if month < 10 then (year, month + 3, dayOfMonth) else (year + 1, month - 9, dayOfMonth)

/-- The days from the first of March of the year zero to the first of January of
the year 1970. -/
def epochDay : Nat := 719468

/-- The point in time so many seconds after the start of 1970. -/
def ofSeconds (seconds : Nat) : String :=
  let (year, month, day) := dateOfDay (epochDay + seconds / 86400)
  let rest := seconds % 86400
  padded 4 year ++ "-" ++ padded 2 month ++ "-" ++ padded 2 day ++ "T"
    ++ padded 2 (rest / 3600) ++ ":" ++ padded 2 (rest / 60 % 60) ++ ":" ++ padded 2 (rest % 60)
    ++ "Z"

end StoredProc.Time
