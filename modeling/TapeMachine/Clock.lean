/-!
# Points in time

The times that stand in log lines and in names of log files.

## Main statements

* `Moment.length_pad` — a padded number has at least the width asked for
* `Moment.ofUnix_epoch` — the count of seconds begins with the year 1970
-/

namespace TapeMachine

/-- A point in time, in universal time. -/
structure Moment where
  year : Nat
  month : Nat
  day : Nat
  hour : Nat
  minute : Nat
  second : Nat
  microsecond : Nat
  deriving DecidableEq, Repr

namespace Moment

/-- A number with zeros in front, up to a width. -/
def pad (width n : Nat) : String :=
  let digits := (Nat.repr n).toList
  String.ofList (List.replicate (width - digits.length) '0' ++ digits)

theorem length_pad (width n : Nat) : width ≤ (pad width n).length := by
  simp [pad]; omega

def date (t : Moment) : String := pad 4 t.year ++ "-" ++ pad 2 t.month ++ "-" ++ pad 2 t.day

/-- Hours, minutes and seconds, with the fraction of a second unless it is zero. -/
def time (t : Moment) : String :=
  pad 2 t.hour ++ ":" ++ pad 2 t.minute ++ ":" ++ pad 2 t.second ++
    if t.microsecond = 0 then "" else "." ++ pad 6 t.microsecond

def stamp (t : Moment) : String := t.date ++ "T" ++ t.time ++ "+00:00"

def spoken (t : Moment) : String := t.date ++ " " ++ t.time

/-! ## Counting seconds -/

/-- Year, month and day of a day counted from the first of March of the year zero. The year is taken
to begin in March, so that a leap day is its last day; 400 years have 146097 days. -/
def civil (days : Nat) : Nat × Nat × Nat :=
  let era := days / 146097
  let day := days % 146097
  let year := (day - day / 1460 + day / 36524 - day / 146096) / 365
  let dayOfYear := day - (365 * year + year / 4 - year / 100)
  let march := (5 * dayOfYear + 2) / 153
  let month := if march < 10 then march + 3 else march - 9
  (era * 400 + year + (if month ≤ 2 then 1 else 0), month, dayOfYear - (153 * march + 2) / 5 + 1)

/-- The point in time some seconds and microseconds after the beginning of 1970. -/
def ofUnix (seconds microsecond : Nat) : Moment :=
  let (year, month, day) := civil (seconds / 86400 + 719468)
  let rest := seconds % 86400
  { year, month, day, hour := rest / 3600, minute := rest % 3600 / 60, second := rest % 60,
    microsecond }

theorem ofUnix_epoch : ofUnix 0 0 = ⟨1970, 1, 1, 0, 0, 0, 0⟩ := by decide

end Moment

end TapeMachine
