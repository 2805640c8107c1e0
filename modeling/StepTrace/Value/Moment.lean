/-!
# Dates

A date is a day, and perhaps a time of day; the time may say how far it is from the common time of
the world.  A date is shown in two ways: as text it is written as calendars do, with the day and the
time of day; inside lists and mappings, and in messages, it is shown by its parts.

Two dates are the same if their parts are; times that are tied to the common time are the same if
they are the same instant.
-/

namespace StepTrace

/-- A day of the calendar. -/
structure Day where
  year : Nat
  month : Nat
  day : Nat
deriving DecidableEq, Repr, Inhabited

/-- A time of day. -/
structure Clock where
  hour : Nat
  minute : Nat
  second : Nat
  micro : Nat
  /-- The minutes by which the clock is ahead of the common time, if it is tied to it. -/
  ahead : Option Int
deriving DecidableEq, Repr, Inhabited

/-- A date. -/
structure Moment where
  day : Day
  clock : Option Clock
deriving DecidableEq, Repr, Inhabited

namespace Day

def isLeap (year : Nat) : Bool :=
  year % 4 == 0 && (year % 100 != 0 || year % 400 == 0)

/-- The days of the months of a year. -/
def monthLengths (year : Nat) : List Nat :=
  [31, if isLeap year then 29 else 28, 31, 30, 31, 30, 31, 31, 30, 31, 30, 31]

/-- Is there such a day? -/
def isValid (d : Day) : Bool :=
  0 < d.year && 0 < d.month && 0 < d.day
    && ((monthLengths d.year)[d.month - 1]?).any (d.day ≤ ·)

/-- The number of the day, counted from the beginning of the calendar. -/
def number (d : Day) : Nat :=
  let before := d.year - 1
  365 * before + before / 4 - before / 100 + before / 400
    + ((monthLengths d.year).take (d.month - 1)).foldl (· + ·) 0 + d.day

end Day

/-- The number in at least `width` digits. -/
def padded (width n : Nat) : String :=
  let digits := Nat.toDigits 10 n
  String.ofList (List.replicate (width - digits.length) '0' ++ digits)

namespace Clock

/-- The minutes of a day. -/
def minutesPerDay : Nat := 1440

/-- Is there such a time of day? -/
def isValid (c : Clock) : Bool :=
  c.hour < 24 && c.minute < 60 && c.second < 60
    && c.ahead.all fun minutes => minutes.natAbs < minutesPerDay

/-- The distance from the common time, as it is written behind a time of day. -/
def offsetText (minutes : Int) : String :=
  let size := minutes.natAbs
  (if minutes < 0 then "-" else "+") ++ padded 2 (size / 60) ++ ":" ++ padded 2 (size % 60)

def text (c : Clock) : String :=
  padded 2 c.hour ++ ":" ++ padded 2 c.minute ++ ":" ++ padded 2 c.second
    ++ (if c.micro = 0 then "" else "." ++ padded 6 c.micro)
    ++ (c.ahead.map offsetText).getD ""

/-- The distance from the common time, shown by its parts: days and seconds, the seconds never
negative. -/
def offsetShown (minutes : Int) : String :=
  if minutes = 0 then "datetime.timezone.utc"
  else
    let delta :=
      if 0 < minutes then s!"seconds={minutes * 60}"
      else s!"days=-1, seconds={(minutes + 1440) * 60}"
    "datetime.timezone(datetime.timedelta(" ++ delta ++ "))"

/-- The parts of a time of day; seconds and fractions of them may be left out where they are
zero. -/
def parts (c : Clock) : List Nat :=
  if c.micro ≠ 0 then [c.hour, c.minute, c.second, c.micro]
  else if c.second ≠ 0 then [c.hour, c.minute, c.second]
  else [c.hour, c.minute]

end Clock

namespace Moment

/-- Is there such a date? -/
def isValid (m : Moment) : Bool :=
  m.day.isValid && m.clock.all Clock.isValid

/-- The date as text. -/
def text (m : Moment) : String :=
  padded 4 m.day.year ++ "-" ++ padded 2 m.day.month ++ "-" ++ padded 2 m.day.day
    ++ (m.clock.map fun c => " " ++ c.text).getD ""

/-- The date by its parts. -/
def shown (m : Moment) : String :=
  let day := [m.day.year, m.day.month, m.day.day]
  match m.clock with
  | none => "datetime.date(" ++ String.intercalate ", " (day.map toString) ++ ")"
  | some c =>
    let zone := (c.ahead.map fun minutes => ", tzinfo=" ++ Clock.offsetShown minutes).getD ""
    "datetime.datetime(" ++ String.intercalate ", " ((day ++ c.parts).map toString) ++ zone ++ ")"

/-- The instant of a time that is tied to the common time, in minutes, seconds and fractions. -/
def instant? (m : Moment) : Option (Int × Nat × Nat) := do
  let c ← m.clock
  let ahead ← c.ahead
  let minutes : Int := Clock.minutesPerDay * m.day.number + 60 * c.hour + c.minute
  return (minutes - ahead, c.second, c.micro)

/-- Are two dates the same? -/
def same (m n : Moment) : Bool :=
  match m.instant?, n.instant? with
  | some a, some b => a == b
  | none, none => m == n
  | _, _ => false

end Moment

end StepTrace
