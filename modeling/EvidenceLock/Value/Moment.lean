import EvidenceLock.Decimal.Shortest

/-
  Dates and times of day, with or without an offset from universal time, as
  settings files can hold them.
-/

namespace EvidenceLock

/-- A calendar day. -/
structure Day where
  /-- The year, 1 to 9999. -/
  year : Nat
  /-- The month, 1 to 12. -/
  month : Nat
  /-- The day of the month, 1 to 31. -/
  day : Nat
  deriving DecidableEq, Repr

/-- A time of day. -/
structure Clock where
  /-- The hour, 0 to 23. -/
  hour : Nat
  /-- The minute, 0 to 59. -/
  minute : Nat
  /-- The second, 0 to 59. -/
  second : Nat
  /-- Millionths of a second. -/
  micro : Nat
  deriving DecidableEq, Repr

/-- A date, a time of day, or both; with both, also the minutes ahead of universal time. -/
inductive Moment where
  /-- A day. -/
  | day (d : Day)
  /-- A time of day. -/
  | clock (c : Clock)
  /-- A time on a day. -/
  | both (d : Day) (c : Clock) (offset : Option Int)
  deriving DecidableEq, Repr

namespace Moment

open Decimal (padded)

/-- The name of the type of a moment. -/
def typeName : Moment → String
  | .day _ => "datetime.date"
  | .clock _ => "datetime.time"
  | .both _ _ _ => "datetime.datetime"

/-- A day as `2024-05-01`. -/
def dayText (d : Day) : String := s!"{padded 4 d.year}-{padded 2 d.month}-{padded 2 d.day}"

/-- A time as `07:32:00`, with six decimals unless they are zero. -/
def clockText (c : Clock) : String :=
  s!"{padded 2 c.hour}:{padded 2 c.minute}:{padded 2 c.second}" ++
    (if c.micro = 0 then "" else "." ++ padded 6 c.micro)

/-- An offset as `+02:00`. -/
def offsetText (minutes : Int) : String :=
  let n := minutes.natAbs
  (if minutes < 0 then "-" else "+") ++ s!"{padded 2 (n / 60)}:{padded 2 (n % 60)}"

/-- The moment on its own. -/
def text : Moment → String
  | .day d => dayText d
  | .clock c => clockText c
  | .both d c offset => dayText d ++ " " ++ clockText c ++ (offset.map offsetText).getD ""

/-- The numbers of a time, without trailing zero seconds and millionths. -/
def clockNumbers (c : Clock) : String :=
  s!"{c.hour}, {c.minute}" ++
    (if c.micro ≠ 0 then s!", {c.second}, {c.micro}"
     else if c.second ≠ 0 then s!", {c.second}" else "")

/-- The zone of an offset. -/
def zoneText (minutes : Int) : String :=
  if minutes = 0 then "datetime.timezone.utc"
  else
    let seconds := minutes * 60
    if seconds < 0 then
      s!"datetime.timezone(datetime.timedelta(days=-1, seconds={86400 + seconds}))"
    else s!"datetime.timezone(datetime.timedelta(seconds={seconds}))"

/-- The moment as it is written inside a list. -/
def quoted : Moment → String
  | .day d => s!"datetime.date({d.year}, {d.month}, {d.day})"
  | .clock c => s!"datetime.time({clockNumbers c})"
  | .both d c offset =>
    s!"datetime.datetime({d.year}, {d.month}, {d.day}, {clockNumbers c}" ++
      ((offset.map fun o => ", tzinfo=" ++ zoneText o).getD "") ++ ")"

end Moment

end EvidenceLock
