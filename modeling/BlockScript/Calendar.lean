import BlockScript.Number.Units
import BlockScript.Script.Menu

/-!
# The calendar

A moment is a number of milliseconds since the beginning of 1970 in universal time. Its date and
time of day follow from the Gregorian calendar, in which four hundred years are 146097 days. A
calendar tells moments one after the other, each as it is asked for.
-/

namespace BlockScript

/-- A moment. -/
structure Moment where
  /-- Milliseconds since the beginning of 1970 in universal time. -/
  millis : Int
  /-- How far local time is ahead of universal time, in milliseconds. -/
  offset : Int := 0

namespace Moment

/-- The length of a day. -/
def millisPerDay : Int := 86400000

/-- The beginning of 2000. -/
def millennium : Int := 946684800000

/-- Days since the beginning of 2000, with their fraction. -/
def daysSince2000 (m : Moment) : Float :=
  Number.ofInt (m.millis - millennium) / Number.ofInt millisPerDay

/-- Local time, in milliseconds since the beginning of 1970. -/
def local' (m : Moment) : Int := m.millis + m.offset

/-- Whole local days since the beginning of 1970. -/
def day (m : Moment) : Int := m.local'.fdiv millisPerDay

/-- Milliseconds since local midnight. -/
def timeOfDay (m : Moment) : Int := m.local'.fmod millisPerDay

/-- A date. -/
structure Date where
  year : Int
  /-- From one to twelve. -/
  month : Int
  /-- From one to thirty-one. -/
  day : Int

/-- The date of a day. Years are counted from March, so that a leap day ends its year, and in
    cycles of four hundred. -/
def dateOfDay (day : Int) : Date :=
  let shifted := day + 719468
  let cycle := shifted.fdiv 146097
  let inCycle := shifted.fmod 146097
  let yearOfCycle := (inCycle - inCycle / 1460 + inCycle / 36524 - inCycle / 146096) / 365
  let dayOfYear := inCycle - (365 * yearOfCycle + yearOfCycle / 4 - yearOfCycle / 100)
  let monthFromMarch := (5 * dayOfYear + 2) / 153
  let month := if monthFromMarch < 10 then monthFromMarch + 3 else monthFromMarch - 9
  { year := yearOfCycle + cycle * 400 + (if month ≤ 2 then 1 else 0)
    month
    day := dayOfYear - (153 * monthFromMarch + 2) / 5 + 1 }

/-- The day of the week, from one for Sunday to seven. -/
def dayOfWeek (m : Moment) : Int := (m.day + 4).fmod 7 + 1

/-- One part of the local date and time. -/
def part (m : Moment) : CurrentUnit → Int
  | .year => (dateOfDay m.day).year
  | .month => (dateOfDay m.day).month
  | .date => (dateOfDay m.day).day
  | .dayOfWeek => m.dayOfWeek
  | .hour => m.timeOfDay / 3600000
  | .minute => m.timeOfDay / 60000 % 60
  | .second => m.timeOfDay / 1000 % 60

end Moment

/-- What tells the date: moments in order, of which some are taken. -/
structure Calendar where
  moments : Nat → Moment
  taken : Nat := 0

namespace Calendar

/-- The calendar that always tells the same moment. -/
def standing (m : Moment) : Calendar := { moments := fun _ => m }

/-- The moment, and the calendar after telling it. -/
def read (c : Calendar) : Moment × Calendar := (c.moments c.taken, { c with taken := c.taken + 1 })

end Calendar

end BlockScript
