/-!
Moments. A moment is a count of microseconds since the first day of the year 1 in universal time;
the calendar reaches from there to the end of the year 9999.
-/

namespace DemonBoard

structure Moment where
  micros : Int
  deriving DecidableEq

namespace Moment

instance : LT Moment := ⟨fun a b => a.micros < b.micros⟩

instance : LE Moment := ⟨fun a b => a.micros ≤ b.micros⟩

instance (a b : Moment) : Decidable (a < b) := inferInstanceAs (Decidable (a.micros < b.micros))

instance (a b : Moment) : Decidable (a ≤ b) := inferInstanceAs (Decidable (a.micros ≤ b.micros))

instance : Ord Moment := ⟨compareOn Moment.micros⟩

instance : Std.TransOrd Moment := inferInstanceAs (Std.TransCmp (compareOn Moment.micros))

theorem lt_def {a b : Moment} : a < b ↔ a.micros < b.micros := Iff.rfl

end Moment

structure Civil where
  year : Nat
  month : Nat
  day : Nat
  hour : Nat
  minute : Nat
  second : Nat
  micro : Nat

namespace Calendar

def isLeap (year : Nat) : Bool := year % 4 = 0 && (year % 100 ≠ 0 || year % 400 = 0)

def monthLengths (year : Nat) : List Nat :=
  [31, if isLeap year then 29 else 28, 31, 30, 31, 30, 31, 31, 30, 31, 30, 31]

def daysBeforeYear (year : Nat) : Nat :=
  let past := year - 1
  365 * past + past / 4 - past / 100 + past / 400

def daysBeforeMonth (year month : Nat) : Nat := ((monthLengths year).take (month - 1)).foldl Nat.add 0

def isDate (year month day : Nat) : Bool :=
  1 ≤ year && year ≤ 9999 && 1 ≤ month && month ≤ 12 && 1 ≤ day &&
    day ≤ ((monthLengths year)[month - 1]?).getD 0

/-- Days from the first day of the year 1 to the given date. -/
def dayNumber (year month day : Nat) : Nat :=
  daysBeforeYear year + daysBeforeMonth year month + (day - 1)

def splitMonth (month days : Nat) : List Nat → Nat × Nat
  | [] => (month, days + 1)
  | length :: rest =>
    if days < length then (month, days + 1) else splitMonth (month + 1) (days - length) rest

/-- The last year that starts no later than the given day: at most a year after the even share. -/
def yearOf (days : Nat) : Nat :=
  let year := days * 400 / 146097 + 1
  if days < daysBeforeYear year then year - 1
  else if daysBeforeYear (year + 1) ≤ days then year + 1
  else year

def ofDayNumber (days : Nat) : Nat × Nat × Nat :=
  let year := yearOf days
  (year, splitMonth 1 (days - daysBeforeYear year) (monthLengths year))

/-- The first day of a year's week 1, the week that holds the fourth of January. Weeks start on Monday. -/
def firstMonday (year : Nat) : Int :=
  let newYear : Int := daysBeforeYear year
  let weekday := newYear % 7
  newYear - weekday + (if weekday > 3 then 7 else 0)

/-- A year has 53 weeks if it starts on a Thursday, or on a Wednesday and is a leap year. -/
def weeksIn (year : Nat) : Nat :=
  let weekday := daysBeforeYear year % 7
  if weekday = 3 || (weekday = 2 && isLeap year) then 53 else 52

end Calendar

namespace Moment

def microsPerSecond : Nat := 1000000

def microsPerDay : Nat := 86400 * microsPerSecond

def civil (m : Moment) : Civil :=
  let total := m.micros.toNat
  let (year, month, day) := Calendar.ofDayNumber (total / microsPerDay)
  let micros := total % microsPerDay
  let seconds := micros / microsPerSecond
  { year, month, day
    hour := seconds / 3600
    minute := seconds / 60 % 60
    second := seconds % 60
    micro := micros % microsPerSecond }

def inCalendar (m : Moment) : Bool :=
  0 ≤ m.micros && m.micros < Calendar.daysBeforeYear 10000 * microsPerDay

end Moment

/-- A time as a caller states it: what the clock shows there, and how far that clock is ahead of universal time. -/
structure Timestamp where
  wall : Moment
  offset : Option Int
  deriving DecidableEq

namespace Timestamp

/-- The moment in universal time, to which a clock without an offset is taken to be set already. -/
def utc? (t : Timestamp) : Option Moment :=
  match t.offset with
  | none => some t.wall
  | some offset =>
    let moved : Moment := ⟨t.wall.micros - offset⟩
    if moved.inCalendar then some moved else none

end Timestamp

end DemonBoard
