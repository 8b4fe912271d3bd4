import DemonBoard.Moment
import DemonBoard.Text.Decimal

/-!
Times as text. Reading takes the forms of ISO 8601 with a calendar or a week date, with or without
separators; writing uses one form, with a fraction only where there is one.
-/

namespace DemonBoard

open Text.Decimal (digits)

namespace Calendar

def digit? (c : Char) : Option Nat :=
  if c.isDigit then some (c.toNat - '0'.toNat) else none

def number? : Nat → Nat → List Char → Option (Nat × List Char)
  | 0, acc, rest => some (acc, rest)
  | count + 1, acc, c :: rest => (digit? c).bind fun d => number? count (10 * acc + d) rest
  | _ + 1, _, [] => none

def expect? (c : Char) : List Char → Option (List Char)
  | d :: rest => if d = c then some rest else none
  | [] => none

def ofWeekDate? (year week weekday : Nat) : Option (Nat × Nat × Nat) :=
  if 1 ≤ year ∧ 1 ≤ week ∧ week ≤ weeksIn year ∧ 1 ≤ weekday ∧ weekday ≤ 7 then
    let day := firstMonday year + (week - 1 : Nat) * 7 + (weekday - 1 : Nat)
    if 0 ≤ day then some (ofDayNumber day.toNat) else none
  else none

/-- A whole text as a date: `YYYY-MM-DD`, `YYYYMMDD`, `YYYY-Www`, `YYYYWww`, `YYYY-Www-D` or `YYYYWwwD`. -/
def date? (cs : List Char) : Option (Nat × Nat × Nat) := do
  let (year, rest) ← number? 4 0 cs
  let dashed := rest.head? == some '-'
  let dash (cs : List Char) := if dashed then expect? '-' cs else some cs
  let rest ← dash rest
  match rest with
  | 'W' :: rest =>
    let (week, rest) ← number? 2 0 rest
    if rest.isEmpty then ofWeekDate? year week 1
    else
      let (weekday, rest) ← number? 1 0 (← dash rest)
      if rest.isEmpty then ofWeekDate? year week weekday else none
  | rest =>
    let (month, rest) ← number? 2 0 rest
    let (day, rest) ← number? 2 0 (← dash rest)
    if rest.isEmpty then some (year, month, day) else none

/-- How many characters of a text are its date. After a week any digit may still be the weekday; an
even count of digits after the week number means that the time follows at once. -/
def dateLength (cs : List Char) : Nat :=
  let isDigitAt (i : Nat) := (cs[i]?).any Char.isDigit
  if cs.length = 7 then 7
  else if cs[4]? = some '-' then
    if cs[5]? ≠ some 'W' then 10
    else if cs[8]? = some '-' then if isDigitAt 10 then 8 else 10
    else 8
  else if cs[4]? = some 'W' then
    let last := 7 + ((cs.drop 7).takeWhile Char.isDigit).length
    if last < 9 then last else if last % 2 = 0 then 7 else 8
  else 8

structure ClockText where
  seconds : Nat
  micro : Nat
  inRange : Bool
  rest : List Char

/-- A fraction of a second, of which six digits count. -/
def fraction? (cs : List Char) : Option (Nat × List Char) := do
  let used := min cs.length 6
  let (n, rest) ← number? used 0 cs
  return (n * Nat.pow 10 (6 - used), rest.dropWhile Char.isDigit)

/-- Reads up to `groups` more two-digit groups and then a fraction, the colons between groups being left
out everywhere or nowhere. A mark of the fraction may follow any group. One character after a group is
left unread. -/
def groups? (colons : Bool) : Nat → List Nat → List Char → Option (List Nat × Nat × List Char)
  | 0, read, rest =>
    match rest with
    | c :: d :: more => do
      let (micro, rest) ← fraction? (if isMark c then d :: more else c :: d :: more)
      if colons && !isMark c then none else some (read, micro, rest)
    | rest => some (read, 0, rest)
  | more + 1, read, rest =>
    match rest with
    | c :: d :: tail =>
      if colons && c = ':' then do
        let (n, rest) ← number? 2 0 (d :: tail)
        groups? colons more (read ++ [n]) rest
      else if isMark c then do
        let (micro, rest) ← fraction? (d :: tail)
        some (read, micro, rest)
      else if colons then none
      else do
        let (n, rest) ← number? 2 0 (c :: d :: tail)
        groups? colons more (read ++ [n]) rest
    | rest => some (read, 0, rest)
where
  isMark (c : Char) : Bool := c = '.' || c = ','

/-- Reads `HH`, `HH:MM` or `HH:MM:SS`, or these without colons, each with or without a fraction. -/
def clock? (cs : List Char) : Option ClockText := do
  let (hour, rest) ← number? 2 0 cs
  let (read, micro, rest) ← groups? (rest.head? == some ':') 2 [] rest
  let minute := read[0]?.getD 0
  let second := read[1]?.getD 0
  return ⟨hour * 3600 + minute * 60 + second, micro, hour < 24 && minute < 60 && second < 60, rest⟩

/-- An offset of less than a day, in microseconds. A fraction counts only beside whole seconds. -/
def offset? (sign : Int) (cs : List Char) : Option Int := do
  let clock ← clock? cs
  if ¬ clock.rest.isEmpty then none
  else
    let micros : Int := if clock.seconds = 0 then 0 else clock.seconds * Moment.microsPerSecond + clock.micro
    if micros < Moment.microsPerDay then some (sign * micros) else none

def isZoneMark (c : Char) : Bool := c = '+' || c = '-' || c = 'Z'

/-- The time of day and its zone. What a zone follows may leave characters unread. -/
def time? (cs : List Char) : Option (ClockText × Option Int) := do
  let clock ← clock? (cs.takeWhile (!isZoneMark ·))
  match cs.dropWhile (!isZoneMark ·) with
  | [] => if clock.rest.isEmpty then some (clock, none) else none
  | 'Z' :: rest => if rest.isEmpty then some (clock, some 0) else none
  | mark :: rest => do return (clock, some (← offset? (if mark = '-' then -1 else 1) rest))

end Calendar

namespace Timestamp

open Calendar in
/-- A date, and after any one character a time of day. A date alone means its midnight. -/
def parse? (s : String) : Option Timestamp := do
  let cs := s.toList
  if cs.length < 7 then none
  else
    let size := dateLength cs
    let (year, month, day) ← date? (cs.take size)
    let (clock, offset) ←
      match cs.drop size with
      | [] => some ((⟨0, 0, true, []⟩ : ClockText), none)
      | _ :: rest => time? rest
    if isDate year month day ∧ clock.inRange then
      let seconds := dayNumber year month day * 86400 + clock.seconds
      some ⟨⟨seconds * Moment.microsPerSecond + clock.micro⟩, offset⟩
    else none

end Timestamp

namespace Moment

def fractionText (micro : Nat) : String := if micro = 0 then "" else "." ++ digits 6 micro

def write (between : String) (m : Moment) : String :=
  let c := m.civil
  digits 4 c.year ++ "-" ++ digits 2 c.month ++ "-" ++ digits 2 c.day ++ between ++
    digits 2 c.hour ++ ":" ++ digits 2 c.minute ++ ":" ++ digits 2 c.second ++ fractionText c.micro

def iso (m : Moment) : String := m.write "T"

def spaced (m : Moment) : String := m.write " "

end Moment

namespace Timestamp

def offsetText (offset : Int) : String :=
  let micros := offset.natAbs
  let seconds := micros / Moment.microsPerSecond
  let micro := micros % Moment.microsPerSecond
  (if offset < 0 then "-" else "+") ++ digits 2 (seconds / 3600) ++ ":" ++ digits 2 (seconds / 60 % 60) ++
    (if seconds % 60 = 0 ∧ micro = 0 then "" else ":" ++ digits 2 (seconds % 60) ++ Moment.fractionText micro)

def iso (t : Timestamp) : String :=
  t.wall.iso ++ (t.offset.map offsetText).getD ""

end Timestamp

end DemonBoard
