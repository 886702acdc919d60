/-!
# Moments

A moment is a date of the Gregorian calendar and a time of day, both in UTC, to
the nanosecond. Keeping the parts rather than a count of seconds makes a moment
and its written form the same seven numbers; the only arithmetic a reader needs
is to move a local time to UTC, which is less than one day away.

A sixtieth second is allowed: it names a leap second.
-/

namespace Flowgraph

/-! ## Dates -/

namespace Date

/-- Whether a year has a 29th of February. -/
def isLeap (year : Int) : Bool :=
  year % 4 == 0 && (year % 100 != 0 || year % 400 == 0)

/-- The number of days of a month. -/
def daysIn (year : Int) (month : Nat) : Nat :=
  if month = 2 then (if isLeap year then 29 else 28)
  else if month = 4 ∨ month = 6 ∨ month = 9 ∨ month = 11 then 30
  else 31

/-- The first year of the calendar. -/
def firstYear : Int := -262143

/-- The last year of the calendar. -/
def lastYear : Int := 262142

/-- Year, month and day name a day of the calendar. -/
abbrev IsDay (year : Int) (month day : Nat) : Prop :=
  (firstYear ≤ year ∧ year ≤ lastYear) ∧ (1 ≤ month ∧ month ≤ 12) ∧
    1 ≤ day ∧ day ≤ daysIn year month

end Date

/-- A day of the calendar. -/
structure Date where
  year : Int
  month : Nat
  day : Nat
  isDay : Date.IsDay year month day
  deriving DecidableEq

namespace Date

/-- The day of three numbers, if they name one. -/
def of? (year : Int) (month day : Nat) : Option Date :=
  if h : IsDay year month day then some ⟨year, month, day, h⟩ else none

/-- The day after, if the calendar has one. -/
def next? (d : Date) : Option Date :=
  if d.day < daysIn d.year d.month then of? d.year d.month (d.day + 1)
  else if d.month < 12 then of? d.year (d.month + 1) 1
  else of? (d.year + 1) 1 1

/-- The day before, if the calendar has one. -/
def previous? (d : Date) : Option Date :=
  if 1 < d.day then of? d.year d.month (d.day - 1)
  else if 1 < d.month then
    of? d.year (d.month - 1) (daysIn d.year (d.month - 1))
  else of? (d.year - 1) 12 31

/-- The day that is `days` days after the start of 1970. Days are counted from
the 1st of March of year 0, so that a leap day ends a year. -/
def ofUnixDay? (days : Nat) : Option Date :=
  let shifted := days + 719468
  let era := shifted / 146097
  let day := shifted % 146097
  let year := (day - day / 1460 + day / 36524 - day / 146096) / 365
  let dayOfYear := day - (365 * year + year / 4 - year / 100)
  let shiftedMonth := (5 * dayOfYear + 2) / 153
  let month := if shiftedMonth < 10 then shiftedMonth + 3 else shiftedMonth - 9
  let year : Nat := year + era * 400 + (if month ≤ 2 then 1 else 0)
  of? year month (dayOfYear - (153 * shiftedMonth + 2) / 5 + 1)

end Date

/-! ## Moments -/

/-- A moment in UTC. -/
structure Moment where
  date : Date
  hour : Nat
  minute : Nat
  second : Nat
  nanosecond : Nat
  hour_lt : hour < 24
  minute_lt : minute < 60
  second_le : second ≤ 60
  nanosecond_lt : nanosecond < 1000000000
  deriving DecidableEq

namespace Moment

/-- The moment of a day and four numbers, if they name one. -/
def of? (date : Date) (hour minute second nanosecond : Nat) : Option Moment :=
  if h : hour < 24 ∧ minute < 60 ∧ second ≤ 60 ∧ nanosecond < 1000000000 then
    some ⟨date, hour, minute, second, nanosecond, h.1, h.2.1, h.2.2.1, h.2.2.2⟩
  else none

/-- The start of 1970. -/
def start : Moment where
  date := ⟨1970, 1, 1, by decide⟩
  hour := 0
  minute := 0
  second := 0
  nanosecond := 0
  hour_lt := by decide
  minute_lt := by decide
  second_le := by decide
  nanosecond_lt := by decide

/-- The moment `minutes` minutes earlier, for less than a day in either
direction; `none` when that is outside the calendar. -/
def earlier? (m : Moment) (minutes : Int) : Option Moment :=
  let total : Int := (m.hour * 60 + m.minute : Nat) - minutes
  let within := (total % 1440).toNat
  let date? :=
    if total < 0 then m.date.previous?
    else if total < 1440 then some m.date
    else m.date.next?
  date?.bind fun date =>
    of? date (within / 60) (within % 60) m.second m.nanosecond

/-- The moment that is `seconds` after the start of 1970, counted in days of
86400 seconds. -/
def ofUnix? (seconds nanosecond : Nat) : Option Moment :=
  let within := seconds % 86400
  (Date.ofUnixDay? (seconds / 86400)).bind fun date =>
    of? date (within / 3600) (within / 60 % 60) (within % 60) nanosecond

end Moment

end Flowgraph
