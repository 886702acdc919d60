import Flowgraph.Text.Blank
import Flowgraph.Time.Moment

/-!
# Moments as text

Moments are written as RFC 3339 has them, in UTC and with a `Z`, with no more
than the three, six or nine digits of a fraction that are needed.

The reader is more lenient than the writer: blanks may stand before a number
and before a separator, a date and a time may be joined by a space, years may
have a sign and then any number of digits, and the zone may be an offset, a `Z`
or the letters `UTC`. A number out of its range is refused where it stands, so
the first fault of a text decides what is said about it.
-/

namespace Flowgraph

/-- Why a text is not a moment. -/
inductive TimeFault where
  | invalid
  | tooShort
  | tooLong
  | outOfRange
  | impossible
  deriving DecidableEq

namespace TimeFault

/-- The fault in words. -/
def message : TimeFault → String
  | invalid => "input contains invalid characters"
  | tooShort => "premature end of input"
  | tooLong => "trailing input"
  | outOfRange => "input is out of range"
  | impossible => "no possible date and time matching input"

end TimeFault

namespace Moment

/-! ## Writing -/

/-- At least `width` digits, zeros in front. -/
def padded (width n : Nat) : List Char :=
  let digits := Nat.toDigits 10 n
  List.replicate (width - digits.length) '0' ++ digits

/-- Four digits for the years 0 to 9999, a sign before those of other years. -/
def writeYear (year : Int) : List Char :=
  if 0 ≤ year ∧ year ≤ 9999 then padded 4 year.natAbs
  else (if year < 0 then '-' else '+') :: padded 4 year.natAbs

/-- The fraction of a second, in the fewest groups of three digits. -/
def writeFraction (nanosecond : Nat) : List Char :=
  if nanosecond = 0 then []
  else if nanosecond % 1000000 = 0 then '.' :: padded 3 (nanosecond / 1000000)
  else if nanosecond % 1000 = 0 then '.' :: padded 6 (nanosecond / 1000)
  else '.' :: padded 9 nanosecond

/-- A moment as RFC 3339 text. -/
def write (m : Moment) : List Char :=
  writeYear m.date.year ++
    '-' :: padded 2 m.date.month ++
    '-' :: padded 2 m.date.day ++
    'T' :: padded 2 m.hour ++
    ':' :: padded 2 m.minute ++
    ':' :: padded 2 m.second ++
    writeFraction m.nanosecond ++ ['Z']

/-! ## Reading

Every reader takes the text that is left and gives what it read and the rest. -/

/-- A reader of a part of a moment. -/
abbrev Part (α : Type) := List Char → Except TimeFault (α × List Char)

/-- One to `limit` digits, or as many as there are without a limit. -/
def readNumber (limit : Option Nat) : Part Nat := fun text =>
  match text with
  | [] => .error .tooShort
  | first :: _ =>
    if !first.isDigit then .error .invalid
    else
      let run := text.takeWhile Char.isDigit
      let digits := match limit with
        | some n => run.take n
        | none => run
      .ok (Nat.ofDigitChars 10 digits 0, text.drop digits.length)

/-- A number of at most two digits in a range, after blanks. -/
def readTwo (least greatest : Nat) : Part Nat := fun text => do
  let (n, rest) ← readNumber (some 2) (Text.dropBlanks text)
  if least ≤ n ∧ n ≤ greatest then .ok (n, rest) else .error .outOfRange

/-- A year after blanks: up to four digits, or a sign and any number of them.
It has to fit into 32 bits. -/
def readYear : Part Int := fun text => do
  let (year, rest) : Int × List Char ← match Text.dropBlanks text with
    | '-' :: digits => do
      let (n, rest) ← readNumber none digits
      pure (-(n : Int), rest)
    | '+' :: digits => do
      let (n, rest) ← readNumber none digits
      pure ((n : Int), rest)
    | digits => do
      let (n, rest) ← readNumber (some 4) digits
      pure ((n : Int), rest)
  if Int32.minValue.toInt ≤ year ∧ year ≤ Int32.maxValue.toInt then
    .ok (year, rest)
  else .error .outOfRange

/-- One given character, after blanks. -/
def readMark (mark : Char) : Part Unit := fun text =>
  match Text.dropBlanks text with
  | [] => .error .tooShort
  | c :: rest => if c = mark then .ok ((), rest) else .error .invalid

/-- What joins a date and a time. -/
def readJoin : Part Unit
  | [] => .error .tooShort
  | c :: rest =>
    if c = 'T' ∨ c = 't' ∨ c = ' ' then .ok ((), rest) else .error .invalid

/-- The nanoseconds of a fraction, none without a point; digits after the ninth
are passed over. -/
def readFraction : Part Nat
  | '.' :: text => do
    let (_, rest) ← readNumber none text
    let digits := text.takeWhile Char.isDigit ++ List.replicate 9 '0'
    .ok (Nat.ofDigitChars 10 (digits.take 9) 0, rest)
  | text => .ok (0, text)

/-- The value of a decimal digit. -/
def digitValue (c : Char) : Nat := c.toNat - '0'.toNat

/-- Two digits in a row, as they are; the length that counts is that of the
encoded text, so one character outside ASCII is already too many. -/
def readPair : Part (Nat × Nat)
  | [] => .error .tooShort
  | [c] => .error (if c.utf8Size = 1 then .tooShort else .invalid)
  | c :: d :: rest =>
    if c.isDigit ∧ d.isDigit then .ok ((digitValue c, digitValue d), rest)
    else .error .invalid

/-- The minutes of an offset behind its sign: hours, colons or blanks,
minutes. -/
def readOffset : Part Nat := fun text => do
  let ((h₁, h₂), rest) ← readPair text
  let rest := rest.dropWhile fun c => c = ':' || Text.isBlank c
  let ((m₁, m₂), rest) ← readPair rest
  if 5 < m₁ then .error .outOfRange
  else .ok ((h₁ * 10 + h₂) * 60 + m₁ * 10 + m₂, rest)

/-- The zone: minutes east of UTC. -/
def readZone : Part Int := fun text =>
  match text with
  | [] => .error .tooShort
  | c :: rest =>
    if (text.take 3).map Char.toUpper = "UTC".toList then .ok (0, text.drop 3)
    else if c = 'Z' ∨ c = 'z' then .ok (0, rest)
    else if c = '+' then do
      let (n, rest) ← readOffset rest
      .ok (n, rest)
    else if c = '-' ∨ c = '\u2212' then do
      let (n, rest) ← readOffset rest
      .ok (-(n : Int), rest)
    else .error .invalid

/-- The moment a text names. -/
def read (text : List Char) : Except TimeFault Moment := do
  let (year, text) ← readYear text
  let ((), text) ← readMark '-' text
  let (month, text) ← readTwo 1 12 text
  let ((), text) ← readMark '-' text
  let (day, text) ← readTwo 1 31 text
  let ((), text) ← readJoin text
  let (hour, text) ← readTwo 0 23 text
  let ((), text) ← readMark ':' text
  let (minute, text) ← readTwo 0 59 text
  let ((), text) ← readMark ':' text
  let (second, text) ← readTwo 0 60 text
  let (nanosecond, text) ← readFraction text
  let (offset, text) ← readZone (Text.dropBlanks text)
  if !(Text.dropBlanks text).isEmpty then throw .tooLong
  if offset ≤ -1440 ∨ 1440 ≤ offset then throw .outOfRange
  let some date := Date.of? year month day | throw .outOfRange
  let some moment := of? date hour minute second nanosecond | throw .outOfRange
  let some utc := moment.earlier? offset | throw .impossible
  return utc

end Moment

end Flowgraph
