import IndexQuery.Unicode.Blank

/-! # Instants

    An instant is a date and a time of day in universal time, to the nanosecond.
    A leap second is kept as more than a thousand million nanoseconds of the
    second before it.

    Instants are read from the extended date format with a time zone and written
    in universal time.
-/

namespace IndexQuery

/-! ## Dates -/

/-- A day of the Gregorian calendar. -/
structure Date where
  year : Int
  month : Nat
  day : Nat
deriving DecidableEq, Repr, Inhabited

namespace Date

/-- Whether a year has 366 days. -/
def isLeapYear (year : Int) : Bool := year % 4 == 0 && (year % 100 != 0 || year % 400 == 0)

/-- The number of days of a month. -/
def daysInMonth (year : Int) (month : Nat) : Nat :=
  match month with
  | 2 => if isLeapYear year then 29 else 28
  | 4 | 6 | 9 | 11 => 30
  | _ => 31

/-- The first year that a date can have. -/
def minYear : Int := -262143

/-- The last year that a date can have. -/
def maxYear : Int := 262142

/-- Whether the date stands in the calendar. -/
def isValid (d : Date) : Bool :=
  minYear ≤ d.year && d.year ≤ maxYear && 1 ≤ d.month && d.month ≤ 12 && 1 ≤ d.day &&
    d.day ≤ daysInMonth d.year d.month

/-- The day after. -/
def next (d : Date) : Date :=
  if d.day < daysInMonth d.year d.month then { d with day := d.day + 1 }
  else if d.month < 12 then ⟨d.year, d.month + 1, 1⟩
  else ⟨d.year + 1, 1, 1⟩

/-- The day before. -/
def previous (d : Date) : Date :=
  if 1 < d.day then { d with day := d.day - 1 }
  else if 1 < d.month then ⟨d.year, d.month - 1, daysInMonth d.year (d.month - 1)⟩
  else ⟨d.year - 1, 12, 31⟩

/-- The number of days since the first of January 1970. Years are counted from
    March, so that the leap day is the last one. -/
def dayNumber (d : Date) : Int :=
  let year := if d.month ≤ 2 then d.year - 1 else d.year
  let months := (d.month + 9) % 12
  let dayOfYear : Int := ((153 * months + 2) / 5 + d.day - 1 : Nat)
  365 * year + Int.fdiv year 4 - Int.fdiv year 100 + Int.fdiv year 400 + dayOfYear - 719468

end Date

/-! ## Instants -/

/-- A point in time. -/
structure Instant where
  date : Date
  /-- Seconds since midnight. -/
  second : Nat
  /-- Nanoseconds of the second, from a thousand million on in a leap second. -/
  nano : Nat
deriving DecidableEq, Repr, Inhabited

namespace Instant

/-- What is compared, from the greatest unit to the least. -/
def sortKey (t : Instant) : List Int :=
  [t.date.year, t.date.month, t.date.day, t.second, t.nano]

/-- Whether one instant precedes another. -/
def before (a b : Instant) : Bool := a.sortKey < b.sortKey

/-- Milliseconds since the beginning of 1970. -/
def millis (t : Instant) : Int :=
  (t.date.dayNumber * 86400 + t.second) * 1000 + (t.nano / 1000000 : Nat)

/-! ## Reading -/

/-- The number that decimal digits write. -/
def numberOf (digits : List Char) : Nat :=
  digits.foldl (fun n c => 10 * n + (c.toNat - '0'.toNat)) 0

/-- Takes up to `width` digits off the front, at least one. -/
def takeNumber (width : Nat) (cs : List Char) : Option (Nat × List Char) :=
  let digits := (cs.take width).takeWhile Char.isDigit
  if digits.isEmpty then none
  else some (numberOf digits, cs.drop digits.length)

/-- Takes a year off the front: four digits at most, or any number with a sign. -/
def takeYear : List Char → Option (Int × List Char)
  | '-' :: cs => (takeNumber cs.length cs).map fun (n, rest) => (-n, rest)
  | '+' :: cs => (takeNumber cs.length cs).map fun (n, rest) => (n, rest)
  | cs => (takeNumber 4 cs).map fun (n, rest) => (n, rest)

/-- Takes a character off the front. -/
def takeChar (c : Char) : List Char → Option (List Char)
  | c' :: rest => if c = c' then some rest else none
  | [] => none

/-- Takes a field of two digits off the front, with white space before it. -/
def takeField (cs : List Char) : Option (Nat × List Char) := takeNumber 2 (Unicode.trimStart cs)

/-- Takes a mark between fields off the front, with white space before it. -/
def takeMark (c : Char) (cs : List Char) : Option (List Char) := takeChar c (Unicode.trimStart cs)

/-- Takes a date off the front. -/
def takeDate (cs : List Char) : Option (Date × List Char) := do
  let (year, cs) ← takeYear (Unicode.trimStart cs)
  let cs ← takeMark '-' cs
  let (month, cs) ← takeField cs
  let cs ← takeMark '-' cs
  let (day, cs) ← takeField cs
  return (⟨year, month, day⟩, cs)

/-- Takes a fraction of a second off the front, in nanoseconds. Digits beyond the
    ninth do not count. -/
def takeFraction : List Char → Option (Nat × List Char)
  | '.' :: cs => do
    let digits := cs.takeWhile Char.isDigit
    if digits.isEmpty then none
    else
      let nine := digits.take 9 ++ List.replicate (9 - digits.length) '0'
      return (numberOf nine, cs.dropWhile Char.isDigit)
  | cs => some (0, cs)

/-- Takes a time of day off the front, as seconds and nanoseconds. The second 60
    is a leap second. -/
def takeTime (cs : List Char) : Option ((Nat × Nat) × List Char) := do
  let (hour, cs) ← takeField cs
  let cs ← takeMark ':' cs
  let (minute, cs) ← takeField cs
  let cs ← takeMark ':' cs
  let (second, cs) ← takeField cs
  let (nano, cs) ← takeFraction cs
  if hour < 24 && minute < 60 && second ≤ 60 then
    let seconds := hour * 3600 + minute * 60
    if second = 60 then return ((seconds + 59, nano + 1000000000), cs)
    else return ((seconds + second, nano), cs)
  else none

/-- Takes two digits off the front, and no fewer. -/
def takeTwoDigits : List Char → Option (Nat × List Char)
  | a :: b :: cs =>
    if a.isDigit && b.isDigit then
      some ((a.toNat - '0'.toNat) * 10 + (b.toNat - '0'.toNat), cs)
    else none
  | _ => none

/-- Takes hours and minutes of a time zone off the front, in seconds. -/
def takeOffset (cs : List Char) : Option (Nat × List Char) := do
  let (hours, cs) ← takeTwoDigits cs
  let cs := cs.dropWhile fun c => c == ':' || Unicode.isBlank c
  let (minutes, cs) ← takeTwoDigits cs
  if hours < 24 && minutes < 60 then return (hours * 3600 + minutes * 60, cs) else none

/-- Takes a time zone off the front, as the seconds it is ahead of universal time. -/
def takeZone : List Char → Option (Int × List Char)
  | [] => none
  | c :: cs =>
    if c = 'Z' || c = 'z' then some (0, cs)
    else if c = '+' then (takeOffset cs).map fun (n, rest) => (n, rest)
    else if c = '-' || c = '−' then (takeOffset cs).map fun (n, rest) => (-n, rest)
    else if (c :: cs.take 2).map Char.toUpper = ['U', 'T', 'C'] then some (0, cs.drop 2)
    else none

/-- The instant in universal time of a date and a time of day in a time zone. -/
def ofLocal (date : Date) (second nano : Nat) (offset : Int) : Instant :=
  let shifted : Int := second - offset
  if shifted < 0 then ⟨date.previous, (shifted + 86400).toNat, nano⟩
  else if 86400 ≤ shifted then ⟨date.next, (shifted - 86400).toNat, nano⟩
  else ⟨date, shifted.toNat, nano⟩

/-- Reads an instant: a date, the letter `T` or a space, a time of day and a time
    zone. -/
def read? (text : String) : Option Instant := do
  let (date, cs) ← takeDate text.toList
  match cs with
  | [] => none
  | c :: cs =>
    if c = 'T' || c = 't' || c = ' ' then
      let ((second, nano), cs) ← takeTime cs
      let (offset, cs) ← takeZone (Unicode.trimStart cs)
      let instant := ofLocal date second nano offset
      if (Unicode.trimStart cs).isEmpty && date.isValid && instant.date.isValid then some instant
      else none
    else none

/-! ## Writing -/

/-- A number with zeros in front up to the given width. -/
def padded (width n : Nat) : String :=
  let digits := (Nat.repr n)
  String.ofList (List.replicate (width - digits.length) '0') ++ digits

/-- A year: four digits, and a sign when it has more or is negative. -/
def yearText (year : Int) : String :=
  if 0 ≤ year && year ≤ 9999 then padded 4 year.toNat
  else (if year < 0 then "-" else "+") ++ padded 4 year.natAbs

/-- The fraction of a second, in three, six or nine digits, as few as suffice. -/
def fractionText (nano : Nat) : String :=
  if nano = 0 then ""
  else if nano % 1000000 = 0 then "." ++ padded 3 (nano / 1000000)
  else if nano % 1000 = 0 then "." ++ padded 6 (nano / 1000)
  else "." ++ padded 9 nano

/-- The date of an instant. -/
def dateText (t : Instant) : String :=
  yearText t.date.year ++ "-" ++ padded 2 t.date.month ++ "-" ++ padded 2 t.date.day

/-- The time of day of an instant. -/
def timeText (t : Instant) : String :=
  let leap := 1000000000 ≤ t.nano
  let second := t.second % 60 + if leap then 1 else 0
  let nano := if leap then t.nano - 1000000000 else t.nano
  padded 2 (t.second / 3600) ++ ":" ++ padded 2 (t.second / 60 % 60) ++ ":" ++ padded 2 second ++
    fractionText nano

/-- The instant as configurations hold it. -/
def render (t : Instant) : String := t.dateText ++ "T" ++ t.timeText ++ "Z"

/-- The instant as messages show it. -/
def describe (t : Instant) : String := t.dateText ++ " " ++ t.timeText ++ " UTC"

end Instant

end IndexQuery
