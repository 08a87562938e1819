import SqlStubs.Text.Quoted

/-!
# Points in time

Which plain scalars are points in time: a date `2024-1-31`, alone, with a time of day after a space,
or with a time of day and a zone after a `T`.
-/

namespace SqlStubs.Yaml

/-- The zone of a point in time. -/
inductive Zone where
  | universal
  /-- Another zone, by its distance in minutes. -/
  | offset (minutes : Int)
deriving Repr, DecidableEq

/-- A point in time. -/
structure Timestamp where
  year : Nat
  month : Nat
  day : Nat
  hour : Nat := 0
  minute : Nat := 0
  second : Nat := 0
  nanosecond : Nat := 0
  zone : Zone := .universal
deriving Repr, DecidableEq

namespace Timestamp

/-- A number of one or two digits and what comes after it. -/
def shortNumber? : Text → Option (Nat × Text)
  | a :: b :: s =>
    if !Text.isDigit a then none
    else if Text.isDigit b then some ((a.toNat - 0x30) * 10 + (b.toNat - 0x30), s)
    else some (a.toNat - 0x30, b :: s)
  | [a] => if Text.isDigit a then some (a.toNat - 0x30, []) else none
  | [] => none

/-- What comes after one given byte. -/
def after? (b : UInt8) : Text → Option Text
  | c :: s => if c = b then some s else none
  | [] => none

/-- The number of days of a month. -/
def daysIn (year month : Nat) : Nat :=
  if month = 2 then
    if (year % 4 = 0 && year % 100 ≠ 0) || year % 400 = 0 then 29 else 28
  else if month = 4 || month = 6 || month = 9 || month = 11 then 30
  else 31

/-- The number that digits stand for. -/
def digitsValue (s : Text) : Nat := s.foldl (fun n b => n * 10 + (b.toNat - 0x30)) 0

/-- A date and what comes after it. -/
def date? (s : Text) : Option (Timestamp × Text) := do
  let digits := s.takeWhile Text.isDigit
  if digits.length ≠ 4 then none
  let year := digitsValue digits
  let s ← after? 0x2D (s.drop 4)
  let (month, s) ← shortNumber? s
  let s ← after? 0x2D s
  let (day, s) ← shortNumber? s
  if 1 ≤ month && month ≤ 12 && 1 ≤ day && day ≤ daysIn year month then
    some ({ year, month, day }, s)
  else none

/-- The nanoseconds of a fraction of a second, if there is one, and what comes after it.  Digits
after the ninth do not count. -/
def fraction (s : Text) : Nat × Text :=
  match s with
  | mark :: rest =>
    let digits := rest.takeWhile Text.isDigit
    if (mark = 0x2E || mark = 0x2C) && !digits.isEmpty then
      let counted := digits.take 9
      (digitsValue counted * Nat.pow 10 (9 - counted.length), rest.drop digits.length)
    else (0, s)
  | [] => (0, s)

/-- A date with a time of day, and what comes after it. -/
def time? (date : Timestamp) (s : Text) : Option (Timestamp × Text) := do
  let (hour, s) ← shortNumber? s
  let s ← after? 0x3A s
  let (minute, s) ← shortNumber? s
  let s ← after? 0x3A s
  let (second, s) ← shortNumber? s
  if hour < 24 && minute < 60 && second < 60 then
    let (nanosecond, s) := fraction s
    some ({ date with hour, minute, second, nanosecond }, s)
  else none

/-- A time zone: `Z`, or hours and minutes with a sign. -/
def zone? : Text → Option Zone
  | [0x5A] => some .universal
  | [sign, a, b, 0x3A, c, d] =>
    if (sign = 0x2B || sign = 0x2D) && [a, b, c, d].all Text.isDigit then
      let hours := digitsValue [a, b]
      let minutes := digitsValue [c, d]
      if hours ≤ 24 && minutes ≤ 60 then
        let distance : Int := hours * 60 + minutes
        some (.offset (if sign = 0x2D then -distance else distance))
      else none
    else none
  | _ => none

/-- The point in time that a plain scalar is. -/
def parse? (s : Text) : Option Timestamp := do
  match ← date? s with
  | (date, []) => some date
  | (date, mark :: rest) =>
    if mark = 0x20 then
      match ← time? date (rest.dropWhile (· = 0x20)) with
      | (t, []) => some t
      | _ => none
    else if mark = 0x54 || mark = 0x74 then
      let (t, rest) ← time? date rest
      let zone ← zone? rest
      some { t with zone }
    else none

/-- The names of the months. -/
def monthNames : List String :=
  ["January", "February", "March", "April", "May", "June", "July", "August", "September", "October",
    "November", "December"]

/-- A zone as messages show it. -/
def zoneText : Zone → String
  | .universal => "time.UTC"
  | .offset minutes => if minutes = 0 then "time.Local" else "time.Location(\"\")"

/-- A point in time as messages show it. -/
def shown (t : Timestamp) : Text :=
  let numbers := [t.day, t.hour, t.minute, t.second, t.nanosecond].map Text.decimal
  Text.utf8 "time.Date("
    ++ Text.join (Text.utf8 ", ")
      ([Text.decimal t.year, Text.utf8 ("time." ++ monthNames.getD (t.month - 1) "")] ++ numbers
        ++ [Text.utf8 (zoneText t.zone)])
    ++ Text.utf8 ")"

end Timestamp

end SqlStubs.Yaml
