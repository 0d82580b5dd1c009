import PackageUsage.Text.Basic

namespace PackageUsage

structure CalendarDate where
  year : Nat
  month : Nat
  day : Nat
deriving DecidableEq, Repr

structure ClockTime where
  hour : Nat
  minute : Nat
  second : Nat
  microsecond : Nat
deriving DecidableEq, Repr

/-- A day, a time of day, or a time on a day with what it is ahead of universal time, in minutes. -/
inductive Moment where
  | day (d : CalendarDate)
  | time (t : ClockTime)
  | instant (d : CalendarDate) (t : ClockTime) (offset : Option Int)
deriving DecidableEq, Repr

/-- `n` in digits, filled up to `width` with zeros. -/
def zeroPadded (width n : Nat) : String :=
  let digits := (toString n).toList
  String.ofList (List.replicate (width - digits.length) '0' ++ digits)

namespace CalendarDate

def isLeap (year : Nat) : Bool := year % 4 == 0 && (year % 100 != 0 || year % 400 == 0)

def monthLength (year month : Nat) : Nat :=
  if month = 2 then (if isLeap year then 29 else 28)
  else if [4, 6, 9, 11].contains month then 30
  else 31

/-- Whether there is such a day. The calendar begins with the year one. -/
def isValid (d : CalendarDate) : Bool :=
  1 ≤ d.year && 1 ≤ d.month && d.month ≤ 12 && 1 ≤ d.day && d.day ≤ monthLength d.year d.month

def text (d : CalendarDate) : String :=
  zeroPadded 4 d.year ++ "-" ++ zeroPadded 2 d.month ++ "-" ++ zeroPadded 2 d.day

def fields (d : CalendarDate) : List Nat := [d.year, d.month, d.day]

end CalendarDate

namespace ClockTime

def text (t : ClockTime) : String :=
  zeroPadded 2 t.hour ++ ":" ++ zeroPadded 2 t.minute ++ ":" ++ zeroPadded 2 t.second ++
    (if t.microsecond = 0 then "" else "." ++ zeroPadded 6 t.microsecond)

/-- The parts of a time, without zeros at the end from the seconds on. -/
def fields (t : ClockTime) : List Nat :=
  [t.hour, t.minute] ++
    (if t.microsecond ≠ 0 then [t.second, t.microsecond]
    else if t.second ≠ 0 then [t.second]
    else [])

end ClockTime

namespace Moment

def offsetText (minutes : Int) : String :=
  (if minutes < 0 then "-" else "+") ++ zeroPadded 2 (minutes.natAbs / 60) ++ ":" ++
    zeroPadded 2 (minutes.natAbs % 60)

/-- The usual form, with a space between day and time. -/
def text : Moment → String
  | day d => d.text
  | time t => t.text
  | instant d t offset => d.text ++ " " ++ t.text ++ (offset.map offsetText).getD ""

def call (name : String) (arguments : List String) : String :=
  name ++ "(" ++ Text.join ", " arguments ++ ")"

/-- An offset inside a value that is spelled out: whole days, which are negative for one behind
universal time, and the seconds left. -/
def offsetQuoted (minutes : Int) : String :=
  if minutes = 0 then "datetime.timezone.utc"
  else
    let seconds := s!"seconds={(minutes * 60) % 86400}"
    call "datetime.timezone" [call "datetime.timedelta"
      (if minutes < 0 then ["days=-1", seconds] else [seconds])]

/-- The form that spells out what kind of value it is, as values inside others are shown. -/
def quoted : Moment → String
  | day d => call "datetime.date" (d.fields.map toString)
  | time t => call "datetime.time" (t.fields.map toString)
  | instant d t offset =>
    call "datetime.datetime" ((d.fields ++ t.fields).map toString ++
      (offset.map fun m => "tzinfo=" ++ offsetQuoted m).toList)

end Moment

end PackageUsage
