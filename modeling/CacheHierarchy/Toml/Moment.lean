import CacheHierarchy.Text.Hex

/-!
# Dates and times

A moment is a date, a time of day, or both with or without an offset from universal time. Only days
that the calendar has and times that a clock can show are moments. Fractions of a second are kept
to nine places and cut off there. A moment has one canonical text, whatever it was read from.
-/

namespace CacheHierarchy.Toml

structure Date where
  year : Nat
  month : Nat
  day : Nat
  deriving DecidableEq, Repr, Inhabited

structure ClockTime where
  hour : Nat
  minute : Nat
  second : Nat
  nanosecond : Nat := 0
  deriving DecidableEq, Repr, Inhabited

inductive ZoneOffset
  | universal
  | minutes (ahead : Int)
  deriving DecidableEq, Repr, Inhabited

inductive Moment
  | date (d : Date)
  | time (t : ClockTime)
  | dateTime (d : Date) (t : ClockTime) (offset : Option ZoneOffset)
  deriving DecidableEq, Repr, Inhabited

def isLeapYear (year : Nat) : Bool := year % 4 == 0 && (year % 100 != 0 || year % 400 == 0)

def daysInMonth (year month : Nat) : Nat :=
  if month = 2 then if isLeapYear year then 29 else 28
  else if month = 4 ∨ month = 6 ∨ month = 9 ∨ month = 11 then 30
  else 31

/-- The decimal digits of a number, filled up with zeros to a width. -/
def paddedDigits (width n : Nat) : String :=
  let digits := Nat.toDigits 10 n
  String.ofList (List.replicate (width - digits.length) '0' ++ digits)

def decimalValue (digits : List Char) : Nat :=
  digits.foldl (fun value c => 10 * value + (c.toNat - '0'.toNat)) 0

/-- A number of exactly `width` digits at the start of a text, and what follows it. -/
def fixedDigits? (width : Nat) (text : List Char) : Option (Nat × List Char) :=
  let digits := text.take width
  if digits.length = width ∧ digits.all Char.isDigit then
    some (decimalValue digits, text.drop width)
  else none

/-- What follows a character at the start of a text. -/
def after? (mark : Char) : List Char → Option (List Char)
  | c :: rest => if c = mark then some rest else none
  | [] => none

namespace Date

def ofText? (text : List Char) : Option (Date × List Char) := do
  let (year, text) ← fixedDigits? 4 text
  let (month, text) ← fixedDigits? 2 (← after? '-' text)
  let (day, text) ← fixedDigits? 2 (← after? '-' text)
  if 1 ≤ month ∧ month ≤ 12 ∧ 1 ≤ day ∧ day ≤ daysInMonth year month then
    some ({ year, month, day }, text)
  else none

def text (d : Date) : String :=
  paddedDigits 4 d.year ++ "-" ++ paddedDigits 2 d.month ++ "-" ++ paddedDigits 2 d.day

end Date

namespace ClockTime

/-- The digits of a fraction of a second as a number of nanoseconds. -/
def nanosecondsOf (digits : List Char) : Nat :=
  let kept := digits.take 9
  decimalValue kept * Nat.pow 10 (9 - kept.length)

/-- The fraction of a second at the start of a text, zero if there is none. A point has to be
followed by digits. -/
def fraction? : List Char → Option (Nat × List Char)
  | '.' :: text =>
    let digits := text.takeWhile Char.isDigit
    if digits.isEmpty then none else some (nanosecondsOf digits, text.dropWhile Char.isDigit)
  | text => some (0, text)

/-- The time at the start of a text. A minute may have a leap second. -/
def ofText? (text : List Char) : Option (ClockTime × List Char) := do
  let (hour, text) ← fixedDigits? 2 text
  let (minute, text) ← fixedDigits? 2 (← after? ':' text)
  let (second, text) ← fixedDigits? 2 (← after? ':' text)
  let (nanosecond, text) ← fraction? text
  if hour ≤ 23 ∧ minute ≤ 59 ∧ second ≤ 60 then
    some ({ hour, minute, second, nanosecond }, text)
  else none

/-- A fraction of a second as text, without zeros at its end. -/
def fractionText (nanosecond : Nat) : String :=
  if nanosecond = 0 then ""
  else
    let digits := (paddedDigits 9 nanosecond).toList
    "." ++ String.ofList (digits.reverse.dropWhile (· == '0')).reverse

def text (t : ClockTime) : String :=
  paddedDigits 2 t.hour ++ ":" ++ paddedDigits 2 t.minute ++ ":" ++ paddedDigits 2 t.second ++
    fractionText t.nanosecond

end ClockTime

namespace ZoneOffset

/-- The hours and minutes of an offset as minutes. -/
def minutes? (text : List Char) : Option Nat := do
  let (hour, text) ← fixedDigits? 2 text
  let (minute, text) ← fixedDigits? 2 (← after? ':' text)
  if hour ≤ 23 ∧ minute ≤ 59 ∧ text.isEmpty then some (60 * hour + minute) else none

/-- The offset that a text stands for; none for an empty text. -/
def ofText? : List Char → Option (Option ZoneOffset)
  | [] => some none
  | ['Z'] => some (some .universal)
  | ['z'] => some (some .universal)
  | '+' :: text => (minutes? text).map fun ahead => some (.minutes ahead)
  | '-' :: text => (minutes? text).map fun behind => some (.minutes (-behind))
  | _ => none

def text : ZoneOffset → String
  | universal => "Z"
  | minutes ahead =>
    (if ahead < 0 then "-" else "+") ++ paddedDigits 2 (ahead.natAbs / 60) ++ ":" ++
      paddedDigits 2 (ahead.natAbs % 60)

end ZoneOffset

namespace Moment

/-- The character stands between a date and a time. -/
def isTimeMark (c : Char) : Bool := c == 'T' || c == 't' || c == ' '

def ofText? (text : List Char) : Option Moment :=
  match Date.ofText? text with
  | some (d, []) => some (.date d)
  | some (d, mark :: rest) => do
    if !isTimeMark mark then none
    let (t, rest) ← ClockTime.ofText? rest
    return .dateTime d t (← ZoneOffset.ofText? rest)
  | none =>
    match ClockTime.ofText? text with
    | some (t, []) => some (.time t)
    | _ => none

def text : Moment → String
  | date d => d.text
  | time t => t.text
  | dateTime d t none => d.text ++ "T" ++ t.text
  | dateTime d t (some offset) => d.text ++ "T" ++ t.text ++ offset.text

end Moment

end CacheHierarchy.Toml
