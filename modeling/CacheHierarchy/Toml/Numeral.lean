import CacheHierarchy.Decimal.Nearest
import CacheHierarchy.Text.Cut
import CacheHierarchy.Text.Numeral

/-!
# Numbers

Whole numbers are written in base ten with an optional sign, or in base sixteen, eight or two behind
a mark and without a sign; they have to fit in 64 bits with a sign. Other numbers have a fraction,
an exponent or both. Single underscores may stand between digits, and a number in base ten does not
start with a zero unless that is its only digit in front of the point.
-/

namespace CacheHierarchy.Toml

/-- The digits of a numeral without the underscores between them. -/
def grouped? (isDigit : Char → Bool) (text : List Char) : Option (List Char) :=
  let groups := Text.cut (· == '_') text
  if groups.all fun group => !group.isEmpty && group.all isDigit then some groups.flatten else none

/-- A text without the sign in front, and whether that is a minus. -/
def splitSign : List Char → Bool × List Char
  | '+' :: rest => (false, rest)
  | '-' :: rest => (true, rest)
  | text => (false, text)

/-- The number that digits in a base stand for. -/
def digitsValue (base : Nat) (digits : List Char) : Nat :=
  digits.foldl (fun value c => base * value + (Text.hexDigit? c).getD 0) 0

def isDigitIn (base : Nat) (c : Char) : Bool :=
  match Text.hexDigit? c with
  | some value => value < base
  | none => false

def wholeDigits? (text : List Char) : Option (List Char) := do
  let digits ← grouped? (isDigitIn 10) text
  if digits.head? = some '0' ∧ digits.length ≠ 1 then none
  return digits

/-- The first number that does not fit in 64 bits with a sign. -/
def integerLimit : Int := 9223372036854775808

/-- A whole number that fits in 64 bits with a sign. -/
def fitting? (n : Int) : Option Int :=
  if -integerLimit ≤ n ∧ n < integerLimit then some n else none

/-- A number without a sign in a base other than ten. -/
def based? (base : Nat) (text : List Char) : Option Int := do
  let digits ← grouped? (isDigitIn base) text
  fitting? (digitsValue base digits)

def integer? : List Char → Option Int
  | '0' :: 'x' :: text => based? 16 text
  | '0' :: 'o' :: text => based? 8 text
  | '0' :: 'b' :: text => based? 2 text
  | text => do
    let (negative, text) := splitSign text
    let value : Int := digitsValue 10 (← wholeDigits? text)
    fitting? (if negative then -value else value)

/-- A text cut in front of the first character of a class: what comes before it, and, if there is
one, what comes after it. -/
def splitAt? (mark : Char → Bool) (text : List Char) : List Char × Option (List Char) :=
  match text.dropWhile fun c => !mark c with
  | [] => (text, none)
  | _ :: rest => (text.takeWhile fun c => !mark c, some rest)

/-- The exponent that a text stands for, zero if there is none. -/
def exponent? : Option (List Char) → Option Int
  | none => some 0
  | some text => do
    let (negative, text) := splitSign text
    let value : Int := digitsValue 10 (← grouped? (isDigitIn 10) text)
    return if negative then -value else value

/-- The digits of a fraction, none if there is no fraction. -/
def fractionDigits? : Option (List Char) → Option (List Char)
  | none => some []
  | some text => grouped? (isDigitIn 10) text

/-- The number with a fraction or an exponent that a text without a sign stands for. -/
def scientific? (text : List Char) : Option Decimal.Scientific := do
  let (mantissa, exponentText) := splitAt? (fun c => c == 'e' || c == 'E') text
  let (whole, fractionText) := splitAt? (· == '.') mantissa
  if exponentText.isNone && fractionText.isNone then none
  let whole ← wholeDigits? whole
  let fraction ← fractionDigits? fractionText
  let exponent ← exponent? exponentText
  return {
    coefficient := digitsValue 10 (whole ++ fraction)
    exponent := exponent - fraction.length }

/-- The floating-point number that a text stands for. Digits that stand for more than the largest
double are no number. -/
def float? (text : List Char) : Option Float :=
  let (negative, text) := splitSign text
  if text = ['i', 'n', 'f'] then some (if negative then -1.0 / 0.0 else 1.0 / 0.0)
  else if text = ['n', 'a', 'n'] then some (0.0 / 0.0)
  else do
    let decimal ← scientific? text
    if decimal.nearestBits = Decimal.infinityBits ∧ !negative then none
    return decimal.toFloat negative

end CacheHierarchy.Toml
