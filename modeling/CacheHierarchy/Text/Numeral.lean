import CacheHierarchy.Word

/-!
# Reading hexadecimal numerals

A numeral is a non-empty run of hexadecimal digits, upper and lower case alike, that may have a
plus sign in front and any number of leading zeros. Its value has to fit in a word. It is read from
the left, and of two faults the one further to the left is reported; at one digit, that it is none
comes before its being too much.
-/

namespace CacheHierarchy.Text

inductive NumeralError
  | empty
  | invalidDigit
  | tooLarge
  deriving DecidableEq, Repr, Inhabited

def NumeralError.message : NumeralError → String
  | empty => "cannot parse integer from empty string"
  | invalidDigit => "invalid digit found in string"
  | tooLarge => "number too large to fit in target type"

def hexDigit? (c : Char) : Option Nat :=
  if '0' ≤ c ∧ c ≤ '9' then some (c.toNat - '0'.toNat)
  else if 'a' ≤ c ∧ c ≤ 'f' then some (c.toNat - 'a'.toNat + 10)
  else if 'A' ≤ c ∧ c ≤ 'F' then some (c.toNat - 'A'.toNat + 10)
  else none

/-- The value of digits that follow those already read. -/
def readDigits (read : Nat) : List Char → Except NumeralError Nat
  | [] => .ok read
  | c :: rest =>
    match hexDigit? c with
    | none => .error .invalidDigit
    | some digit =>
      if 16 * read + digit < wordLimit then readDigits (16 * read + digit) rest
      else .error .tooLarge

def readHex : List Char → Except NumeralError Nat
  | [] => .error .empty
  | ['+'] => .error .invalidDigit
  | '+' :: digits => readDigits 0 digits
  | digits => readDigits 0 digits

/-- A text without the mark of hexadecimal numerals, which is taken off once. -/
def dropHexMark : List Char → List Char
  | '0' :: 'x' :: rest => rest
  | '0' :: 'X' :: rest => rest
  | text => text

end CacheHierarchy.Text
