import CacheHierarchy.Decimal.Shortest

/-!
# Decimals as text

A `Layout` fixes how chosen digits are written: for which magnitudes with a point in its place and
for which with an exponent, what follows a whole number, and what stands for a value that is no
number. Reports write every number positionally and nothing after a whole one; statistics files
write a decimal point always and an exponent for very large or very small numbers.
-/

namespace CacheHierarchy.Decimal

structure Layout where
  /-- Numbers whose point comes this many places after the first digit, or before it if negative,
  are written positionally. -/
  isPositional : Int → Bool
  afterWhole : String
  tie : Tie
  notANumber : String
  infinite : String
  negativeInfinite : String

/-- The digits of a positive decimal without trailing zeros, and the position of the point: the
number is the digits read behind a leading point, times ten to that power. -/
def significant (s : Scientific) : List Char × Int :=
  let digits := Nat.toDigits 10 s.coefficient
  ((digits.reverse.dropWhile (· == '0')).reverse, s.exponent + digits.length)

def zeros (n : Nat) : List Char := List.replicate n '0'

def positional (afterWhole : String) (digits : List Char) (point : Int) : String :=
  if point ≤ 0 then
    "0." ++ String.ofList (zeros (-point).toNat ++ digits)
  else
    let whole := point.toNat
    if whole < digits.length then
      String.ofList (digits.take whole) ++ "." ++ String.ofList (digits.drop whole)
    else
      String.ofList (digits ++ zeros (whole - digits.length)) ++ afterWhole

/-- Digits with a point after the first and an exponent. -/
def exponential (digits : List Char) (point : Int) : String :=
  let mantissa := match digits with
    | first :: [] => String.ofList [first]
    | first :: rest => String.ofList (first :: '.' :: rest)
    | [] => "0"
  mantissa ++ "e" ++ toString (point - 1)

namespace Layout

/-- The bits of a finite number without its sign, as text. -/
def magnitudeText (l : Layout) (bits : Nat) : String :=
  if bits = 0 then "0" ++ l.afterWhole
  else
    let (digits, point) := significant ((Binary.ofBits bits).shortest l.tie)
    if l.isPositional point then positional l.afterWhole digits point
    else exponential digits point

def render (l : Layout) (x : Float) : String :=
  let bits := x.toBits.toNat
  let negative := signBit ≤ bits
  let magnitude := bits % signBit
  if infinityBits < magnitude then l.notANumber
  else if magnitude = infinityBits then if negative then l.negativeInfinite else l.infinite
  else (if negative then "-" else "") ++ l.magnitudeText magnitude

end Layout

/-- Numbers in reports: never an exponent, and nothing behind a whole number. -/
def reportLayout : Layout where
  isPositional _ := true
  afterWhole := ""
  tie := .up
  notANumber := "NaN"
  infinite := "inf"
  negativeInfinite := "-inf"

/-- Numbers in statistics files: a point always, and an exponent from `1e16` on and below
`1e-5`. -/
def statisticsLayout : Layout where
  isPositional point := -5 < point && point ≤ 16
  afterWhole := ".0"
  tie := .toEven
  notANumber := "null"
  infinite := "null"
  negativeInfinite := "null"

def plain (x : Float) : String := reportLayout.render x

end CacheHierarchy.Decimal
