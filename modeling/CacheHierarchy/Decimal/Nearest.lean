import CacheHierarchy.Decimal.Places

/-!
# The double nearest to a decimal

The doubles at and above zero, in ascending order, are numbered by their bits. Those below
`2 ^ -1021` lie `2 ^ -1074` apart, and from there on the distance doubles with each power of two. So
the number of the double nearest to a quotient comes from rounding the quotient at the right
distance, halves to the even neighbour. What lies beyond the largest double by half a step or more
goes to infinity.
-/

namespace CacheHierarchy.Decimal

/-- The quotient of two numbers counted in units of `2 ^ step`, as a fraction. The numerator comes
first. -/
def inBinarySteps (n d : Nat) (step : Int) : Nat × Nat :=
  (n * Binary.scale 2 (-step), d * Binary.scale 2 step)

/-- The exponent of the distance between the doubles around a positive quotient: the quotient
counted in units of it has 53 binary digits, or fewer at the smallest distance. -/
def stepOf (n d : Nat) : Int :=
  let guess : Int := (Nat.log2 n : Int) - Nat.log2 d - 52
  let (a, b) := inBinarySteps n d guess
  max (-1074) (if a < b * leadingBit then guess - 1 else guess)

/-- The bits of the double nearest to a positive quotient. -/
def nearestBits (n d : Nat) : Nat :=
  let step := stepOf n d
  let (a, b) := inBinarySteps n d step
  min infinityBits ((step + 1074).toNat * leadingBit + roundDiv a b)

/-- The bits of the double nearest to a decimal. An exponent far outside the range of doubles is
not computed with. -/
def Scientific.nearestBits (s : Scientific) : Nat :=
  let point := s.exponent + (Nat.toDigits 10 s.coefficient).length
  if s.coefficient = 0 ∨ point < -330 then 0
  else if 330 < point then infinityBits
  else Decimal.nearestBits (s.coefficient * Binary.scale 10 s.exponent)
    (Binary.scale 10 (-s.exponent))

/-- The double nearest to a decimal with a sign in front. -/
def Scientific.toFloat (s : Scientific) (negative : Bool) : Float :=
  Float.ofBits ((if negative then signBit else 0) + s.nearestBits).toUInt64

end CacheHierarchy.Decimal
