/-!
# Floating-point numbers taken apart

A finite non-negative double is a natural number times a power of two. Everything that the decimal
printers need is exact arithmetic on those two numbers. The reals that round to the double form an
interval around it: half a step up, and half a step down, where the step down from a power of two
is half as wide as the step up. Its ends belong to it exactly if the significand is even.
-/

namespace CacheHierarchy.Decimal

/-- What to do with a value halfway between two candidates. -/
inductive Tie
  | toEven
  | up
  deriving DecidableEq, Repr

structure Binary where
  significand : Nat
  exponent : Int
  /-- The step to the next smaller double is half the step to the next larger one. -/
  narrowBelow : Bool := false
  deriving DecidableEq, Repr

/-- A decimal number `coefficient * 10 ^ exponent`. -/
structure Scientific where
  coefficient : Nat
  exponent : Int
  deriving DecidableEq, Repr

/-- The weight of the leading binary digit of a significand, which is also the weight of the
exponent among the bits of a double. -/
def leadingBit : Nat := Nat.pow 2 52

/-- The weight of the sign among the bits of a double. -/
def signBit : Nat := Nat.pow 2 63

/-- The bits of infinity. Those of any number are below them, and those of what is no number
above, the sign left out. -/
def infinityBits : Nat := 2047 * leadingBit

namespace Binary

/-- The finite number with these bits, its sign left out. -/
def ofBits (bits : Nat) : Binary :=
  let exponent : Nat := bits / leadingBit % 2048
  let fraction : Nat := bits % leadingBit
  if exponent = 0 then { significand := fraction, exponent := -1074 }
  else
    { significand := leadingBit + fraction
      exponent := (exponent : Int) - 1075
      narrowBelow := fraction == 0 && 1 < exponent }

/-- A positive power of a base, one for a negative exponent. -/
def scale (base : Nat) (exponent : Int) : Nat := Nat.pow base exponent.toNat

/-- `quarters * 2 ^ (exponent - 2)` counted in units of `10 ^ step`, as a fraction. The numerator
comes first. -/
def inSteps (b : Binary) (quarters : Nat) (step : Int) : Nat × Nat :=
  (quarters * scale 2 (b.exponent - 2) * scale 10 (-step),
    scale 2 (2 - b.exponent) * scale 10 step)

/-- The largest multiple of `10 ^ step` that is not above the number, as a multiple. -/
def floorAt (b : Binary) (step : Int) : Nat :=
  let (n, d) := b.inSteps (4 * b.significand) step
  n / d

def isBelow (b : Binary) (step : Int) : Bool :=
  let (n, d) := b.inSteps (4 * b.significand) step
  n < d

/-- The decimal lies among the reals that round to the number. -/
def readsBack (b : Binary) (s : Scientific) : Bool :=
  let (low, d) := b.inSteps (4 * b.significand - if b.narrowBelow then 1 else 2) s.exponent
  let (high, _) := b.inSteps (4 * b.significand + 2) s.exponent
  let c := s.coefficient * d
  if b.significand % 2 = 0 then low ≤ c && c ≤ high else low < c && c < high

/-- Of two neighbouring multiples of `10 ^ step` with the number between them, the upper one is
nearer, or as near and preferred by `tie`. -/
def prefersUpper (b : Binary) (tie : Tie) (lower : Nat) (step : Int) : Bool :=
  let (n, d) := b.inSteps (4 * b.significand) step
  match compare (2 * n) ((2 * lower + 1) * d) with
  | .lt => false
  | .gt => true
  | .eq => match tie with
    | .up => true
    | .toEven => lower % 2 == 1

end Binary

end CacheHierarchy.Decimal
