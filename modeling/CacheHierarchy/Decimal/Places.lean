import CacheHierarchy.Decimal.Layout

/-!
# A fixed number of places

The exact value of a double is rounded to the nearest multiple of a power of a tenth. A value
halfway between two multiples goes to the even one.
-/

namespace CacheHierarchy.Decimal

/-- A quotient rounded to the nearest whole number, halves to the even one. -/
def roundDiv (n d : Nat) : Nat :=
  let q := n / d
  match compare (2 * (n % d)) d with
  | .lt => q
  | .gt => q + 1
  | .eq => q + q % 2

/-- A finite number without its sign, with `places` digits after the point. -/
def Binary.withPlaces (b : Binary) (places : Nat) : String :=
  let (n, d) := b.inSteps (4 * b.significand) (-(places : Int))
  let digits := Nat.toDigits 10 (roundDiv n d)
  let digits := zeros (places + 1 - digits.length) ++ digits
  let whole := String.ofList (digits.take (digits.length - places))
  if places = 0 then whole
  else whole ++ "." ++ String.ofList (digits.drop (digits.length - places))

/-- A double with `places` digits after the point. -/
def withPlaces (places : Nat) (x : Float) : String :=
  let bits := x.toBits.toNat
  let magnitude := bits % signBit
  if infinityBits ≤ magnitude then plain x
  else
    (if signBit ≤ bits then "-" else "") ++ (Binary.ofBits magnitude).withPlaces places

theorem roundDiv_near (n d : Nat) (h : 0 < d) :
    2 * n ≤ (2 * roundDiv n d + 1) * d ∧ (2 * roundDiv n d) * d ≤ 2 * n + d := by
  have e : d * (n / d) + n % d = n := Nat.div_add_mod n d
  have l : n % d < d := Nat.mod_lt _ h
  have half : (n / d) % 2 = 0 ∨ (n / d) % 2 = 1 := Nat.mod_two_eq_zero_or_one _
  unfold roundDiv
  generalize n / d = q at *
  generalize n % d = r at *
  subst e
  dsimp only
  split
  · rename_i hc
    rw [Nat.compare_eq_lt] at hc
    constructor <;> grind
  · rename_i hc
    rw [Nat.compare_eq_gt] at hc
    constructor <;> grind
  · rename_i hc
    rw [Nat.compare_eq_eq] at hc
    rcases half with h0 | h1
    · rw [h0]
      constructor <;> grind
    · rw [h1]
      constructor <;> grind

end CacheHierarchy.Decimal
