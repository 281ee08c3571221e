import CacheHierarchy.Decimal.Binary

/-!
# The fewest digits that read back

Of the decimals that round to a given double, those with the fewest digits are looked for, and of
these the one nearest to it. Decimals of `n` digits near the number form a grid whose step is
fixed by the number's magnitude, and if any grid point reads back then one of the number's two
neighbours on the grid does. So the grids for one digit, two digits and so on are tried in turn.
Seventeen digits always suffice.
-/

namespace CacheHierarchy.Decimal

namespace Binary

/-- The least `k` with the number below `10 ^ k`, for a number that is not zero. It is found near
an estimate from the binary logarithm. -/
def magnitude (b : Binary) : Int :=
  let estimate := Int.fdiv (((Nat.log2 b.significand : Nat) + b.exponent) * 30103) 100000
  let candidates := [estimate - 1, estimate, estimate + 1, estimate + 2]
  (candidates.find? b.isBelow).getD (estimate + 3)

/-- The neighbour of the number on the grid of step `10 ^ step` that reads back, the nearer one if
both do. -/
def onGrid? (b : Binary) (tie : Tie) (step : Int) : Option Scientific :=
  let lower : Scientific := { coefficient := b.floorAt step, exponent := step }
  let upper : Scientific := { coefficient := b.floorAt step + 1, exponent := step }
  match b.readsBack lower, b.readsBack upper with
  | true, true => some (if b.prefersUpper tie lower.coefficient step then upper else lower)
  | true, false => some lower
  | false, true => some upper
  | false, false => none

def shortest (b : Binary) (tie : Tie) : Scientific :=
  let k := b.magnitude
  let step (digits : Nat) : Int := k - digits
  ((List.range 17).findSome? fun n => b.onGrid? tie (step (n + 1))).getD
    { coefficient := b.floorAt (step 17), exponent := step 17 }

/-- A decimal that was found on a grid reads back. -/
theorem readsBack_of_onGrid? {b : Binary} {tie : Tie} {step : Int} {s : Scientific}
    (h : b.onGrid? tie step = some s) : b.readsBack s = true := by
  unfold onGrid? at h
  dsimp only at h
  split at h
  · rename_i hl hu
    split at h <;> cases h <;> assumption
  · rename_i hl hu
    cases h
    exact hl
  · rename_i hl hu
    cases h
    exact hu
  · cases h

end Binary

end CacheHierarchy.Decimal
