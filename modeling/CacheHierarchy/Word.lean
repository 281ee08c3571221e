import CacheHierarchy.Fault

/-!
# Arithmetic in a 64-bit word

Addresses, cycles and counters are natural numbers below `wordLimit`. An operation whose result
would leave that range is a fault; counters that stop at the top instead use `Word.bump`.
-/

namespace CacheHierarchy

/-- The first number that no longer fits in a word. -/
def wordLimit : Nat := 18446744073709551616

namespace Word

def add (a b : Nat) : Except Fault Nat :=
  if a + b < wordLimit then .ok (a + b) else .error .sumOverflow

def mul (a b : Nat) : Except Fault Nat :=
  if a * b < wordLimit then .ok (a * b) else .error .productOverflow

def div (a b : Nat) : Except Fault Nat :=
  if b = 0 then .error .zeroDivisor else .ok (a / b)

def rem (a b : Nat) : Except Fault Nat :=
  if b = 0 then .error .zeroModulus else .ok (a % b)

/-- The sum, or the largest word if the sum is larger. -/
def addCapped (a b : Nat) : Nat := min (a + b) (wordLimit - 1)

/-- One more, stopping at the largest word. -/
def bump (a : Nat) : Nat := addCapped a 1

theorem add_eq_ok_iff {a b c : Nat} : add a b = .ok c ↔ a + b < wordLimit ∧ c = a + b := by
  unfold add
  by_cases h : a + b < wordLimit <;> simp [h, eq_comm]

theorem mul_eq_ok_iff {a b c : Nat} : mul a b = .ok c ↔ a * b < wordLimit ∧ c = a * b := by
  unfold mul
  by_cases h : a * b < wordLimit <;> simp [h, eq_comm]

theorem div_eq_ok_iff {a b c : Nat} : div a b = .ok c ↔ b ≠ 0 ∧ c = a / b := by
  unfold div
  by_cases h : b = 0 <;> simp [h, eq_comm]

theorem rem_eq_ok_iff {a b c : Nat} : rem a b = .ok c ↔ b ≠ 0 ∧ c = a % b := by
  unfold rem
  by_cases h : b = 0 <;> simp [h, eq_comm]

/-- Below the top a bump is an ordinary step. -/
theorem bump_of_lt {a : Nat} (h : a + 1 < wordLimit) : bump a = a + 1 := by
  unfold bump addCapped
  omega

end Word

end CacheHierarchy
