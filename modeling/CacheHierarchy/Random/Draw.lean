import CacheHierarchy.Random.KeyStream
import CacheHierarchy.Word

/-!
# Drawing numbers

Numbers in the unit interval, and whole numbers below a bound. A whole number is the upper half of
a word times the bound. Words whose lower half falls beyond the largest multiple of the bound are
drawn again, so that every number is as likely as every other.

Whoever draws numbers may do so from any `Source` of them; the key stream is one.
-/

namespace CacheHierarchy.Random

/-- Where random numbers come from: one in the unit interval, and a whole one below a bound, each
with the source behind it. -/
class Source (σ : Type) where
  unit : σ → Float × σ
  below : Nat → σ → Nat × σ

/-- Every whole number is below its bound, where the bound is a word above zero. -/
def Source.IsBounded (σ : Type) [Source σ] : Prop :=
  ∀ bound, 0 < bound → bound < wordLimit → ∀ s : σ, (below bound s).1 < bound

/-- A number at least zero and below one, a multiple of `2 ^ -53`. -/
def unit (s : KeyStream) : Float × KeyStream :=
  let (word, s) := s.next64
  ((word >>> 11).toFloat / 9007199254740992.0, s)

/-- The largest lower half that is accepted: the bound is doubled until its top bit is that of a
word. -/
def acceptance (bound : Nat) : Nat := bound <<< (63 - Nat.log2 bound) - 1

/-- A number below the bound, drawn again at most as many times as the last argument says; then the
next draw counts as it is. At least every other word is accepted. -/
def drawBelow (bound : Nat) (s : KeyStream) : Nat → Nat × KeyStream
  | 0 =>
    let (word, s) := s.next64
    (word.toNat * bound / wordLimit, s)
  | n + 1 =>
    let (word, s) := s.next64
    let product := word.toNat * bound
    if product % wordLimit ≤ acceptance bound then (product / wordLimit, s)
    else drawBelow bound s n

def below (bound : Nat) (s : KeyStream) : Nat × KeyStream := drawBelow bound s 256

instance : Source KeyStream where
  unit := unit
  below := below

theorem drawBelow_lt {bound : Nat} (h : 0 < bound) (s : KeyStream) (n : Nat) :
    (drawBelow bound s n).1 < bound := by
  have key (word : UInt64) : word.toNat * bound / wordLimit < bound := by
    rw [Nat.div_lt_iff_lt_mul (by decide), Nat.mul_comm]
    exact (Nat.mul_lt_mul_left h).2 word.toNat_lt
  induction n generalizing s with
  | zero => exact key _
  | succ n ih =>
    unfold drawBelow
    dsimp only
    split
    · exact key _
    · exact ih _

/-- What is drawn from the key stream lies below the bound. -/
theorem isBounded_keyStream : Source.IsBounded KeyStream := fun _ h _ s => drawBelow_lt h s 256

end CacheHierarchy.Random
