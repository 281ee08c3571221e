import CacheHierarchy.Access
import CacheHierarchy.Text.Hex

/-!
# Faults

A run stops with a fault where an operation is used outside its contract, or where a number
leaves the 64-bit word. A fault says what went wrong; `Fault.message` is the only place that puts
it into words.
-/

namespace CacheHierarchy

inductive Fault
  | sumOverflow
  | productOverflow
  | zeroDivisor
  | zeroModulus
  /-- A position beyond the end of a list of `length` entries. -/
  | outOfRange (length index : Nat)
  | ownNeighbour (cache : Nat)
  /-- No cache stands at this position, the first one past the end. -/
  | noSuchCache (cache : Nat)
  /-- A position further past the end. -/
  | beyondCaches
  | zeroDimension (array dimension : String)
  | checkAsFill (array : String) (addr : Nat)
  | writeBackAsLookup (array : String) (addr : Nat)
  /-- A write-back arrived for a line that is not resident: inclusion does not hold. -/
  | writeBackMissed (array : String) (addr : Nat)
  /-- A demand fill arrived for a line that is resident already. -/
  | alreadyResident (array : String) (kind : AccessKind) (addr : Nat)
  | dropMissed (array : String) (addr : Nat)
  /-- A request of a kind that never travels down stood in a send queue. -/
  | strayInSendQueue (cache : String) (kind : AccessKind) (id : Nat)
  /-- A write-back reached a cache that has no cache above it. -/
  | writeBackAtTop (cache : String) (id addr : Nat)
  /-- A write-back that its receiver did not expect. -/
  | unexpectedWriteBack (site : String) (id addr : Nat)
  | dirtyInstructionVictim (cache : String) (addr : Nat)
  /-- A line to drop on the instruction side is dirty. -/
  | dirtyInstructionCopy (cache : String) (addr : Nat)
  | registeredTwice (id : Nat)
  | notOutstanding (id : Nat)
  | notDemand (kind : AccessKind) (addr : Nat)
  deriving DecidableEq, Repr, Inhabited

namespace Fault

/-- The fault is a number that left the word, not a broken contract. -/
def isOverflow : Fault → Bool
  | sumOverflow => true
  | productOverflow => true
  | _ => false

def message : Fault → String
  | sumOverflow => "attempt to add with overflow"
  | productOverflow => "attempt to multiply with overflow"
  | zeroDivisor => "attempt to divide by zero"
  | zeroModulus => "attempt to calculate the remainder with a divisor of zero"
  | outOfRange length index =>
    s!"index out of bounds: the len is {length} but the index is {index}"
  | ownNeighbour cache => s!"actor {cache} addressed itself as a neighbor"
  | noSuchCache cache => s!"actor {cache} does not exist"
  | beyondCaches => "mid > len"
  | zeroDimension array dimension => s!"{array}: {dimension} must be > 0"
  | checkAsFill array addr => s!"{array}: check access used as a fill @ {Text.hex addr}"
  | writeBackAsLookup array addr =>
    s!"{array}: write-back presented as an ordinary access @ {Text.hex addr}"
  | writeBackMissed array addr =>
    s!"{array}: write-back fill missed @ {Text.hex addr}, inclusion violated"
  | alreadyResident array kind addr =>
    s!"{array}: {kind.symbol} fill for already resident line @ {Text.hex addr}"
  | dropMissed array addr => s!"{array}: invalidation missed @ {Text.hex addr}"
  | strayInSendQueue cache kind id => s!"{cache}: {kind.symbol} request #{id} in the out queue"
  | writeBackAtTop cache id addr =>
    s!"{cache}: write-back #{id} delivered to a top-level cache @ {Text.hex addr}"
  | unexpectedWriteBack site id addr =>
    s!"{site}: untracked write-back #{id} @ {Text.hex addr}"
  | dirtyInstructionVictim cache addr =>
    s!"{cache}: instruction cache evicted a dirty line @ {Text.hex addr}"
  | dirtyInstructionCopy cache addr =>
    s!"{cache}: instruction-side back-invalidation found a dirty line @ {Text.hex addr}"
  | registeredTwice id => s!"request #{id} registered twice"
  | notOutstanding id => s!"done request #{id} was never in flight"
  | notDemand kind addr =>
    s!"{kind.symbol} cannot be issued as an ordinary access @ {Text.hex addr}"

end Fault

/-- Why an operation did not succeed: an error that is reported, or a fault that stops the run. -/
inductive Stop (ε : Type)
  | error (e : ε)
  | fault (f : Fault)
  deriving Repr

end CacheHierarchy
