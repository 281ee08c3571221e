import CacheHierarchy.Request
import CacheHierarchy.Tags.TagArray
import CacheHierarchy.Topology
import CacheHierarchy.WriteBackLedger

/-!
# One cache level

A cache is a tag array with four queues and a clock of its own. Look-ups come from above and fills
from below, and both become ready once the cache's latency has passed. The send queue holds what
goes to the level below: misses, and the write-backs that the cache made itself. A new write-back
waits one cycle in a queue of its own, so that it leaves ahead of the misses of that cycle. The
ledger lists the write-backs that the level above has announced and that have not arrived.
-/

namespace CacheHierarchy

inductive Above
  | core
  | caches (ports : Ports)
  deriving DecidableEq, Repr, Inhabited

inductive Below
  | memory
  | cache (position : Nat)
  deriving DecidableEq, Repr, Inhabited

namespace Above

/-- The cache above that a request of this kind goes up to. -/
def portFor? (above : Above) (kind : AccessKind) : Option Nat :=
  match above with
  | core => none
  | caches ports => some (ports.on kind.side)

/-- The distinct caches above, the data side first. -/
def neighbours : Above → List (Side × Nat)
  | core => []
  | caches ports => ports.distinct

end Above

structure Cache where
  tags : TagArray
  latency : Nat
  above : Above
  below : Below
  /-- The side it is restricted to, where the level is split. -/
  side : Option Side := none
  cycle : Nat := 0
  /-- Accesses from above that wait to be looked up. -/
  lookups : GatedQueue Request := {}
  /-- Lines from below, and write-backs from above, that wait to be filled in. -/
  fills : GatedQueue Request := {}
  sends : GatedQueue Request := {}
  writeBacks : GatedQueue Request := {}
  /-- Write-backs announced from above. -/
  expected : WriteBackLedger := {}

namespace Cache

def name (c : Cache) : String := c.tags.name

def isTop (c : Cache) : Bool := c.above == .core

def queued (c : Cache) : Nat :=
  c.lookups.length + c.sends.length + c.fills.length + c.writeBacks.length

/-- The cycle from which a request that arrives now is ready. -/
def arrival (c : Cache) : Except Fault Nat := Word.add c.cycle c.latency

def acceptLookup (c : Cache) (r : Request) : Except Fault Cache :=
  c.arrival.map fun readyAt => { c with lookups := c.lookups.push { r with readyAt } }

def acceptFill (c : Cache) (r : Request) : Except Fault Cache :=
  c.arrival.map fun readyAt => { c with fills := c.fills.push { r with readyAt } }

/-- The head of the fill queue if it is ready, and the cache without it. -/
def takeFill? (c : Cache) : Option (Request × Cache) :=
  (c.fills.popReady? c.cycle).map fun (r, fills) => (r, { c with fills })

/-- The head of the send queue if it is ready, and the cache without it. -/
def takeSend? (c : Cache) : Option (Request × Cache) :=
  (c.sends.popReady? c.cycle).map fun (r, sends) => (r, { c with sends })

/-- The head of the look-up queue if it is ready, and the cache without it. -/
def takeLookup? (c : Cache) : Option (Request × Cache) :=
  (c.lookups.popReady? c.cycle).map fun (r, lookups) => (r, { c with lookups })

/-- A request is a write-back of the line with this number, in lines of `lineSize` bytes. -/
def isWriteBackOf (lineSize line : Nat) (r : Request) : Bool :=
  r.kind.isWriteBack && r.isOnLine lineSize line

/-- Gives up the write-backs of a line that have not left the cache, those made in this cycle
first. -/
def recallWriteBacks (c : Cache) (lineSize line : Nat) : List Request × Cache :=
  let (made, writeBacks) := c.writeBacks.takeWhere (isWriteBackOf lineSize line)
  let (queued, sends) := c.sends.takeWhere (isWriteBackOf lineSize line)
  (made ++ queued, { c with writeBacks, sends })

/-- A queued fill that would install the line of an address. -/
def wouldInstall (c : Cache) (addr : Nat) (r : Request) : Bool :=
  !r.kind.isWriteBack &&
    r.isOnLine c.tags.geometry.lineSize (c.tags.geometry.lineOf addr)

/-- A fill for the line of an address is queued. -/
def awaits (c : Cache) (addr : Nat) : Bool := c.fills.items.any (c.wouldInstall addr)

/-- Every queued fill for the line of an address is to complete without installing it. -/
def bypassFills (c : Cache) (addr : Nat) : Cache :=
  { c with fills := c.fills.map fun r =>
      if c.wouldInstall addr r then { r with bypass := true } else r }

end Cache

end CacheHierarchy
