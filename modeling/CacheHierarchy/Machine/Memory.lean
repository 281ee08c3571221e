import CacheHierarchy.Request
import CacheHierarchy.Word
import CacheHierarchy.WriteBackLedger

/-!
# Main memory

Memory answers every request after a fixed latency. A demand request goes back up as a fill, or
is done if the core itself sent it; a write-back ends here.
-/

namespace CacheHierarchy

structure Memory where
  name : String
  latency : Nat
  /-- The cache that reads go back to; none if that is the core. -/
  above : Option Nat
  cycle : Nat := 0
  queue : GatedQueue Request := {}
  /-- Write-backs announced from above. -/
  expected : WriteBackLedger := {}
  reads : Nat := 0
  writeBacks : Nat := 0

namespace Memory

/-- The cycle from which a request that arrives now is ready. -/
def arrival (m : Memory) : Except Fault Nat := Word.add m.cycle m.latency

/-- The head of the queue if it is ready, and memory without it. -/
def take? (m : Memory) : Option (Request × Memory) :=
  (m.queue.popReady? m.cycle).map fun (r, queue) => (r, { m with queue })

def announce (m : Memory) (note : WriteBackNote) : Memory :=
  { m with expected := m.expected.announce note }

end Memory

end CacheHierarchy
