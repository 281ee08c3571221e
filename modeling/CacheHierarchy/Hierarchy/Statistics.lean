import CacheHierarchy.Hierarchy.Basic
import CacheHierarchy.Json
import CacheHierarchy.Tags.Report

/-!
# Statistics of a hierarchy

What each cache and memory counted, the sum over the caches that the core talks to, and the same as
JSON or as reports.
-/

namespace CacheHierarchy

def Counters.toJson (c : Counters) : Json :=
  .obj [("accesses", .nat c.accesses), ("hits", .nat c.hits), ("misses", .nat c.misses),
    ("writes", .nat c.writes), ("writebacks", .nat c.writeBacks),
    ("back_invalidations", .nat c.backInvalidations),
    ("back_invalidation_writebacks", .nat c.dirtyBackInvalidations)]

/-- What a hierarchy counted so far. -/
structure HierarchyStatistics where
  topology : Topology
  cycles : Nat
  levels : List (String × Counters)
  /-- The sum over the first-level caches. -/
  topLevel : Counters
  memoryReads : Nat
  memoryWriteBacks : Nat
  deriving DecidableEq, Repr, Inhabited

def HierarchyStatistics.toJson (s : HierarchyStatistics) : Json :=
  .obj [("topology", .str s.topology.word), ("cycles", .nat s.cycles),
    ("levels", .arr (s.levels.map fun (name, counters) =>
      .obj [("name", .str name), ("stats", counters.toJson)])),
    ("top_level", s.topLevel.toJson),
    ("memory", .obj [("reads", .nat s.memoryReads), ("writebacks", .nat s.memoryWriteBacks)])]

namespace Hierarchy

def statistics (h : Hierarchy) : HierarchyStatistics where
  topology := h.topology
  cycles := h.cycle
  levels := h.machine.caches.map fun c => (c.name, c.tags.counters)
  topLevel := (h.machine.caches.filter Cache.isTop).foldl (fun sum c => sum + c.tags.counters) {}
  memoryReads := h.machine.memory.reads
  memoryWriteBacks := h.machine.memory.writeBacks

def report (h : Hierarchy) : String :=
  "\n".intercalate (h.machine.caches.map fun c => c.tags.report)

def dump (h : Hierarchy) : String := String.join (h.machine.caches.map fun c => c.tags.dump)

end Hierarchy

end CacheHierarchy
