import CacheHierarchy.Decimal.Places
import CacheHierarchy.Simulation.Basic

/-!
# Summary of a simulation

What a simulation counted over all its runs, with the statistics of its hierarchy, as JSON and as
the closing lines of a report.
-/

namespace CacheHierarchy

structure SimulationSummary where
  cycles : Nat
  issued : Nat
  completed : Nat
  misses : Nat
  /-- Cycles from issue to completion, on average. -/
  averageLatency : Float
  hierarchy : HierarchyStatistics
  deriving Inhabited

namespace Simulation

/-- The average latency of the completions so far, zero before the first. -/
def averageLatency (s : Simulation) : Float :=
  if s.completed = 0 then 0.0
  else s.totalLatency.toUInt64.toFloat / s.completed.toUInt64.toFloat

def summary (s : Simulation) : SimulationSummary where
  cycles := s.hierarchy.cycle
  issued := s.issued
  completed := s.completed
  misses := s.misses
  averageLatency := s.averageLatency
  hierarchy := s.hierarchy.statistics

end Simulation

namespace SimulationSummary

def toJson (s : SimulationSummary) : Json :=
  .obj [("cycles", .nat s.cycles), ("issued", .nat s.issued), ("completed", .nat s.completed),
    ("misses", .nat s.misses), ("avg_latency", .float s.averageLatency),
    ("hierarchy", s.hierarchy.toJson)]

/-- The closing lines of a report: what memory serviced, and the totals. -/
def closing (s : SimulationSummary) (memory : String) : String :=
  headingRule ++ "\n" ++
    s!"{memory} reads serviced: {s.hierarchy.memoryReads}\n" ++
    s!"{memory} writebacks serviced: {s.hierarchy.memoryWriteBacks}\n" ++
    s!"cycles: {s.cycles}, accesses: {s.issued}, completed: {s.completed}, " ++
    s!"misses: {s.misses}, avg latency: " ++ Decimal.withPlaces 2 s.averageLatency ++ "\n"

end SimulationSummary

end CacheHierarchy
