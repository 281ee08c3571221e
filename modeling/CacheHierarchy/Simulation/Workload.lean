import CacheHierarchy.Simulation.Basic
import CacheHierarchy.Traffic

/-!
# Workloads

A simulation works on the records of a trace or on synthetic traffic. Traffic is made access by
access while the simulation runs, so a run that stops early makes no more of it than it needs.
-/

namespace CacheHierarchy

/-- The accesses that a simulation is to issue. -/
inductive Workload
  | recorded (records : List TraceRecord)
  | generated (config : TrafficConfig)
  deriving Inhabited

/-- The accesses of a workload, in their order. -/
def Workload.records : Workload → List TraceRecord
  | recorded records => records
  | generated config => Traffic.records config

namespace Simulation

/-- At most `n` accesses of a generator are made and issued. -/
def issueTraffic {σ : Type} [Random.Source σ] (t : Traffic σ) : Nat → Step Unit
  | 0 => return
  | n + 1 => do
    match ← onHierarchy (attempt t.next) with
    | none => return
    | some (record, t) =>
      issue record
      issueTraffic t n

/-- The accesses of a workload are issued one per cycle, and then cycles run until everything is
done. -/
def run : Workload → Step Unit
  | .recorded records => simulate records
  | .generated config => do
    issueTraffic (.ofConfig config) config.count
    settle

end Simulation

end CacheHierarchy
