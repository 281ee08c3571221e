import CacheHierarchy.Hierarchy.Statistics
import CacheHierarchy.Trace.Line

/-!
# Simulation

A simulation issues one access per cycle and then lets the hierarchy run until everything is done.
It keeps count of the completions and their latency over all its runs. A limit on the number of
cycles stops a run that takes too long; the simulation stays as it was then.
-/

namespace CacheHierarchy

/-- A run reached the limit of cycles with work left to do. -/
structure Timeout where
  limit : Nat
  inFlight : Nat
  queued : Nat
  writeBacksDone : Bool
  deriving DecidableEq, Repr, Inhabited

def Timeout.message (t : Timeout) : String :=
  s!"simulation timeout after {t.limit} cycles ({t.inFlight} requests in flight, " ++
    s!"{t.queued} queued, write-backs done: {t.writeBacksDone})"

/-- A hierarchy and what a simulation counts of it. -/
structure Simulation where
  hierarchy : Hierarchy
  timeout : Nat
  issued : Nat := 0
  completed : Nat := 0
  misses : Nat := 0
  totalLatency : Nat := 0

abbrev Simulation.Step := EStateM (Stop Timeout) Simulation

namespace Simulation

def ofConfig (config : HierarchyConfig) (timeout : Nat) : Except (Stop LevelError) Simulation :=
  (Hierarchy.ofConfig config).map fun hierarchy => { hierarchy, timeout }

def onHierarchy {α : Type} (step : Hierarchy.Step α) : Step α := fun s =>
  match step s.hierarchy with
  | .ok a hierarchy => .ok a { s with hierarchy }
  | .error fault hierarchy => .error (.fault fault) { s with hierarchy }

/-- A sum that may leave the word, as a step that changes nothing. -/
def sum (a b : Nat) : Step Nat := onHierarchy (attempt (Word.add a b))

def tally (c : Completion) : Step Unit := do
  let s ← get
  let completed ← sum s.completed 1
  let totalLatency ← sum s.totalLatency c.latency
  let misses ← if c.miss then sum s.misses 1 else pure s.misses
  modify fun s => { s with completed, totalLatency, misses }

/-- One cycle within the limit, and its completions. -/
def tick : Step Unit := do
  let s ← get
  let h := s.hierarchy
  if s.timeout ≤ h.cycle then
    throw (.error
      { limit := s.timeout, inFlight := h.inFlight, queued := h.queued
        writeBacksDone := h.isWriteBackDone })
  onHierarchy Hierarchy.runCycle
  let done := (← get).hierarchy.completions
  modify fun s => { s with hierarchy := { s.hierarchy with completions := [] } }
  done.forM tally

def issue (r : TraceRecord) : Step Unit := do
  onHierarchy (Hierarchy.access r.addr r.kind)
  let issued ← sum (← get).issued 1
  modify fun s => { s with issued }
  tick

/-- Cycles run until the hierarchy is idle, at most as many as the argument says. -/
def drain : Nat → Step Unit
  | 0 => return
  | n + 1 => do
    unless (← get).hierarchy.isIdle do
      tick
      drain n

/-- Cycles run until everything is done. The limit bounds their number: one cycle beyond it stops
the run. -/
def settle : Step Unit := do
  let s ← get
  drain (s.timeout - s.hierarchy.cycle + 1)
  let s ← get
  onHierarchy (Hierarchy.onMachine (Machine.record (.drained s.hierarchy.cycle s.issued)))

/-- The accesses are issued one per cycle, and then cycles run until everything is done. -/
def simulate (records : List TraceRecord) : Step Unit := do
  records.forM issue
  settle

end Simulation

end CacheHierarchy
