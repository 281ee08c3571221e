import CacheHierarchy.Hierarchy.Config
import CacheHierarchy.Machine.Stages

/-!
# The memory hierarchy

A hierarchy is a machine wired into one of the topologies, with a clock of its own. The core issues
accesses at any time and learns of their completion at the end of a cycle. A hierarchy is idle once
nothing is outstanding and no write-back is expected anywhere.
-/

namespace CacheHierarchy

/-- Caches and memory in a fixed topology. -/
structure Hierarchy where
  topology : Topology
  machine : Machine
  cycle : Nat := 0
  /-- Completions that the core has not collected, oldest first. -/
  completions : List Completion := []
  completed : Nat := 0

abbrev Hierarchy.Step := EStateM Fault Hierarchy

namespace HierarchyConfig

def cache (level : LevelConfig) (name : String) (above : Above) (below : Below)
    (side : Option Side) : Except Fault Cache :=
  (level.tagArray name).map fun tags => { tags, latency := level.latency, above, below, side }

def caches (c : HierarchyConfig) : Except Fault (List Cache) :=
  match c.topology with
  | .dramOnly => return []
  | .singleLevel => return [← cache c.l1d "L1D" .core .memory none]
  | .multiLevel => return [
      ← cache c.l1d "L1U" .core (.cache 1) none,
      ← cache c.l2 "L2" (.caches (.both 0)) .memory none]
  | .splitL1 => return [
      ← cache c.l1i "L1I" .core (.cache 2) (some .instruction),
      ← cache c.l1d "L1D" .core (.cache 2) (some .data),
      ← cache c.l2 "L2" (.caches { instruction := 0, data := 1 }) .memory none]

/-- Main memory below the last cache, if there is one. -/
def memory (c : HierarchyConfig) : Memory where
  name := "DRAM"
  latency := c.memoryLatency
  above := match c.topology with
    | .dramOnly => none
    | .singleLevel => some 0
    | .multiLevel => some 1
    | .splitL1 => some 2

end HierarchyConfig

namespace Hierarchy

/-- Why a hierarchy could not be built, in words. -/
def buildError (e : LevelError) : List String := ["invalid hierarchy configuration", e.message]

/-- The hierarchy of a well-formed configuration. -/
def ofConfig (c : HierarchyConfig) : Except (Stop LevelError) Hierarchy := do
  c.validate
  match c.caches with
  | .error fault => throw (.fault fault)
  | .ok caches =>
    let machine : Machine := { caches, memory := c.memory, journal := [.assembled c.topology] }
    return { topology := c.topology, machine }

/-- An action of the machine inside. -/
def onMachine {α : Type} (action : Action α) : Step α := fun h =>
  match action h.machine with
  | .ok a machine => .ok a { h with machine }
  | .error fault machine => .error fault { h with machine }

/-- A request enters the cache on its side, or memory where there is no cache. -/
def enter (topology : Topology) (r : Request) : Action Unit :=
  match topology.entry? with
  | none => Machine.sendToMemory r
  | some ports => do
    let i := ports.on r.kind.side
    Machine.setCache i (← attempt ((← Machine.cacheAt i).acceptLookup r))

/-- The core issues an access, which has to be a demand access. -/
def access (addr : Nat) (kind : AccessKind) : Step Unit := do
  unless kind.isDemand do throw (.notDemand kind addr)
  let h ← get
  onMachine do
    let r := Request.ofAccess (← Machine.freshId) addr kind h.cycle
    Machine.record (.created r)
    let m ← get
    let outstanding ← attempt (m.outstanding.insert r.id addr kind)
    set { m with outstanding }
    enter h.topology r

def retire (r : Request) : Step Unit := do
  let h ← get
  match h.machine.outstanding.remove? r.id with
  | none => throw (.notOutstanding r.id)
  | some (_, outstanding) =>
    onMachine do
      modify fun m => { m with outstanding }
      Machine.record (.retired r h.cycle)
    let completed ← attempt (Word.add h.completed 1)
    modify fun h =>
      { h with completions := h.completions ++ [Completion.ofRequest r h.cycle], completed }

/-- Finished requests leave the hierarchy one by one in their order, at most as many as the argument
says. -/
def retireReady : Nat → Step Unit
  | 0 => return
  | n + 1 => do
    match (← get).machine.finished with
    | [] => return
    | r :: finished =>
      onMachine (modify fun m => { m with finished })
      retire r
      retireReady n

def retireFinished : Step Unit := do
  retireReady (← get).machine.finished.length

/-- One cycle: every component, top level first and memory last, then what finished leaves. -/
def runCycle : Step Unit := do
  onMachine Machine.runCycle
  retireFinished
  let h ← get
  let cycle ← attempt (Word.add h.cycle 1)
  set { h with cycle }

/-- The oldest completion that the core has not collected, and the hierarchy without it. -/
def popCompletion? (h : Hierarchy) : Option (Completion × Hierarchy) :=
  match h.completions with
  | [] => none
  | c :: rest => some (c, { h with completions := rest })

def inFlight (h : Hierarchy) : Nat := h.machine.outstanding.length

def queued (h : Hierarchy) : Nat :=
  (h.machine.caches.map Cache.queued).foldr (· + ·) h.machine.memory.queue.length

def isWriteBackDone (h : Hierarchy) : Bool :=
  h.machine.caches.all (fun c => c.expected.isEmpty) && h.machine.memory.expected.isEmpty

def isIdle (h : Hierarchy) : Bool := h.machine.outstanding.isEmpty && h.isWriteBackDone

def position? (h : Hierarchy) (name : String) : Option Nat :=
  h.machine.caches.findIdx? fun c => c.name == name

end Hierarchy

end CacheHierarchy
