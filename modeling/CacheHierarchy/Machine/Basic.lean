import CacheHierarchy.Machine.Cache
import CacheHierarchy.Machine.Journal
import CacheHierarchy.Machine.Memory
import CacheHierarchy.Outstanding

/-!
# The machine

A machine is a row of caches, main memory, and what they share: the table of outstanding accesses,
the requests that are finished, the next request number and the journal. How the caches are wired
is up to each cache's `above` and `below`, by position in the row.

An `Action` changes a machine and may stop with a fault; the machine as it stood at the fault, with
its journal, is kept.
-/

namespace CacheHierarchy

structure Machine where
  caches : List Cache
  memory : Memory
  outstanding : Outstanding := {}
  /-- Requests that are finished and not yet collected, oldest first. -/
  finished : List Request := []
  nextId : Nat := 0
  /-- What happened, newest first. -/
  journal : List Event := []

/-- A change of a machine that may stop with a fault. -/
abbrev Action := EStateM Fault Machine

/-- A result that may be a fault, as a step that changes nothing. -/
def attempt {σ α : Type} : Except Fault α → EStateM Fault σ α
  | .ok a => pure a
  | .error fault => throw fault

namespace Machine

def names (m : Machine) : Names :=
  { caches := m.caches.map Cache.name, memory := m.memory.name }

/-- The log of the entries of the journal that have a wording, oldest first. -/
def log (m : Machine) : List LogEntry := m.journal.reverse.filterMap (Event.logEntry? m.names)

def record (event : Event) : Action Unit :=
  modify fun m => { m with journal := event :: m.journal }

def cacheAt (i : Nat) : Action Cache := do
  let m ← get
  match m.caches[i]? with
  | some c => return c
  | none => throw (.outOfRange m.caches.length i)

def setCache (i : Nat) (c : Cache) : Action Unit :=
  modify fun m => { m with caches := m.caches.set i c }

/-- The cache at position `j` as cache `i` sees it: itself is no neighbour of its own, and a
position past the end is counted from the cache behind `i` on. -/
def neighbour? (m : Machine) (i j : Nat) : Except Fault Cache :=
  if j = i then .error (.ownNeighbour j)
  else match m.caches[j]? with
    | some c => .ok c
    | none => .error (.outOfRange (m.caches.length - i - 1) (j - i - 1))

def neighbour (i j : Nat) : Action Cache := do
  attempt ((← get).neighbour? i j)

/-- A request number that was not given out before. -/
def freshId : Action Nat := do
  let m ← get
  let nextId ← attempt (Word.add m.nextId 1)
  set { m with nextId }
  return m.nextId

/-- A request is done; the core will collect it. -/
def finish (r : Request) : Action Unit :=
  modify fun m => { m with finished := m.finished ++ [r.finish] }

def sendToMemory (r : Request) : Action Unit := do
  let m ← get
  let readyAt ← attempt m.memory.arrival
  let r := { r with readyAt }
  set { m with memory := { m.memory with queue := m.memory.queue.push r } }
  record (.accepted r)

def announceToMemory (note : WriteBackNote) : Action Unit :=
  modify fun m => { m with memory := m.memory.announce note }

/-- Cache `i` hands a request to cache `j` to be looked up. -/
def handDown (i j : Nat) (r : Request) : Action Unit := do
  let c ← neighbour i j
  setCache j (← attempt (c.acceptLookup r))

/-- Cache `i` hands a request to cache `j` to be filled in. -/
def handFill (i j : Nat) (r : Request) : Action Unit := do
  let c ← neighbour i j
  setCache j (← attempt (c.acceptFill r))

/-- A write-back that goes to memory at once, past every queue on the way. -/
def writeStraightBack (addr cycle : Nat) : Action Unit := do
  let r := Request.ofWriteBack (← freshId) addr cycle
  announceToMemory r.note
  sendToMemory r

end Machine

end CacheHierarchy
