import CacheHierarchy.Machine.Basic

/-!
# What follows an eviction

A cache that displaces a dirty line makes a write-back of it and announces it below. A lower level
that displaces a line has more to repair, for no cache above may hold a line that it does not hold:

* write-backs of the line from above can no longer be taken in here, so those that have not
  arrived are passed on to memory (`divertWriteBacks`);
* a cache above that holds the line drops it, and a dirty copy goes straight to memory
  (`backInvalidate`);
* a cache above that only has a fill for the line in its queue is to complete it without
  installing the line.
-/

namespace CacheHierarchy.Machine

/-- Cache `i` announces a write-back to the level below. -/
def announceBelow (i : Nat) (below : Below) (note : WriteBackNote) : Action Unit :=
  match below with
  | .memory => announceToMemory note
  | .cache j => do
    let d ← neighbour i j
    setCache j { d with expected := d.expected.announce note }

/-- Cache `i` makes a write-back of a line that it displaced. -/
def writeBack (i addr : Nat) : Action Unit := do
  let id ← freshId
  let c ← cacheAt i
  let r := Request.ofWriteBack id addr c.cycle
  announceBelow i c.below r.note
  record (.wroteBack i r c.cycle)
  setCache i { c with writeBacks := c.writeBacks.push r }

/-- The caches above give up the write-backs of a line that have not left them. -/
def recallFrom (i lineSize line : Nat) : List (Side × Nat) → Action (List Request)
  | [] => return []
  | (_, j) :: rest => do
    let (recalled, d) := (← neighbour i j).recallWriteBacks lineSize line
    setCache j d
    return recalled ++ (← recallFrom i lineSize line rest)

/-- Cache `i` passes a write-back that it expected on to memory. -/
def divertWriteBack (i : Nat) (r : Request) : Action Unit := do
  let c ← cacheAt i
  match c.expected.settle? r.id with
  | none => throw (.unexpectedWriteBack c.name r.id r.addr)
  | some (note, expected) =>
    setCache i { c with tags := c.tags.countDiverted, expected }
    record (.diverted i r c.cycle)
    announceToMemory note
    sendToMemory r

/-- The write-backs of a line that cache `i` displaced and that have not been taken in, in its own
queue and above, are passed on to memory. -/
def divertWriteBacks (i addr : Nat) : Action Unit := do
  let c ← cacheAt i
  let lineSize := c.tags.geometry.lineSize
  let line := c.tags.geometry.lineOf addr
  let (arrived, fills) := c.fills.takeWhere (Cache.isWriteBackOf lineSize line)
  setCache i { c with fills }
  let recalled ← recallFrom i lineSize line c.above.neighbours
  (arrived ++ recalled).forM (divertWriteBack i)

/-- Cache `j` drops a line that it holds because the level below displaced it. A dirty copy goes
straight to memory; the instruction side never has one. -/
def backInvalidate (j addr : Nat) (side : Side) (line : Line) : Action Unit := do
  let c ← cacheAt j
  if line.dirty && side == .instruction then
    throw (.dirtyInstructionCopy c.name addr)
  let (dirty, tags) ← attempt (c.tags.backInvalidate addr)
  setCache j { c with tags }
  record (.backInvalidated j addr dirty c.cycle)
  if dirty then writeStraightBack addr c.cycle

/-- Cache `j` above cache `i` gives up a line that cache `i` displaced: a copy is dropped, and
fills that are queued for it are to install nothing. -/
def withdrawFrom (i addr : Nat) : Side × Nat → Action Unit
  | (side, j) => do
    let d ← neighbour i j
    match ← attempt (d.tags.line? addr) with
    | some line => backInvalidate j addr side line
    | none =>
      if d.awaits addr then
        setCache j (d.bypassFills addr)
        record (.overtaken i addr j (← cacheAt i).cycle)

/-- Every cache above cache `i` gives up a line that cache `i` displaced. -/
def withdrawAbove (i addr : Nat) : Action Unit := do
  (← cacheAt i).above.neighbours.forM (withdrawFrom i addr)

end CacheHierarchy.Machine
