import CacheHierarchy.Machine.Eviction

/-!
# One cycle of a machine

In each cycle the caches run one after the other, each through four stages, and memory runs last.

1. *Release*: the write-backs made in the last cycle join the send queue, ahead of this cycle's
   misses.
2. *Fill*: ready fills are filled in.
3. *Send*: ready requests leave for the level below.
4. *Look up*: ready look-ups hit and are answered, or miss and join the send queue.

A component's clock advances at the end of its turn, so what one component hands to a later one in
the same cycle finds that component's clock still at the cycle's number.
-/

namespace CacheHierarchy.Machine

/-- Cache `i` hands a request to the cache above that its kind belongs to. -/
def sendUp (i : Nat) (ports : Ports) (r : Request) : Action Unit := do
  let target := ports.on r.kind.side
  handFill i target r
  record (.sentUp i target r (← cacheAt i).cycle)

/-- Release: the write-backs of the last cycle join the send queue. -/
def releaseStage (i : Nat) : Action Unit := do
  let c ← cacheAt i
  setCache i { c with sends := c.sends.append c.writeBacks.items, writeBacks := {} }

/-- A write-back from above makes its line dirty. -/
def absorb (i : Nat) (r : Request) : Action Unit := do
  let c ← cacheAt i
  if c.isTop then throw (.writeBackAtTop c.name r.id r.addr)
  let tags ← attempt (c.tags.absorb r.addr)
  match c.expected.settle? r.id with
  | none => throw (.unexpectedWriteBack c.name r.id r.addr)
  | some (_, expected) =>
    setCache i { c with tags, expected }
    record (.absorbed (.cache i) r c.cycle)

/-- A first-level fill whose line the level below has displaced: nothing is installed. A write
still owes memory its data. -/
def fillBypassed (i : Nat) (r : Request) (kind : AccessKind) : Action Unit := do
  let c ← cacheAt i
  setCache i { c with tags := c.tags.countBypassed kind.isWrite }
  record (.bypassed i r kind c.cycle)
  if kind.isWrite then
    writeStraightBack (c.tags.geometry.lineOf r.addr * c.tags.geometry.lineSize) c.cycle
  finish r

/-- A first-level fill installs its line, and a dirty line that it displaces is written back. -/
def fillInstalled (i : Nat) (r : Request) (kind : AccessKind) : Action Unit := do
  let c ← cacheAt i
  let (_, tags) ← attempt (c.tags.fill r.addr kind)
  setCache i { c with tags }
  record (.filled i r kind c.cycle)
  if let some evicted := tags.lastEviction then
    record (.evicted i evicted.addr evicted.dirty c.cycle)
    if evicted.dirty then
      if c.side == some .instruction then
        throw (.dirtyInstructionVictim c.name evicted.addr)
      writeBack i evicted.addr
  finish r

/-- A fill of a first-level cache completes its request, as a write if a write was merged into
it. -/
def fillTop (i : Nat) (r : Request) : Action Unit := do
  let kind := ((← get).outstanding.kindOf? r.id).getD r.kind
  if r.bypass then fillBypassed i r kind else fillInstalled i r kind

/-- A fill of a lower level goes up at once and installs its line, unless both sides of a split
level missed on it and the line is there already. -/
def fillBelow (i : Nat) (ports : Ports) (r : Request) : Action Unit := do
  sendUp i ports r
  let c ← cacheAt i
  if ← attempt (c.tags.contains r.addr) then
    record (.forwardedOnly i r.addr c.cycle)
  else
    let (_, tags) ← attempt (c.tags.fill r.addr r.kind.belowFirstLevel)
    setCache i { c with tags }
    record (.installed i r c.cycle)
    if let some evicted := tags.lastEviction then
      record (.evicted i evicted.addr evicted.dirty c.cycle)
      if evicted.dirty then writeBack i evicted.addr
      divertWriteBacks i evicted.addr
      withdrawAbove i evicted.addr

def fillOne (i : Nat) (r : Request) : Action Unit := do
  if r.kind.isWriteBack then absorb i r
  else match (← cacheAt i).above with
    | .core => fillTop i r
    | .caches ports => fillBelow i ports r

/-- Ready requests leave one queue of cache `i`, which `take?` looks at, one by one and are dealt
with by `one`, at most as many as the last argument says. Dealing with one may take others out of
the queue, so the queue is looked at anew each time. -/
def drain (i : Nat) (take? : Cache → Option (Request × Cache)) (one : Request → Action Unit) :
    Nat → Action Unit
  | 0 => return
  | n + 1 => do
    match take? (← cacheAt i) with
    | none => return
    | some (r, c) =>
      setCache i c
      one r
      drain i take? one n

/-- Fill: every ready fill leaves the fill queue. Nothing joins the queue meanwhile, so its length
bounds their number. -/
def fillStage (i : Nat) : Action Unit := do
  drain i Cache.takeFill? (fillOne i) (← cacheAt i).fills.length

def sendOne (i : Nat) (r : Request) : Action Unit := do
  let c ← cacheAt i
  unless r.kind.isDemand || r.kind.isWriteBack do
    throw (.strayInSendQueue c.name r.kind r.id)
  record (.sentDown i r c.cycle)
  match c.below with
  | .memory => sendToMemory r
  | .cache j => if r.kind.isWriteBack then handFill i j r else handDown i j r

/-- Send: every ready request leaves the send queue, which nothing joins meanwhile. -/
def sendStage (i : Nat) : Action Unit := do
  drain i Cache.takeSend? (sendOne i) (← cacheAt i).sends.length

/-- A first-level look-up that finds neither its line nor a miss to join, or finds its line. -/
def lookUpTags (i : Nat) (r : Request) : Action Unit := do
  let c ← cacheAt i
  let (hit, tags) ← attempt (c.tags.lookup r.addr r.kind)
  record (.lookedUp i r hit c.cycle)
  if hit then
    setCache i { c with tags }
    finish r
  else
    let r := { r with isMiss := true }
    setCache i { c with tags, sends := c.sends.push r }
    modify fun m =>
      { m with outstanding := m.outstanding.markMiss r.id i (c.tags.geometry.lineOf r.addr) }

/-- A first-level look-up is answered if the line is resident, joins the outstanding miss on its
line if there is one, and is a miss of its own otherwise. -/
def lookUpTop (i : Nat) (r : Request) : Action Unit := do
  let c ← cacheAt i
  if ← attempt (c.tags.contains r.addr) then lookUpTags i r
  else match (← get).outstanding.merge? i (c.tags.geometry.lineOf r.addr) r.kind with
    | none => lookUpTags i r
    | some (into, outstanding) =>
      modify fun m => { m with outstanding }
      setCache i { c with tags := c.tags.countMerged r.kind }
      record (.merged i r into c.cycle)
      finish r

/-- A look-up at a lower level goes up if the line is resident, and down otherwise. -/
def lookUpBelow (i : Nat) (ports : Ports) (r : Request) : Action Unit := do
  let c ← cacheAt i
  let (hit, tags) ← attempt (c.tags.lookup r.addr r.kind.belowFirstLevel)
  record (.lookedUp i r hit c.cycle)
  if hit then
    setCache i { c with tags }
    sendUp i ports { r with dirty := false }
  else
    setCache i { c with tags, sends := c.sends.push r }

def lookUpOne (i : Nat) (r : Request) : Action Unit := do
  match (← cacheAt i).above with
  | .core => lookUpTop i r
  | .caches ports => lookUpBelow i ports r

/-- Look up: every ready look-up leaves the look-up queue, which nothing joins meanwhile. -/
def lookUpStage (i : Nat) : Action Unit := do
  drain i Cache.takeLookup? (lookUpOne i) (← cacheAt i).lookups.length

def advanceCache (i : Nat) : Action Unit := do
  let c ← cacheAt i
  setCache i { c with cycle := ← attempt (Word.add c.cycle 1) }

def runCache (i : Nat) : Action Unit := do
  releaseStage i
  fillStage i
  sendStage i
  lookUpStage i
  advanceCache i

def memoryAbsorb (r : Request) : Action Unit := do
  let m ← get
  match m.memory.expected.settle? r.id with
  | none => throw (.unexpectedWriteBack m.memory.name r.id r.addr)
  | some (_, expected) =>
    let writeBacks ← attempt (Word.add m.memory.writeBacks 1)
    set { m with memory := { m.memory with expected, writeBacks } }
    record (.absorbed .memory r m.memory.cycle)

def memoryRead (r : Request) : Action Unit := do
  let m ← get
  let reads ← attempt (Word.add m.memory.reads 1)
  set { m with memory := { m.memory with reads } }
  match m.memory.above with
  | none => finish r
  | some i => setCache i (← attempt ((← cacheAt i).acceptFill r))

def memoryOne (r : Request) : Action Unit :=
  if r.kind.isWriteBack then memoryAbsorb r else memoryRead r

/-- Ready requests leave memory's queue one by one, at most as many as the argument says. -/
def answerReady : Nat → Action Unit
  | 0 => return
  | n + 1 => do
    match (← get).memory.take? with
    | none => return
    | some (r, memory) =>
      modify fun m => { m with memory }
      memoryOne r
      answerReady n

def advanceMemory : Action Unit := do
  let m ← get
  let cycle ← attempt (Word.add m.memory.cycle 1)
  set { m with memory := { m.memory with cycle } }

/-- The turn of memory in a cycle. Nothing joins its queue meanwhile. -/
def runMemory : Action Unit := do
  answerReady (← get).memory.queue.length
  advanceMemory

/-- One cycle: every cache in the order of positions, then memory. -/
def runCycle : Action Unit := do
  (List.range (← get).caches.length).forM runCache
  runMemory

end CacheHierarchy.Machine
