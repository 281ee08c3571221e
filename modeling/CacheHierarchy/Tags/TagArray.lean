import CacheHierarchy.Tags.Counters
import CacheHierarchy.Tags.Geometry
import CacheHierarchy.Tags.LineSet

/-!
# Tag arrays

The tag array of a cache knows which lines are resident, which of them are dirty, and in what order
they were used. It holds no data and knows nothing of time.

A *look-up* asks for a line and counts as a use of it. A *fill* installs a line that is not
resident, displacing the least recently used line of a full set; a write-back instead arrives as a
fill for a line that is resident, makes it dirty, and is no use of it. An operation outside this
contract is a fault. `byRecency` shows all sets by recency alone.
-/

namespace CacheHierarchy

/-- A line that a fill displaced. -/
structure Eviction where
  addr : Nat
  dirty : Bool
  deriving DecidableEq, Repr, Inhabited

structure TagArray where
  name : String
  geometry : Geometry
  sets : Vector LineSet geometry.numSets
  counters : Counters := {}
  /-- The line that the latest fill displaced. -/
  lastEviction : Option Eviction := none

/-- Where an address belongs in a tag array: its set, its tag, and the way if it is resident. -/
structure Place (numSets : Nat) where
  set : Fin numSets
  tag : Nat
  way? : Option Nat

namespace TagArray

def empty (name : String) (geometry : Geometry) : TagArray :=
  { name, geometry, sets := Vector.replicate geometry.numSets (LineSet.empty geometry.assoc) }

def ofDimensions (name : String) (numSets assoc lineSize : Nat) : Except Fault TagArray :=
  (Geometry.ofDimensions name numSets assoc lineSize).map (empty name)

def setAt (t : TagArray) (i : Fin t.geometry.numSets) : LineSet := t.sets[i]

def locate (t : TagArray) (addr : Nat) : Except Fault (Place t.geometry.numSets) :=
  (t.geometry.tagOf addr).map fun tag =>
    let set := t.geometry.setOf addr
    { set, tag, way? := (t.setAt set).find? tag }

def replaceSet (t : TagArray) (i : Fin t.geometry.numSets) (s : LineSet) : TagArray :=
  { t with sets := t.sets.set i.val s i.isLt }

def contains (t : TagArray) (addr : Nat) : Except Fault Bool :=
  (t.locate addr).map fun place => place.way?.isSome

def line? (t : TagArray) (addr : Nat) : Except Fault (Option Line) :=
  (t.locate addr).map fun place => place.way?.bind (t.setAt place.set).line?

/-- A demand look-up: whether the line is resident. A hit is a use of the line, and a write makes
it dirty. -/
def lookupDemand (t : TagArray) (addr : Nat) (kind : AccessKind) :
    Except Fault (Bool × TagArray) :=
  (t.locate addr).map fun place =>
    let counters := t.counters.countLookup place.way?.isSome kind.isWrite
    match place.way? with
    | some way =>
      let s := t.setAt place.set
      let s := if kind.isWrite then s.soil way else s
      (true, { t.replaceSet place.set (s.touch way) with counters })
    | none => (false, { t with counters })

/-- Looks a line up and says whether it is resident. A check changes nothing; a write-back is not
a look-up. -/
def lookup (t : TagArray) (addr : Nat) : AccessKind → Except Fault (Bool × TagArray)
  | .check => (t.contains addr).map fun hit => (hit, t)
  | .writeBack => .error (.writeBackAsLookup t.name addr)
  | kind => t.lookupDemand addr kind

/-- A write-back from above makes its line dirty. The line has to be resident. -/
def absorb (t : TagArray) (addr : Nat) : Except Fault TagArray := do
  let place ← t.locate addr
  match place.way? with
  | some way =>
    return { t.replaceSet place.set ((t.setAt place.set).soil way) with lastEviction := none }
  | none => throw (.writeBackMissed t.name addr)

/-- The line in a way as the eviction that displacing it amounts to. -/
def evictionOf (t : TagArray) (set : Fin t.geometry.numSets) (way : Nat) :
    Except Fault (Option Eviction) :=
  match (t.setAt set).line? way with
  | some line =>
    (t.geometry.lineBase line.tag set).map fun addr => some { addr, dirty := line.dirty }
  | none => .ok none

/-- Installs a line that is not resident, dirty if the access is a write, as the most recently used
of its set. A dirty line that it displaces is counted as a write-back. -/
def install (t : TagArray) (addr : Nat) (kind : AccessKind) : Except Fault TagArray := do
  let place ← t.locate addr
  match place.way? with
  | some _ => throw (.alreadyResident t.name kind addr)
  | none =>
    let s := t.setAt place.set
    let eviction? ← t.evictionOf place.set s.victim
    let counters :=
      if eviction?.any Eviction.dirty then t.counters.countWriteBack else t.counters
    let s := s.install s.victim { tag := place.tag, dirty := kind.isWrite }
    return { t.replaceSet place.set s with counters, lastEviction := eviction? }

/-- Fills the line of an address: a write-back is absorbed, a demand access installs its line. Says
whether the line was resident before. -/
def fill (t : TagArray) (addr : Nat) : AccessKind → Except Fault (Bool × TagArray)
  | .check => .error (.checkAsFill t.name addr)
  | .writeBack => (t.absorb addr).map fun t => (true, t)
  | kind => (t.install addr kind).map fun t => (false, t)

/-- Drops the line of an address, which has to be resident, and returns it. -/
def invalidate (t : TagArray) (addr : Nat) : Except Fault (Line × TagArray) := do
  let place ← t.locate addr
  match place.way? with
  | some way =>
    let s := t.setAt place.set
    return ((s.line? way).getD default, t.replaceSet place.set (s.drop way))
  | none => throw (.dropMissed t.name addr)

/-- Drops a line on behalf of the level below, and says whether it was dirty. -/
def backInvalidate (t : TagArray) (addr : Nat) : Except Fault (Bool × TagArray) :=
  (t.invalidate addr).map fun (line, t) =>
    (line.dirty, { t with counters := t.counters.countBackInvalidation line.dirty })

/-- Counts an access that was merged into an outstanding miss: it is serviced as a hit. -/
def countMerged (t : TagArray) (kind : AccessKind) : TagArray :=
  { t with counters := t.counters.countLookup true kind.isWrite }

/-- Counts a fill that was given up because the level below dropped its line in the meantime. It
stands for the back-invalidation of the line it would have installed. -/
def countBypassed (t : TagArray) (dirty : Bool) : TagArray :=
  { t with counters := t.counters.countBackInvalidation dirty }

/-- Counts a write-back from above that was passed on to memory. -/
def countDiverted (t : TagArray) : TagArray :=
  { t with counters := t.counters.countWriteBack }

/-- Every set by recency. -/
def byRecency (t : TagArray) : List (List Line) := t.sets.toList.map LineSet.stack

@[simp] theorem name_replaceSet (t : TagArray) (i : Fin t.geometry.numSets) (s : LineSet) :
    (t.replaceSet i s).name = t.name := rfl

@[simp] theorem geometry_replaceSet (t : TagArray) (i : Fin t.geometry.numSets) (s : LineSet) :
    (t.replaceSet i s).geometry = t.geometry := rfl

@[simp] theorem counters_replaceSet (t : TagArray) (i : Fin t.geometry.numSets) (s : LineSet) :
    (t.replaceSet i s).counters = t.counters := rfl

/-- A check changes nothing. -/
theorem lookup_check {t t' : TagArray} {addr : Nat} {hit : Bool}
    (h : t.lookup addr .check = .ok (hit, t')) : t' = t := by
  unfold lookup at h
  cases hc : t.contains addr with
  | error => simp [hc, Except.map] at h
  | ok b => simp only [hc, Except.map, Except.ok.injEq, Prod.mk.injEq] at h; exact h.2.symm

end TagArray

end CacheHierarchy
