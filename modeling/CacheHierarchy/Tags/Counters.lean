import CacheHierarchy.Word

/-!
# Counters of a cache

Seven counters record what happened at one cache. They only grow, and one that reaches the largest
word stays there.
-/

namespace CacheHierarchy

structure Counters where
  accesses : Nat := 0
  hits : Nat := 0
  misses : Nat := 0
  writes : Nat := 0
  /-- Dirty lines displaced by a fill, and write-backs from above that were passed on. -/
  writeBacks : Nat := 0
  /-- Lines dropped, or fills given up, because the level below dropped the line. -/
  backInvalidations : Nat := 0
  /-- Those of them that were dirty. -/
  dirtyBackInvalidations : Nat := 0
  deriving DecidableEq, Repr, Inhabited

namespace Counters

def countLookup (c : Counters) (hit isWrite : Bool) : Counters :=
  { c with
    accesses := Word.bump c.accesses
    hits := if hit then Word.bump c.hits else c.hits
    misses := if hit then c.misses else Word.bump c.misses
    writes := if isWrite then Word.bump c.writes else c.writes }

def countWriteBack (c : Counters) : Counters := { c with writeBacks := Word.bump c.writeBacks }

def countBackInvalidation (c : Counters) (dirty : Bool) : Counters :=
  { c with
    backInvalidations := Word.bump c.backInvalidations
    dirtyBackInvalidations :=
      if dirty then Word.bump c.dirtyBackInvalidations else c.dirtyBackInvalidations }

def add (c d : Counters) : Counters :=
  { accesses := Word.addCapped c.accesses d.accesses
    hits := Word.addCapped c.hits d.hits
    misses := Word.addCapped c.misses d.misses
    writes := Word.addCapped c.writes d.writes
    writeBacks := Word.addCapped c.writeBacks d.writeBacks
    backInvalidations := Word.addCapped c.backInvalidations d.backInvalidations
    dirtyBackInvalidations := Word.addCapped c.dirtyBackInvalidations d.dirtyBackInvalidations }

instance : Add Counters := ⟨add⟩

/-- Hits per hundred accesses, zero before the first access. -/
def hitRate (c : Counters) : Float :=
  if c.accesses = 0 then 0.0
  else c.hits.toUInt64.toFloat / c.accesses.toUInt64.toFloat * 100.0

def titled (c : Counters) : List (String × Nat) :=
  [("accesses", c.accesses), ("hits", c.hits), ("misses", c.misses), ("writes", c.writes),
    ("writebacks", c.writeBacks), ("back invalidations", c.backInvalidations),
    ("writebacks due to back invalidations", c.dirtyBackInvalidations)]

/-- One line per counter, without an end of line after the last. -/
def report (c : Counters) : String :=
  "\n".intercalate (c.titled.map fun (title, value) => s!"number of {title}: {value}")

end Counters

end CacheHierarchy
