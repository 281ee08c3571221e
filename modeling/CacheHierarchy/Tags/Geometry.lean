import CacheHierarchy.Word

/-!
# Geometry of a cache

Memory is cut into lines of `lineSize` bytes. A cache has `numSets` sets of `assoc` ways each; line
number `n` may be held by set `n % numSets` only, under the tag `n / numSets`. None of the three
dimensions need be a power of two.

An address is split into tag and set by two separate divisions, and `lineBase` puts it together
again. The divisor of the tag, the bytes that one way of all sets covers, has to fit in a word;
where it does not, asking for a tag is a fault.
-/

namespace CacheHierarchy

structure Geometry where
  numSets : Nat
  assoc : Nat
  lineSize : Nat
  numSets_pos : 0 < numSets
  assoc_pos : 0 < assoc
  lineSize_pos : 0 < lineSize
  deriving DecidableEq, Repr

namespace Geometry

/-- The geometry with these dimensions; the first one that is zero is a fault of the named
array. -/
def ofDimensions (name : String) (numSets assoc lineSize : Nat) : Except Fault Geometry :=
  if hs : numSets = 0 then .error (.zeroDimension name "num_sets")
  else if ha : assoc = 0 then .error (.zeroDimension name "assoc")
  else if hl : lineSize = 0 then .error (.zeroDimension name "line_size")
  else .ok ⟨numSets, assoc, lineSize, Nat.pos_of_ne_zero hs, Nat.pos_of_ne_zero ha,
    Nat.pos_of_ne_zero hl⟩

def lineOf (g : Geometry) (addr : Nat) : Nat := addr / g.lineSize

def setOf (g : Geometry) (addr : Nat) : Fin g.numSets :=
  ⟨addr / g.lineSize % g.numSets, Nat.mod_lt _ g.numSets_pos⟩

/-- The tag under which a set holds the line of an address. -/
def tagOf (g : Geometry) (addr : Nat) : Except Fault Nat := do
  let span ← Word.mul g.numSets g.lineSize
  return addr / span

/-- The first address of the line that a set holds under a tag. -/
def lineBase (g : Geometry) (tag set : Nat) : Except Fault Nat := do
  let above ← Word.mul tag g.numSets
  let line ← Word.add above set
  Word.mul line g.lineSize

/-- Where the bytes of one way of all sets fit in a word, every address has a tag. -/
theorem tagOf_eq_ok {g : Geometry} (h : g.numSets * g.lineSize < wordLimit) (addr : Nat) :
    g.tagOf addr = .ok (addr / (g.numSets * g.lineSize)) := by
  simp [tagOf, Word.mul, h, bind, Except.bind, pure, Except.pure]

theorem val_setOf (g : Geometry) (addr : Nat) :
    (g.setOf addr).val = g.lineOf addr % g.numSets := rfl

end Geometry

end CacheHierarchy
