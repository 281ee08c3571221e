import CacheHierarchy.Tags.TagArray
import CacheHierarchy.Topology

/-!
# Configuration of a hierarchy

Each cache level has a size, an associativity, a line size and a latency. A level is well formed if
the first three are positive and the bytes of one set divide the size. Only the levels that a
topology uses are looked at.
-/

namespace CacheHierarchy

structure LevelConfig where
  size : Nat := 32768
  assoc : Nat := 8
  lineSize : Nat := 64
  latency : Nat := 5
  deriving DecidableEq, Repr, Inhabited

inductive LevelError
  | zeroDimension (level dimension : String)
  | unevenSize (level : String) (size setBytes : Nat)
  deriving DecidableEq, Repr, Inhabited

def LevelError.message : LevelError → String
  | zeroDimension level dimension => s!"{level}: {dimension} must be > 0"
  | unevenSize level size setBytes =>
    s!"{level}: size {size} is not a multiple of assoc*line_size ({setBytes})"

namespace LevelConfig

def numSets (c : LevelConfig) : Except Fault Nat := do
  let setBytes ← Word.mul c.assoc c.lineSize
  Word.div c.size setBytes

/-- The level is well formed, or the first thing that is wrong with it. -/
def validate (c : LevelConfig) (level : String) : Except (Stop LevelError) Unit :=
  if c.size = 0 then .error (.error (.zeroDimension level "size"))
  else if c.assoc = 0 then .error (.error (.zeroDimension level "assoc"))
  else if c.lineSize = 0 then .error (.error (.zeroDimension level "line_size"))
  else match Word.mul c.assoc c.lineSize with
    | .error fault => .error (.fault fault)
    | .ok setBytes =>
      if c.size % setBytes ≠ 0 ∨ c.size < setBytes then
        .error (.error (.unevenSize level c.size setBytes))
      else .ok ()

def tagArray (c : LevelConfig) (name : String) : Except Fault TagArray := do
  TagArray.ofDimensions name (← c.numSets) c.assoc c.lineSize

end LevelConfig

structure HierarchyConfig where
  topology : Topology := .multiLevel
  l1d : LevelConfig := {}
  l1i : LevelConfig := {}
  l2 : LevelConfig := {}
  memoryLatency : Nat := 100
  deriving DecidableEq, Repr, Inhabited

namespace HierarchyConfig

/-- The levels that the topology uses, in the order in which they are looked at. -/
def levels (c : HierarchyConfig) : List (String × LevelConfig) :=
  match c.topology with
  | .dramOnly => []
  | .singleLevel => [("l1d", c.l1d)]
  | .multiLevel => [("l1d", c.l1d), ("l2", c.l2)]
  | .splitL1 => [("l1i", c.l1i), ("l1d", c.l1d), ("l2", c.l2)]

/-- Every level in use is well formed, or the first thing that is wrong. -/
def validate (c : HierarchyConfig) : Except (Stop LevelError) Unit :=
  c.levels.forM fun (level, config) => config.validate level

end HierarchyConfig

end CacheHierarchy
