import CacheHierarchy.Access

/-!
# Topologies

A hierarchy has one of four fixed shapes, from main memory alone to two levels with separate
first-level caches for instructions and data. A shape is named by a word or by its number.

A level that feeds caches above it addresses them by side: `Ports` names the cache on each side,
which is the same one where the level above is not split.
-/

namespace CacheHierarchy

inductive Topology
  | dramOnly
  | singleLevel
  | multiLevel
  | splitL1
  deriving DecidableEq, Repr, Inhabited

/-- The positions of the caches that serve the two sides. -/
structure Ports where
  instruction : Nat
  data : Nat
  deriving DecidableEq, Repr, Inhabited

namespace Ports

def both (cache : Nat) : Ports := { instruction := cache, data := cache }

def on (p : Ports) : Side → Nat
  | .instruction => p.instruction
  | .data => p.data

/-- The distinct caches, the one on the data side first. -/
def distinct (p : Ports) : List (Side × Nat) :=
  (.data, p.data) :: if p.instruction = p.data then [] else [(.instruction, p.instruction)]

end Ports

namespace Topology

def all : List Topology := [dramOnly, singleLevel, multiLevel, splitL1]

/-- The word for a shape in settings and statistics. -/
def word : Topology → String
  | dramOnly => "dram_only"
  | singleLevel => "single_level"
  | multiLevel => "multi_level"
  | splitL1 => "split_l1"

def number : Topology → String
  | dramOnly => "0"
  | singleLevel => "1"
  | multiLevel => "2"
  | splitL1 => "3"

/-- The title of a shape in the journal. -/
def title : Topology → String
  | dramOnly => "DramOnly"
  | singleLevel => "SingleLevel"
  | multiLevel => "MultiLevel"
  | splitL1 => "SplitL1"

def ofWord? (word : String) : Option Topology := all.find? fun t => t.word == word

/-- The shape that a word or a number names. -/
def ofName? (name : String) : Option Topology :=
  all.find? fun t => t.word == name || t.number == name

/-- What is said of a text that names no shape. -/
def unknownName (name : String) : String :=
  "unsupported hierarchy '" ++ name ++ "', expected one of: " ++
    ", ".intercalate (all.map Topology.word)

/-- The caches that the core's accesses enter, by side; none if they go to memory. -/
def entry? : Topology → Option Ports
  | dramOnly => none
  | singleLevel => some (.both 0)
  | multiLevel => some (.both 0)
  | splitL1 => some { instruction := 0, data := 1 }

end Topology

end CacheHierarchy
