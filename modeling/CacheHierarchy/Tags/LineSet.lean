/-!
# One set of a cache

A set has a fixed number of ways, each empty or holding one line. The ways in use are also listed
by recency, most recently used first. A line to install goes into the first empty way, or if there
is none into the way least recently used.

`stack` reads the lines in the order of recency. It is the list that a replacement policy by least
recent use is usually described with, and has no trace of which way holds which line.
-/

namespace CacheHierarchy

/-- A resident line: its tag, and whether it differs from the copy below. -/
structure Line where
  tag : Nat
  dirty : Bool
  deriving DecidableEq, Repr, Inhabited

structure LineSet where
  ways : List (Option Line)
  /-- The ways in use, most recently used first. -/
  recency : List Nat := []
  deriving DecidableEq, Repr, Inhabited

namespace LineSet

def empty (assoc : Nat) : LineSet := { ways := List.replicate assoc none }

/-- The way that holds the line with this tag. -/
def find? (s : LineSet) (tag : Nat) : Option Nat :=
  s.ways.findIdx? fun way => way.any fun line => line.tag == tag

def line? (s : LineSet) (way : Nat) : Option Line := s.ways[way]?.join

def size (s : LineSet) : Nat := s.ways.countP Option.isSome

/-- The way that the next line goes into: the first empty one, else the one least recently
used. -/
def victim (s : LineSet) : Nat :=
  match s.ways.findIdx? Option.isNone with
  | some way => way
  | none => s.recency.getLast?.getD 0

def touch (s : LineSet) (way : Nat) : LineSet :=
  { s with recency := way :: s.recency.erase way }

/-- The line in a way, if any, becomes dirty. Recency is left alone. -/
def soil (s : LineSet) (way : Nat) : LineSet :=
  { s with ways := s.ways.modify way (Option.map fun line => { line with dirty := true }) }

/-- A line goes into a way, which becomes the most recently used. -/
def install (s : LineSet) (way : Nat) (line : Line) : LineSet :=
  touch { s with ways := s.ways.set way (some line) } way

def drop (s : LineSet) (way : Nat) : LineSet :=
  { ways := s.ways.set way none, recency := s.recency.erase way }

/-- The lines in the order of recency, most recently used first. -/
def stack (s : LineSet) : List Line := s.recency.filterMap s.line?

@[simp] theorem length_ways_empty (assoc : Nat) : (empty assoc).ways.length = assoc := by
  simp [empty]

@[simp] theorem stack_empty (assoc : Nat) : (empty assoc).stack = [] := rfl

@[simp] theorem ways_touch (s : LineSet) (way : Nat) : (s.touch way).ways = s.ways := rfl

@[simp] theorem recency_touch (s : LineSet) (way : Nat) :
    (s.touch way).recency = way :: s.recency.erase way := rfl

@[simp] theorem recency_soil (s : LineSet) (way : Nat) : (s.soil way).recency = s.recency := rfl

@[simp] theorem length_ways_soil (s : LineSet) (way : Nat) :
    (s.soil way).ways.length = s.ways.length := by
  simp [soil]

@[simp] theorem length_ways_install (s : LineSet) (way : Nat) (line : Line) :
    (s.install way line).ways.length = s.ways.length := by
  simp [install]

@[simp] theorem length_ways_drop (s : LineSet) (way : Nat) :
    (s.drop way).ways.length = s.ways.length := by
  simp [drop]

end LineSet

end CacheHierarchy
