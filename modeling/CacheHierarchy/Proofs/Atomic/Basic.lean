import CacheHierarchy.Proofs.Outline.Basic
import CacheHierarchy.Proofs.Tags.Stacks

/-!
# The atomic model

What the caches of a hierarchy hold, in the order of recency, and how many write-backs memory has
taken in. An access to a line turns one such `Contents` into another at once: there are no queues,
no clocks and no write-backs on their way.

The lines of all caches are taken to be of one size, so a line has one number everywhere.
-/

namespace CacheHierarchy

/-- What the caches hold and what memory has counted. -/
@[ext]
structure Contents where
  /-- The stack of each set of each cache. -/
  sets : Nat → Nat → Stack
  /-- The write-backs that memory has taken in. -/
  writeBacks : Nat

namespace Contents

def empty : Contents where
  sets := fun _ _ => []
  writeBacks := 0

def spill (dirty : Bool) (c : Contents) : Contents :=
  if dirty then { c with writeBacks := c.writeBacks + 1 } else c

section

variable (p : Plan) (i line : Nat)

def dirty? (c : Contents) : Option Bool :=
  Stack.dirty? (c.sets i (line % (p.geometry i).numSets)) (line / (p.geometry i).numSets)

def holds (c : Contents) : Bool := (c.dirty? p i line).isSome

/-- The stack of a line in cache `i` is changed by an operation on the tag of the line. -/
def alter (f : Stack → Nat → Stack) (c : Contents) : Contents :=
  { c with sets := Function.update c.sets i (Function.update (c.sets i)
      (line % (p.geometry i).numSets)
      (f (c.sets i (line % (p.geometry i).numSets)) (line / (p.geometry i).numSets))) }

def leaving? (c : Contents) : Option (Nat × Bool) :=
  (Stack.leaving? (p.geometry i).assoc (c.sets i (line % (p.geometry i).numSets))).map fun l =>
    (l.tag * (p.geometry i).numSets + line % (p.geometry i).numSets, l.dirty)

def place (dirty : Bool) (c : Contents) : Contents :=
  c.alter p i line (Stack.place (p.geometry i).assoc dirty)

/-- Cache `i` gives up a line if it holds it. A dirty copy goes to memory. -/
def withdraw (c : Contents) : Contents :=
  (c.dirty? p i line).elim c fun dirty => (c.alter p i line Stack.remove).spill dirty

def withdrawAll (line : Nat) (c : Contents) : Contents :=
  p.topology.ports.foldl (fun c port => c.withdraw p port.2 line) c

/-- The base takes in a clean line that it does not hold. The line that makes room for it is given
up by the caches above, too, and every dirty copy of it goes to memory. -/
def bring (line : Nat) (c : Contents) : Contents :=
  p.topology.base?.elim c fun b =>
    if c.holds p b line then c
    else (c.leaving? p b line).elim (c.place p b line false) fun victim =>
      ((c.place p b line false).spill victim.2).withdrawAll p victim.1

def fetch (line : Nat) (c : Contents) : Contents :=
  p.topology.base?.elim c fun b =>
    if c.holds p b line then c.alter p b line (Stack.use false) else c.bring p line

/-- The first-level cache at position `i` takes a line in. If the line that makes room for it is
dirty, it becomes dirty in the base, or goes to memory where there is no base. -/
def fillIn (isWrite : Bool) (c : Contents) : Contents :=
  let filled := c.place p i line isWrite
  match c.leaving? p i line with
  | some (victim, true) =>
    p.topology.base?.elim (filled.spill true) fun b => filled.alter p b victim Stack.stain
  | _ => filled

/-- An access to a line. Says whether it is a miss in the first-level cache that it enters. -/
def access (line : Nat) (kind : AccessKind) (c : Contents) : Bool × Contents :=
  let top := p.topology.top kind.side
  if c.holds p top line then (false, c.alter p top line (Stack.use kind.isWrite))
  else (true, (c.fetch p line).fillIn p top line kind.isWrite)

end

theorem holds_eq (p : Plan) (i line : Nat) (c : Contents) : c.holds p i line =
    Stack.holds (c.sets i (line % (p.geometry i).numSets)) (line / (p.geometry i).numSets) := rfl

theorem alter_use_of_not_holds {p : Plan} {i line : Nat} {c : Contents}
    (h : c.holds p i line = false) (isWrite : Bool) :
    c.alter p i line (Stack.use isWrite) = c := by
  rw [alter, Stack.use_of_not_holds (holds_eq p i line c ▸ h), Function.update_eq_self,
    Function.update_eq_self]

end Contents

end CacheHierarchy
