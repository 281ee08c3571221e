import CacheHierarchy.Access
import CacheHierarchy.GatedQueue

/-!
# Requests and completions

A request is one access under way: it stands in exactly one queue at a time. The core's accesses
become demand requests; a cache that displaces a dirty line makes a write-back request. What the
core learns of a finished request is its `Completion`.
-/

namespace CacheHierarchy

structure Request where
  id : Nat
  addr : Nat
  kind : AccessKind
  issuedAt : Nat
  /-- The cycle from which the queue that holds it may hand it out. -/
  readyAt : Nat
  /-- It carries dirty data down. -/
  dirty : Bool := false
  done : Bool := false
  /-- It missed in the first-level cache it entered. -/
  isMiss : Bool := false
  /-- The level below dropped its line while the fill was still queued above, so it completes
  without installing anything. -/
  bypass : Bool := false
  deriving DecidableEq, Repr, Inhabited

namespace Request

instance : Timed Request := ⟨Request.readyAt⟩

def ofAccess (id addr : Nat) (kind : AccessKind) (now : Nat) : Request :=
  { id, addr, kind, issuedAt := now, readyAt := now }

/-- A new write-back: born dirty and ready at once. -/
def ofWriteBack (id addr now : Nat) : Request :=
  { ofAccess id addr .writeBack now with dirty := true }

/-- The address lies in line number `line` of lines of `lineSize` bytes. -/
def isOnLine (lineSize line : Nat) (r : Request) : Bool := r.addr / lineSize == line

def finish (r : Request) : Request := { r with done := true }

@[simp] theorem timed_readyAt (r : Request) : Timed.readyAt r = r.readyAt := rfl

end Request

/-- What the core learns of a request that is done. -/
structure Completion where
  id : Nat
  addr : Nat
  kind : AccessKind
  issuedAt : Nat
  completedAt : Nat
  miss : Bool
  deriving DecidableEq, Repr, Inhabited

namespace Completion

/-- The outcome of a request that is done at the given cycle. -/
def ofRequest (r : Request) (completedAt : Nat) : Completion :=
  { id := r.id
    addr := r.addr
    kind := r.kind
    issuedAt := r.issuedAt
    completedAt
    miss := r.isMiss }

def latency (c : Completion) : Nat := c.completedAt - c.issuedAt

end Completion

end CacheHierarchy
