import CacheHierarchy.Request
import CacheHierarchy.Text.Hex
import CacheHierarchy.Topology

/-!
# The journal

A machine keeps a journal of what happened, step by step: every access, look-up, hand-over, fill,
eviction and write-back, with the cycle on the clock of the component concerned. Most entries also
have a wording and a level for the log; some are kept for the account only and have none. Caches
are named in an entry by their position.
-/

namespace CacheHierarchy

/-- How much a log entry matters. -/
inductive LogLevel
  | warn
  | info
  | debug
  deriving DecidableEq, Repr, Inhabited

namespace LogLevel

def title : LogLevel → String
  | warn => "WARN"
  | info => "INFO"
  | debug => "DEBUG"

/-- The least important level that a verbosity shows. -/
def ofVerbosity : Nat → LogLevel
  | 0 => warn
  | 1 => info
  | _ => debug

/-- How far down the order of levels a level stands. -/
def rank : LogLevel → Nat
  | warn => 0
  | info => 1
  | debug => 2

/-- Entries of a level are shown where `least` is the least important level shown. -/
def isShownAt (level least : LogLevel) : Bool := level.rank ≤ least.rank

end LogLevel

structure LogEntry where
  level : LogLevel
  text : String
  deriving DecidableEq, Repr, Inhabited

/-- An entry of the log with its level in front. -/
def LogEntry.line (e : LogEntry) : String := e.level.title ++ " " ++ e.text

/-- An entry of a level. -/
def LogLevel.entry (level : LogLevel) (text : String) : LogEntry := { level, text }

/-- A component that takes write-backs in. -/
inductive Site
  | cache (position : Nat)
  | memory
  deriving DecidableEq, Repr, Inhabited

/-- Something that happened in a machine. -/
inductive Event
  /-- The hierarchy was put together. -/
  | assembled (topology : Topology)
  /-- The core issued an access. -/
  | created (r : Request)
  /-- A cache looked a request up. -/
  | lookedUp (cache : Nat) (r : Request) (hit : Bool) (cycle : Nat)
  /-- A request was merged into the outstanding miss of another. -/
  | merged (cache : Nat) (r : Request) (into cycle : Nat)
  /-- A request left the send queue for the level below. -/
  | sentDown (cache : Nat) (r : Request) (cycle : Nat)
  /-- A request was handed to a cache above. -/
  | sentUp (cache target : Nat) (r : Request) (cycle : Nat)
  /-- Memory took a request into its queue. -/
  | accepted (r : Request)
  /-- A write-back arrived where it was announced. -/
  | absorbed (site : Site) (r : Request) (cycle : Nat)
  /-- A first-level cache installed the line of a request. -/
  | filled (cache : Nat) (r : Request) (kind : AccessKind) (cycle : Nat)
  /-- A first-level cache completed a fill without installing the line. -/
  | bypassed (cache : Nat) (r : Request) (kind : AccessKind) (cycle : Nat)
  /-- A lower level installed the line of a request. -/
  | installed (cache : Nat) (r : Request) (cycle : Nat)
  /-- A lower level had the line already and only handed the request up. -/
  | forwardedOnly (cache addr cycle : Nat)
  /-- A fill displaced a line. -/
  | evicted (cache : Nat) (addr : Nat) (dirty : Bool) (cycle : Nat)
  /-- A displaced dirty line became a write-back. -/
  | wroteBack (cache : Nat) (r : Request) (cycle : Nat)
  /-- A write-back whose line the cache no longer holds was passed on to memory. -/
  | diverted (cache : Nat) (r : Request) (cycle : Nat)
  /-- A line was displaced while a fill for it was queued in a cache above. -/
  | overtaken (cache addr above cycle : Nat)
  /-- A line was dropped because the level below displaced it. -/
  | backInvalidated (cache addr : Nat) (dirty : Bool) (cycle : Nat)
  /-- The core learned that an access is done. -/
  | retired (r : Request) (cycle : Nat)
  /-- Every access and write-back of a simulation is done. -/
  | drained (cycle accesses : Nat)
  deriving DecidableEq, Repr, Inhabited

structure Names where
  caches : List String
  memory : String

namespace Names

def cache (names : Names) (position : Nat) : String := names.caches[position]?.getD ""

def site (names : Names) : Site → String
  | .cache position => names.cache position
  | .memory => names.memory

end Names

namespace Event

/-- A request in the log: number, kind and address. -/
def requestText (r : Request) (kind : AccessKind) : String :=
  s!"#{r.id} {kind.symbol} {Text.hex r.addr}"

/-- What a component says in the log. -/
def said (component text : String) : Option LogEntry :=
  some (LogLevel.debug.entry ("[" ++ component ++ "] " ++ text))

/-- The wording of an entry in the log, if it has one. -/
def logEntry? (names : Names) : Event → Option LogEntry
  | assembled topology =>
    let chain := " -> ".intercalate (names.caches ++ [names.memory])
    some (LogLevel.info.entry s!"memory hierarchy {topology.title}: {chain}")
  | created r => said "MEM_H" s!"create {requestText r r.kind} @ {r.issuedAt}"
  | retired r cycle => said "MEM_H" s!"done {requestText r r.kind} @ {cycle}"
  | accepted r => said names.memory s!"{requestText r r.kind} accepted, ready @ {r.readyAt}"
  | absorbed site r cycle =>
    said (names.site site) s!"write-back #{r.id} {Text.hex r.addr} absorbed @ {cycle}"
  | merged cache r into cycle =>
    said (names.cache cache)
      s!"{requestText r r.kind} merged into outstanding miss #{into} @ {cycle}"
  | filled cache r kind cycle =>
    said (names.cache cache) s!"fill {requestText r kind} @ {cycle}"
  | bypassed cache r kind cycle =>
    said (names.cache cache)
      s!"fill {requestText r kind} bypassed (dirty: {kind.isWrite}) @ {cycle}"
  | forwardedOnly cache addr cycle =>
    said (names.cache cache) s!"{Text.hex addr} already resident, forwarded only @ {cycle}"
  | wroteBack cache r cycle =>
    said (names.cache cache)
      s!"dirty eviction {Text.hex r.addr}, write-back #{r.id} @ {cycle}"
  | diverted cache r cycle =>
    said (names.cache cache)
      s!"write-back #{r.id} {Text.hex r.addr} forwarded to {names.memory} @ {cycle}"
  | overtaken cache addr above cycle =>
    said (names.cache cache)
      s!"{Text.hex addr} evicted under a pending fill in {names.cache above} @ {cycle}"
  | backInvalidated cache addr dirty cycle =>
    said (names.cache cache) s!"back-invalidate {Text.hex addr} (dirty: {dirty}) @ {cycle}"
  | drained cycle accesses =>
    some (LogLevel.info.entry s!"simulation finished in {cycle} cycles, {accesses} accesses")
  | lookedUp .. | sentDown .. | sentUp .. | installed .. | evicted .. => none

end Event

end CacheHierarchy
