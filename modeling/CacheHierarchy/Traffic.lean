import CacheHierarchy.Random.Draw
import CacheHierarchy.Trace.Line

/-!
# Synthetic traffic

A generator makes accesses to a region of memory without a trace. Sequential traffic walks through
the region by a fixed stride and starts over at its end; random traffic picks a line of the region
each time. The kind of each access is drawn by two ratios. All of it follows from the
configuration, so equal configurations give equal traffic.
-/

namespace CacheHierarchy

inductive TrafficPattern
  | sequential
  | random
  deriving DecidableEq, Repr, Inhabited

namespace TrafficPattern

def all : List TrafficPattern := [sequential, random]

def word : TrafficPattern → String
  | sequential => "sequential"
  | random => "random"

def ofWord? (word : String) : Option TrafficPattern := all.find? fun p => p.word == word

end TrafficPattern

structure TrafficConfig where
  enabled : Bool := false
  seed : Nat := 0
  count : Nat := 4096
  base : Nat := 0x80000000
  workingSet : Nat := 65536
  pattern : TrafficPattern := .sequential
  stride : Nat := 64
  lineSize : Nat := 64
  /-- The share of writes among the accesses that are no instruction fetches. -/
  writeRatio : Float := 0.25
  ifetchRatio : Float := 0.0
  deriving Inhabited

/-- The numbers of a configuration are words. -/
structure TrafficConfig.Sized (c : TrafficConfig) : Prop where
  seed : c.seed < wordLimit
  count : c.count < wordLimit
  base : c.base < wordLimit
  workingSet : c.workingSet < wordLimit
  stride : c.stride < wordLimit
  lineSize : c.lineSize < wordLimit

/-- A generator that draws from a source of random numbers. -/
structure Traffic (σ : Type) where
  config : TrafficConfig
  source : σ
  issued : Nat := 0
  offset : Nat := 0

namespace Traffic

open CacheHierarchy.Random

def ofConfig (config : TrafficConfig) : Traffic KeyStream :=
  { config, source := .ofSeed config.seed.toUInt64 }

def span (config : TrafficConfig) : Nat := max config.workingSet 1

def line (config : TrafficConfig) : Nat := max config.lineSize 1

/-- A ratio moved into the unit interval. What is no number stays so. -/
def clampRatio (x : Float) : Float :=
  let x := if x < 0.0 then 0.0 else x
  if x > 1.0 then 1.0 else x

/-- The kind that a number in the unit interval stands for. -/
def kindOf (config : TrafficConfig) (roll : Float) : AccessKind :=
  let ifetch := clampRatio config.ifetchRatio
  let write := clampRatio config.writeRatio
  if roll < ifetch then .instFetch
  else if roll < ifetch + (1.0 - ifetch) * write then .write
  else .read

variable {σ : Type} [Source σ]

def nextKind (t : Traffic σ) : AccessKind × Traffic σ :=
  let (roll, source) := Source.unit t.source
  (kindOf t.config roll, { t with source })

/-- The place of the next access in the region. Sequential traffic keeps count of its strides in a
word that wraps, and random traffic picks one of the lines, of which there is at least one. -/
def nextOffset (t : Traffic σ) : Except Fault (Nat × Traffic σ) := do
  match t.config.pattern with
  | .sequential =>
    let offset ← Word.rem t.offset (span t.config)
    return (offset, { t with offset := (t.offset + t.config.stride) % wordLimit })
  | .random =>
    let lines ← Word.div (span t.config) (line t.config)
    let (pick, source) := Source.below (max lines 1) t.source
    let offset ← Word.mul pick (line t.config)
    return (offset, { t with source })

/-- The next access and the generator behind it, until all are made. -/
def next (t : Traffic σ) : Except Fault (Option (TraceRecord × Traffic σ)) := do
  if t.issued < t.config.count then
    let issued ← Word.add t.issued 1
    let (kind, t) := { t with issued }.nextKind
    let (offset, t) ← t.nextOffset
    return some ({ kind, addr := (t.config.base + offset) % wordLimit }, t)
  else return none

/-- At most `n` more accesses, behind those already made. A fault ends them. -/
def collect (t : Traffic σ) (made : List TraceRecord) : Nat → List TraceRecord
  | 0 => made.reverse
  | n + 1 =>
    match t.next with
    | .ok (some (record, t)) => collect t (record :: made) n
    | _ => made.reverse

def take (t : Traffic σ) : Nat → List TraceRecord
  | 0 => []
  | n + 1 =>
    match t.next with
    | .ok (some (record, t)) => record :: take t n
    | _ => []

def records (config : TrafficConfig) : List TraceRecord :=
  collect (ofConfig config) [] config.count

theorem collect_eq (t : Traffic σ) (made : List TraceRecord) (n : Nat) :
    collect t made n = made.reverse ++ take t n := by
  induction n generalizing t made with
  | zero => simp [collect, take]
  | succ n ih =>
    unfold collect take
    split
    · simp [ih]
    · simp

/-- All accesses are those that the generator makes one after the other. -/
theorem records_eq_take (config : TrafficConfig) :
    records config = take (ofConfig config) config.count := by
  simp [records, collect_eq]

end Traffic

end CacheHierarchy
