import CacheHierarchy.Hierarchy.Config
import CacheHierarchy.Machine.Journal
import CacheHierarchy.Toml.Document
import CacheHierarchy.Traffic

/-!
# Settings

The settings of a run are read from a TOML document with one section for the run, one for each
cache level, one for memory and one for synthetic traffic. A section is a table, or an array that
lists its settings in a fixed order. A setting that is left out has its default, and one that is
not known is ignored. A section that is left out is worth a warning; a setting of the wrong kind
spoils the whole.
-/

namespace CacheHierarchy

open Toml

structure Settings where
  /-- The path of the trace, if the run reads one. -/
  trace : Option String := none
  topology : Topology := .multiLevel
  verbosity : Nat := 0
  timeout : Nat := 10000000
  /-- The contents of the tag arrays are wanted at the end. -/
  dump : Bool := false
  /-- The path to which statistics are written, if they are wanted. -/
  statistics : Option String := none
  l1d : LevelConfig := {}
  l1i : LevelConfig := {}
  l2 : LevelConfig := {}
  memoryLatency : Nat := 100
  traffic : TrafficConfig := {}
  deriving Inhabited

namespace Settings

def hierarchy (s : Settings) : HierarchyConfig where
  topology := s.topology
  l1d := s.l1d
  l1i := s.l1i
  l2 := s.l2
  memoryLatency := s.memoryLatency

/-- The least important level of log entries that the settings show. -/
def leastLevel (s : Settings) : LogLevel := .ofVerbosity s.verbosity

/-! ### Values of settings -/

def count? : Value → Option Nat
  | .integer n => if 0 ≤ n then some n.toNat else none
  | _ => none

def switch? : Value → Option Bool
  | .boolean b => some b
  | _ => none

def wholeFloat (n : Int) : Float :=
  Decimal.Scientific.toFloat { coefficient := n.natAbs, exponent := 0 } (n < 0)

def ratio? : Value → Option Float
  | .float x => some x
  | .integer n => some (wholeFloat n)
  | _ => none

/-- A path. A date or time will do and stands for its text. -/
def path? : Value → Option String
  | .string s => some s
  | .moment m => some m.text
  | _ => none

/-- One of several words, also as the only key of a table with nothing under it. -/
def word? : Value → Option String
  | .string s => some s
  | .table [(key, .table [])] => some key
  | .table [(key, .array [])] => some key
  | _ => none

/-! ### Sections -/

/-- The settings of a section under their keys. The keys of an array are those in `keys`, in that
order. -/
def entries? (keys : List String) : Value → Option Table
  | .table entries => some entries
  | .array values => if values.length ≤ keys.length then some (keys.zip values) else none
  | _ => none

/-- The setting under a key, or the one by default if there is none. -/
def setting? {α : Type} (entries : Table) (key : String) (read? : Value → Option α) (dflt : α) :
    Option α :=
  match entries.get? key with
  | none => some dflt
  | some v => read? v

/-- The settings of a run itself, in front of the sections that describe what runs. -/
def run? (v : Value) : Option Settings := do
  let s : Settings := {}
  let entries ← entries? ["trace", "hierarchy", "log_level", "timeout", "dump", "stats_json"] v
  return { s with
    trace := ← setting? entries "trace" (fun v => (path? v).map some) s.trace
    topology := ← setting? entries "hierarchy" (fun v => word? v >>= Topology.ofWord?) s.topology
    verbosity := ← setting? entries "log_level" count? s.verbosity
    timeout := ← setting? entries "timeout" count? s.timeout
    dump := ← setting? entries "dump" switch? s.dump
    statistics := ← setting? entries "stats_json" (fun v => (path? v).map some) s.statistics }

def level? (v : Value) : Option LevelConfig := do
  let c : LevelConfig := {}
  let entries ← entries? ["size", "assoc", "line_size", "latency"] v
  return {
    size := ← setting? entries "size" count? c.size
    assoc := ← setting? entries "assoc" count? c.assoc
    lineSize := ← setting? entries "line_size" count? c.lineSize
    latency := ← setting? entries "latency" count? c.latency }

def memory? (v : Value) : Option Nat := do
  let s : Settings := {}
  setting? (← entries? ["latency"] v) "latency" count? s.memoryLatency

def traffic? (v : Value) : Option TrafficConfig := do
  let c : TrafficConfig := {}
  let entries ← entries? ["enabled", "seed", "count", "base", "working_set", "pattern", "stride",
    "line_size", "write_ratio", "ifetch_ratio"] v
  return {
    enabled := ← setting? entries "enabled" switch? c.enabled
    seed := ← setting? entries "seed" count? c.seed
    count := ← setting? entries "count" count? c.count
    base := ← setting? entries "base" count? c.base
    workingSet := ← setting? entries "working_set" count? c.workingSet
    pattern := ← setting? entries "pattern" (fun v => word? v >>= TrafficPattern.ofWord?) c.pattern
    stride := ← setting? entries "stride" count? c.stride
    lineSize := ← setting? entries "line_size" count? c.lineSize
    writeRatio := ← setting? entries "write_ratio" ratio? c.writeRatio
    ifetchRatio := ← setting? entries "ifetch_ratio" ratio? c.ifetchRatio }

/-! ### The whole document -/

/-- Reading settings may fail, and keeps the warnings made until then, oldest first. -/
abbrev Reading := OptionT (StateM (List LogEntry))

/-- What is said of a section that is left out. -/
def missingSection : LogEntry := LogLevel.warn.entry "config section not found"

/-- A section of a document, or its defaults and a warning if it is left out. -/
def sectionOf {α : Type} (document : Table) (key : String) (read? : Value → Option α) (dflt : α) :
    Reading α :=
  match document.get? key with
  | some v => OptionT.mk (pure (read? v))
  | none => do
    modify fun warnings => warnings ++ [missingSection]
    return dflt

/-- The settings in a document, section by section. -/
def read (document : Table) : Reading Settings := do
  let s ← sectionOf document "sim" run? {}
  return { s with
    l1d := ← sectionOf document "l1d" level? s.l1d
    l1i := ← sectionOf document "l1i" level? s.l1i
    l2 := ← sectionOf document "l2" level? s.l2
    memoryLatency := ← sectionOf document "memory" memory? s.memoryLatency
    traffic := ← sectionOf document "traffic" traffic? s.traffic }

/-- The settings that a text describes, if it is a document and every setting is of its kind, and
the warnings. -/
def ofText (text : String) : Option Settings × List LogEntry :=
  match Table.ofText? text with
  | none => (none, [])
  | some document => (read document).run.run []

end Settings

end CacheHierarchy
