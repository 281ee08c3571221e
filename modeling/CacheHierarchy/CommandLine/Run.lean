import CacheHierarchy.CommandLine.Arguments
import CacheHierarchy.Files.Basic
import CacheHierarchy.Settings
import CacheHierarchy.Simulation.Summary
import CacheHierarchy.Simulation.Workload
import CacheHierarchy.Trace.Basic

/-!
# One run from the command line

A run reads the settings, lets a simulation work on a trace or on synthetic traffic, and reports.
The report goes to the output; what the tag arrays hold goes into a file for each cache, or to the
output at the highest verbosity; statistics go into a file. The first thing that goes wrong ends the
run, and what was put out until then stays.

How the run gets at files is left open, so the same definition works on a disk and on a folder in
memory.
-/

namespace CacheHierarchy.CommandLine

inductive Failure
  /-- The command line asks for nothing that can be run. -/
  | usage
  /-- An error, as a chain of messages, outermost first. -/
  | error (chain : List String)
  | fault (f : Fault)
  deriving DecidableEq, Repr, Inhabited

namespace Failure

def status : Failure → Nat
  | usage => 2
  | error _ => 1
  | fault _ => 101

/-- The causes of an error, one on each line, numbered if there are several. -/
def causesText : List String → String
  | [] => ""
  | [cause] => s!"\nCaused by:\n    {cause}\n"
  | causes =>
    "\nCaused by:\n" ++ String.join (causes.zipIdx.map fun (cause, number) =>
      Text.rightAligned 5 (toString number) ++ ": " ++ cause ++ "\n")

def report : Failure → String
  | usage =>
    "Usage: SETTINGS [--trace PATH] [--hierarchy SHAPE] [--log NUMBER] [--dump true|false] " ++
      "[--stats-json PATH]\n"
  | error [] => ""
  | error (outermost :: causes) => s!"Error: {outermost}\n" ++ causesText causes
  | fault f => f.message ++ "\n"

end Failure

structure Output where
  text : String := ""
  log : List LogEntry := []
  deriving DecidableEq, Repr, Inhabited

abbrev Run (m : Type → Type) := ExceptT Failure (StateT Output m)

namespace Run

variable {m : Type → Type} [Monad m]

def fail {α : Type} (chain : List String) : Run m α := throw (.error chain)

def print (text : String) : Run m Unit := modify fun out => { out with text := out.text ++ text }

/-- Entries are logged as far as the verbosity shows them. -/
def logAll (settings : Settings) (entries : List LogEntry) : Run m Unit :=
  let shown := entries.filter fun e => e.level.isShownAt settings.leastLevel
  modify fun out => { out with log := out.log ++ shown }

/-- A simulation works on a workload. Its log is kept whether it succeeds or not. -/
def simulate (settings : Settings) (w : Workload) (s : Simulation) : Run m Simulation :=
  match Simulation.run w s with
  | .ok () s => do
    logAll settings s.hierarchy.machine.log
    return s
  | .error e s => do
    logAll settings s.hierarchy.machine.log
    match e with
    | .error timeout => fail [timeout.message]
    | .fault f => throw (.fault f)

variable [Files m]

def readFile (path : String) : Run m (Except FileError ByteArray) :=
  ExceptT.lift (StateT.lift (Files.read path))

/-- A text becomes the content of the file at a path, or the run fails with `complaint`. -/
def writeFile (path text complaint : String) : Run m Unit := do
  match ← (ExceptT.lift (StateT.lift (Files.write path text)) : Run m (Except FileError Unit)) with
  | .ok () => return
  | .error e => fail [complaint, e.message]

def loadSettings (path : String) : Run m Settings := do
  let unreadable := s!"failed to read config file {path}"
  match ← readFile path with
  | .error e => fail [unreadable, e.message]
  | .ok bytes =>
    match String.fromUTF8? bytes with
    | none => fail [unreadable, "stream did not contain valid UTF-8"]
    | some text =>
      match (Settings.ofText text).1 with
      | none => fail [s!"cannot parse config {path}", "a setting is malformed"]
      | some settings => return settings

def loadTrace (path : String) : Run m (List TraceRecord) := do
  let unreadable := s!"failed to parse trace file {path}"
  match ← readFile path with
  | .error .directory => fail [unreadable, "cannot read trace line 1", FileError.directory.message]
  | .error e => fail [s!"failed to open trace file {path}", e.message]
  | .ok bytes =>
    match Trace.ofBytes bytes.data.toList with
    | .error e => fail (unreadable :: e.chain)
    | .ok records => return records

/-- The accesses to be issued: those of the trace if there is one, and otherwise synthetic ones. -/
def workload (settings : Settings) : Run m Workload :=
  match settings.trace with
  | some path => return .recorded (← loadTrace path)
  | none =>
    if settings.traffic.enabled then return .generated settings.traffic
    else fail ["no trace given and [traffic] is disabled"]

/-- The contents of every cache go into a file named after it. -/
def dumpToFiles (settings : Settings) (h : Hierarchy) : Run m Unit :=
  h.machine.caches.forM fun c => do
    let path := c.name ++ ".dump"
    writeFile path c.tags.dump s!"cannot write tag store dump for {c.name}"
    logAll settings [LogLevel.info.entry s!"wrote {path}"]

end Run

namespace Invocation

/-- The settings with those overridden that the command line gives. -/
def override (i : Invocation) (settings : Settings) : Settings :=
  { settings with
    trace := i.trace.or settings.trace
    topology := i.topology.getD settings.topology
    verbosity := i.verbosity.getD settings.verbosity
    dump := i.dump.getD settings.dump
    statistics := i.statistics.or settings.statistics }

variable {m : Type → Type} [Monad m] [Files m]

/-- The end of a run: everything that is wanted of a finished simulation. -/
def conclude (settings : Settings) (s : Simulation) : Run m Unit := do
  let report := s.hierarchy.report
  unless report.isEmpty do Run.print (report ++ "\n")
  Run.print (s.summary.closing s.hierarchy.machine.memory.name)
  if settings.dump then Run.dumpToFiles settings s.hierarchy
  else if LogLevel.debug.isShownAt settings.leastLevel then Run.print s.hierarchy.dump
  match settings.statistics with
  | none => return
  | some path => Run.writeFile path s.summary.toJson.indented s!"cannot write stats to {path}"

def run (i : Invocation) : Run m Unit := do
  let settings := i.override (← Run.loadSettings i.settings)
  match Simulation.ofConfig settings.hierarchy settings.timeout with
  | .error (.error e) => Run.fail (Hierarchy.buildError e)
  | .error (.fault f) => throw (.fault f)
  | .ok s =>
    let w ← Run.workload settings
    conclude settings (← Run.simulate settings w s)

end Invocation

structure Outcome where
  output : Output
  failure : Option Failure
  deriving DecidableEq, Repr, Inhabited

def Outcome.status (o : Outcome) : Nat :=
  match o.failure with
  | none => 0
  | some f => f.status

def outcome {m : Type → Type} [Monad m] [Files m] (texts : List String) : m Outcome :=
  match Invocation.ofCommandLine? texts with
  | none => return { output := {}, failure := some .usage }
  | some i => do
    let (result, output) ← (i.run : Run m Unit).run.run {}
    return { output, failure := match result with
      | .ok () => none
      | .error failure => some failure }

end CacheHierarchy.CommandLine
