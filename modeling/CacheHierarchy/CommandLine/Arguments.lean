import CacheHierarchy.Topology
import CacheHierarchy.Word

/-!
# Arguments

The command line names one file of settings and may override some of the settings by options. An
option is written `--name value` or `--name=value` and given at most once. What starts with a hyphen
is no value in the first form, unless it is a lone hyphen. Behind a lone `--` stands no option any
more.
-/

namespace CacheHierarchy.CommandLine

inductive Override
  | trace
  | topology
  | verbosity
  | dump
  | statistics
  deriving DecidableEq, Repr, Inhabited

namespace Override

def all : List Override := [trace, topology, verbosity, dump, statistics]

def name : Override → String
  | trace => "--trace"
  | topology => "--hierarchy"
  | verbosity => "--log"
  | dump => "--dump"
  | statistics => "--stats-json"

def ofName? (name : String) : Option Override := all.find? fun o => o.name == name

end Override

inductive Argument
  | plain (text : String)
  | override (which : Override) (value : String)
  deriving DecidableEq, Repr, Inhabited

/-- A text cut at its first equals sign, if it has one. -/
def splitEquals (text : String) : String × Option String :=
  let isName (c : Char) : Bool := c != '='
  match text.toList.dropWhile isName with
  | [] => (text, none)
  | _ :: value => (String.ofList (text.toList.takeWhile isName), some (String.ofList value))

/-- A text that starts with a hyphen and goes on is no value. -/
def isValue (text : String) : Bool := !text.startsWith "-" || text == "-"

def arguments? : List String → Option (List Argument)
  | [] => some []
  | text :: rest =>
    if text = "--" then some (rest.map .plain)
    else if isValue text then do return .plain text :: (← arguments? rest)
    else
      match splitEquals text with
      | (name, some value) => do
        return .override (← Override.ofName? name) value :: (← arguments? rest)
      | (name, none) =>
        match rest with
        | [] => none
        | value :: rest => do
          if !isValue value then none
          return .override (← Override.ofName? name) value :: (← arguments? rest)

structure Invocation where
  settings : String
  trace : Option String := none
  topology : Option Topology := none
  verbosity : Option Nat := none
  dump : Option Bool := none
  statistics : Option String := none
  deriving DecidableEq, Repr, Inhabited

namespace Invocation

def path? (text : String) : Option String := if text.isEmpty then none else some text

def switch? (text : String) : Option Bool :=
  if text = "true" then some true else if text = "false" then some false else none

/-- A number in base ten that fits in a word. A plus sign may stand in front. -/
def number? (text : String) : Option Nat :=
  let digits : List Char := match text.toList with
    | '+' :: digits => digits
    | digits => digits
  let value := digits.foldl (fun value c => 10 * value + (c.toNat - '0'.toNat)) 0
  if digits.isEmpty ∨ !digits.all Char.isDigit ∨ wordLimit ≤ value then none else some value

def valuesOf (which : Override) (args : List Argument) : List String :=
  args.filterMap fun
    | .plain _ => none
    | .override w value => if w = which then some value else none

def plainTexts (args : List Argument) : List String :=
  args.filterMap fun
    | .plain text => some text
    | .override _ _ => none

/-- The value of an option, none if it is not given. -/
def value? {α : Type} (which : Override) (read? : String → Option α) (args : List Argument) :
    Option (Option α) :=
  match valuesOf which args with
  | [] => some none
  | [value] => (read? value).map some
  | _ => none

/-- The invocation that the parts of a command line make. -/
def ofArguments? (args : List Argument) : Option Invocation := do
  let settings ← match plainTexts args with
    | [text] => path? text
    | _ => none
  return {
    settings
    trace := ← value? .trace path? args
    topology := ← value? .topology Topology.ofName? args
    verbosity := ← value? .verbosity number? args
    dump := ← value? .dump switch? args
    statistics := ← value? .statistics path? args }

/-- The invocation that a command line stands for. -/
def ofCommandLine? (texts : List String) : Option Invocation := do
  ofArguments? (← arguments? texts)

end Invocation

end CacheHierarchy.CommandLine
